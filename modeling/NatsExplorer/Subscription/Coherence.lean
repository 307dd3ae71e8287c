import NatsExplorer.Subscription.Clearing

/-! Whether shards and tree agree whenever no clearing is half done. They do as long
as nothing falls into the gaps: a subject that comes back after its shard was cleared
must still be waiting for the tick when the tree is, and a recount must not be
overtaken. -/
namespace NatsExplorer.Subscription.Shards
open Go

section Census
variable {shards : List Shard} {f : Str → Bool} {i j : Nat} {sh new : Shard}

theorem census_append (front back : List Shard) : census (front ++ back) f = census front f + census back f := by
  simp only [census, List.map_append, List.sum_append]

theorem census_take_succ (here : shards[i]? = some sh) :
    census (shards.take (i + 1)) f = census (shards.take i) f + sh.subjects.keys.countP f := by
  rw [List.take_add_one, here, census_append]
  rfl

/-- A shard that holds as many subjects as before does not change a count. -/
theorem census_take_set_same (here : shards[i]? = some sh)
    (same : new.subjects.keys.countP f = sh.subjects.keys.countP f) (j : Nat) :
    census ((shards.set i new).take j) f = census (shards.take j) f := by
  by_cases inside : i < j
  · have taken : (shards.take j)[i]? = some sh := by rw [List.getElem?_take_of_lt inside, here]
    have counts := census_set (f := f) taken new
    rw [List.take_set]
    omega
  · rw [List.take_set_of_le (Nat.le_of_not_lt inside)]

theorem census_set_same (here : shards[i]? = some sh)
    (same : new.subjects.keys.countP f = sh.subjects.keys.countP f) :
    census (shards.set i new) f = census shards f := by
  have counts := census_set (f := f) here new
  omega

theorem forall_set {P : Nat → Shard → Prop} (others : ∀ j sh, j ≠ i → shards[j]? = some sh → P j sh)
    (here : P i new) : ∀ j sh, (shards.set i new)[j]? = some sh → P j sh := by
  intro j sh found
  by_cases same : i = j
  · subst same
    rw [List.getElem?_set_self'] at found
    obtain ⟨_, _, rfl⟩ := Option.map_eq_some_iff.mp found
    exact here
  · rw [List.getElem?_set_ne same] at found
    exact others j sh (Ne.symm same) found

end Census

/-- What is true of the subjects of a shard. -/
def Held {R : Type} (place : Str → Nat) (tree : Tree R) (i : Nat) (sh : Shard) : Prop :=
  ∀ x st, sh.subjects.lookup x = some st →
    place x = i ∧ 0 < st.count ∧ (x ∈ sh.dirty ∨ Carried tree x st)

structure Manager.Sane {R : Type} (m : Manager R) : Prop where
  linked : m.tree.Linked
  marked : m.tree.Marked
  held : ∀ i sh, m.shards[i]? = some sh → Held m.shardOf m.tree i sh

section Held
variable {R : Type} {place : Str → Nat} {tree tree' : Tree R} {i : Nat} {sh : Shard}

theorem Held.weaken (held : Held place tree i sh)
    (kept : ∀ x st, sh.subjects.lookup x = some st → 0 < st.count → x ∉ sh.dirty →
      Carried tree x st → Carried tree' x st) : Held place tree' i sh := by
  intro x st found
  obtain ⟨here, positive, waiting⟩ := held x st found
  refine ⟨here, positive, ?_⟩
  by_cases dirty : x ∈ sh.dirty
  · exact Or.inl dirty
  · exact Or.inr (kept x st found positive dirty (waiting.resolve_left dirty))

theorem Held.observe (held : Held place tree i sh) (rec : Record) (here : place rec.subject = i) :
    Held place tree i (sh.observe rec) := by
  intro x st found
  simp only [Shard.observe] at found ⊢
  by_cases same : x = rec.subject
  · subst same
    rw [AList.lookup_insert, Option.some.injEq] at found
    subst found
    refine ⟨here, ?_, Or.inl (List.mem_append_right _ (List.mem_singleton_self _))⟩
    cases old : sh.subjects.lookup rec.subject with
    | none => exact Int.one_pos
    | some st =>
      have := (held _ _ old).2.1
      simp only [Option.getD_some]
      omega
  · rw [AList.lookup_insert_ne same] at found
    obtain ⟨here, positive, waiting⟩ := held x st found
    exact ⟨here, positive, waiting.imp_left (List.mem_append_left _)⟩

theorem foldl_erase_lookup (gone : List Str) {subjects : Map Str SubjectStats} {x : Str} {st : SubjectStats}
    (found : (gone.foldl (fun m s => m.erase s) subjects).lookup x = some st) :
    x ∉ gone ∧ subjects.lookup x = some st := by
  induction gone generalizing subjects with
  | nil => exact ⟨List.not_mem_nil, found⟩
  | cons s gone ih =>
    obtain ⟨absent, before⟩ := ih found
    by_cases same : x = s
    · subst same
      rw [AList.lookup_erase] at before
      cases before
    · rw [AList.lookup_erase_ne same] at before
      exact ⟨List.not_mem_cons_of_ne_of_not_mem same absent, before⟩

theorem Held.forget (held : Held place tree i sh) (wanted gone : List Str) :
    Held place tree i (sh.forget wanted gone).1 := by
  intro x st found
  simp only [Shard.forget] at found ⊢
  obtain ⟨absent, before⟩ := foldl_erase_lookup _ found
  obtain ⟨here, positive, waiting⟩ := held x st before
  have unwanted : x ∉ wanted := fun listed =>
    absent (List.mem_filter.mpr ⟨AList.lookup_isSome.mp (Option.isSome_of_eq_some before),
      decide_eq_true listed⟩)
  refine ⟨here, positive, waiting.imp_left fun dirty => ?_⟩
  split
  · exact List.mem_filter.mpr ⟨dirty, decide_eq_true unwanted⟩
  · exact dirty

theorem Held.forgetAll : Held place tree i sh.forgetAll := by
  intro x st found
  cases found

variable [Zero R] [DecidableEq R] (rates : Str → R) (rt : Runtime)

theorem Held.sync (held : Held place tree i sh) (linked : tree.Linked) (marked : tree.Marked) :
    Held place (sh.sync rates rt tree).2 i (sh.sync rates rt tree).1 := by
  obtain ⟨synced, same, shown⟩ := Shard.sync_spec rates rt sh linked marked
  intro x st found
  rw [same] at found
  obtain ⟨here, positive, waiting⟩ := held x st found
  refine ⟨here, positive, Or.inr ?_⟩
  rcases waiting with dirty | carried
  · exact shown x dirty st found
  · exact synced.carried x st found carried

end Held

namespace Manager
variable {R : Type} {m m' : Manager R}

theorem Sane.of (m : Manager R) (hash : m'.hash = m.hash) (length : m'.shards.length = m.shards.length)
    (linked : m'.tree.Linked) (marked : m'.tree.Marked)
    (held : ∀ i sh, m'.shards[i]? = some sh → Held m.shardOf m'.tree i sh) : m'.Sane := by
  have place : m'.shardOf = m.shardOf := by
    funext s
    simp only [shardOf, hash, length]
  exact ⟨linked, marked, place ▸ held⟩

theorem Sane.process (sane : m.Sane) (rec : Record) : (m.process rec).Sane := by
  unfold Manager.process
  cases here : m.shards[m.shardOf rec.subject]? with
  | none => exact sane
  | some sh =>
    have held := forall_set (fun j sh _ => sane.held j sh) ((sane.held _ _ here).observe rec rfl)
    simp only
    split
    · exact .of m rfl (List.length_set ..) sane.linked sane.marked held
    · exact .of m rfl (List.length_set ..) sane.linked sane.marked held

section Restore
variable [Zero R]

/-- A recorded subject is in the tree at once. -/
theorem restoreSubject_sane (sane : m.Sane) {s : Str} (new : s ∉ m.known) {st : SubjectStats}
    (positive : 0 < st.count) : (m.restoreSubject s st).Sane := by
  obtain ⟨linked, marked, _⟩ := Tree.observe_spec s st.count.toNat (0 : R) st.last sane.linked sane.marked
  obtain ⟨shown, others⟩ := Tree.observe_values s st.count.toNat (0 : R) st.last sane.linked sane.marked
  have kept : ∀ i sh, m.shards[i]? = some sh →
      Held m.shardOf (m.tree.observe s st.count.toNat 0 st.last) i sh := by
    intro i sh here
    refine (sane.held i sh here).weaken fun x st' found _ _ => others x _ _ ?_
    rintro rfl
    exact new (mem_known.mpr ⟨sh, List.mem_of_getElem? here,
      AList.lookup_isSome.mp (Option.isSome_of_eq_some found)⟩)
  unfold restoreSubject
  split
  · simp only
    cases here : m.shards[m.shardOf s]? with
    | none =>
      simp only [shardOf] at here
      simp only [shardOf, here]
      exact ⟨linked, marked, kept⟩
    | some sh =>
      have held : Held m.shardOf (m.tree.observe s st.count.toNat 0 st.last) (m.shardOf s)
          { sh with subjects := sh.subjects.insert s st } := by
        intro x st' found
        simp only at found ⊢
        by_cases same : x = s
        · subst same
          rw [AList.lookup_insert, Option.some.injEq] at found
          exact found ▸ ⟨rfl, positive, Or.inr shown⟩
        · rw [AList.lookup_insert_ne same] at found
          exact kept _ sh here x st' found
      simp only [shardOf] at here
      simp only [shardOf, here]
      split
      · exact .of m rfl rfl linked marked kept
      · exact .of m rfl (List.length_set ..) linked marked (forall_set (fun j sh _ => kept j sh) held)
  · exact sane

theorem restoreSubjects_sane (exact : m.Exact) (sane : m.Sane) (filled : 0 < m.shards.length)
    {entries : List (Sigma fun _ : Str => SubjectStats)} (distinct : (entries.map Sigma.fst).Nodup)
    (new : ∀ e ∈ entries, e.1 ∉ m.known) (positive : ∀ e ∈ entries, 0 < e.2.count) :
    (entries.foldl (fun m e => m.restoreSubject e.1 e.2) m).Sane := by
  induction entries generalizing m with
  | nil => exact sane
  | cons e entries ih =>
    obtain ⟨first, distinct⟩ := List.nodup_cons.mp distinct
    have inside : m.shardOf e.1 < m.shards.length := Nat.mod_lt _ filled
    have absent : e.1 ∉ (m.shards[m.shardOf e.1]).subjects.keys := fun member =>
      new e List.mem_cons_self (mem_known.mpr ⟨_, List.getElem_mem inside, member⟩)
    obtain ⟨next, length, known⟩ :=
      restoreSubject_exact exact (List.getElem?_eq_getElem inside) absent e.2
    refine ih next (restoreSubject_sane sane (new e List.mem_cons_self) (positive e List.mem_cons_self))
      (length.symm ▸ filled) distinct (fun e' member back => ?_)
      fun e' member => positive e' (List.mem_cons_of_mem _ member)
    rcases known e'.1 back with old | same
    · exact new e' (List.mem_cons_of_mem _ member) old
    · exact first (same ▸ List.mem_map_of_mem member)

theorem start_sane (hash : Str → Nat) (cpus : Nat) (subjects : List Str) {recorded : Map Str SubjectStats}
    (positive : ∀ x st, recorded.lookup x = some st → 0 < st.count) :
    (start hash cpus subjects recorded : Manager R).Sane := by
  have none (sh : Shard) (member : sh ∈ List.replicate (shardCount cpus) Shard.new) (x : Str) :
      x ∉ sh.subjects.keys := by
    rw [List.eq_of_mem_replicate member]
    exact List.not_mem_nil
  have filled : 0 < (List.replicate (shardCount cpus) Shard.new).length := by
    rw [List.length_replicate, shardCount]
    omega
  have empty : Exact (start hash cpus subjects ∅ : Manager R) := start_exact hash cpus subjects ∅
  refine restoreSubjects_sane empty ⟨Tree.newTree_linked, Tree.newTree_marked, ?_⟩ filled
    recorded.nodupKeys (fun e _ back => ?_) fun e member => positive e.1 e.2 (AList.mem_lookup_iff.mpr member)
  · intro i sh here x st found
    exact absurd (AList.lookup_isSome.mp (Option.isSome_of_eq_some found))
      (none sh (List.mem_of_getElem? here) x)
  · obtain ⟨sh, member, listed⟩ := mem_known.mp back
    exact none sh member e.1 listed

end Restore
end Manager

/-- The counter lags behind this call. -/
def Phase.Owing : Phase → Prop
  | .forgetting _ gone _ => gone ≠ []
  | .counting .. | .emptying _ => True
  | _ => False

namespace Running
variable {T R : Type} [DecidableEq T] {phase : T → Phase} {shards : List Shard} {count count' : Int}
  {t : T} {next : Phase} {i : Nat} {sh new : Shard}

/-- The recounts are right so far, and the counter is when nothing is owed. -/
structure Counts (phase : T → Phase) (shards : List Shard) (count : Int) : Prop where
  recount : ∀ t gone i n, phase t = .counting gone i n → n = census (shards.take i) fun _ => true
  settled : (∀ t, ¬ (phase t).Owing) → count = census shards fun _ => true

theorem Counts.move (counts : Counts phase shards count)
    (recount : ∀ gone i n, next = .counting gone i n → n = census (shards.take i) fun _ => true)
    (settled : ¬ next.Owing → (∀ t', t' ≠ t → ¬ (phase t').Owing) →
      count' = census shards fun _ => true) :
    Counts (Function.update phase t next) shards count' := by
  constructor
  · intro t' gone i n counting
    by_cases same : t' = t
    · subst same
      rw [Function.update_self] at counting
      exact recount gone i n counting
    · rw [Function.update_of_ne same] at counting
      exact counts.recount t' gone i n counting
  · intro none
    refine settled (by simpa only [Function.update_self] using none t) fun t' other => ?_
    simpa only [Function.update_of_ne other] using none t'

theorem Counts.goto (counts : Counts phase shards count)
    (recount : ∀ gone i n, next = .counting gone i n → n = census (shards.take i) fun _ => true)
    (owes : (phase t).Owing → next.Owing) : Counts (Function.update phase t next) shards count := by
  refine counts.move recount fun paid others => counts.settled fun t' => ?_
  by_cases same : t' = t
  · exact same ▸ fun owing => paid (owes owing)
  · exact others t' same

omit [DecidableEq T] in
theorem Counts.resize (counts : Counts phase shards count) (here : shards[i]? = some sh)
    (steady : new.subjects.keys.length = sh.subjects.keys.length ∨ ¬ Passed phase i)
    (settled : (∀ t, ¬ (phase t).Owing) → count = census shards (fun _ => true) →
      count' = census (shards.set i new) fun _ => true) :
    Counts phase (shards.set i new) count' := by
  refine ⟨fun t gone j n counting => ?_, fun none => settled none (counts.settled none)⟩
  rw [counts.recount t gone j n counting]
  rcases steady with same | unpassed
  · exact (census_take_set_same here (by simpa only [List.countP_true] using same) j).symm
  · have before : j ≤ i := Nat.le_of_not_lt fun passed => unpassed ⟨t, gone, j, n, counting, passed⟩
    rw [List.take_set_of_le before]

theorem Passed.of_update (plain : ∀ gone j n, next ≠ .counting gone j n)
    (passed : Passed (Function.update phase t next) i) : Passed phase i := by
  obtain ⟨t', gone, j, n, counting, past⟩ := passed
  by_cases same : t' = t
  · subst same
    rw [Function.update_self] at counting
    exact absurd counting (plain gone j n)
  · rw [Function.update_of_ne same] at counting
    exact ⟨t', gone, j, n, counting, past⟩

section Process
variable {m : Manager R} {phase : T → Phase}

theorem observe_length (sh : Shard) (rec : Record) : (sh.observe rec).subjects.keys.length =
    if (sh.subjects.lookup rec.subject).isSome then sh.subjects.keys.length
    else sh.subjects.keys.length + 1 := by
  have keys := Manager.keys_insert_countP sh.subjects rec.subject
    { count := ((sh.subjects.lookup rec.subject).getD { count := 0, last := none }).count + 1,
      last := some rec } fun _ => true
  simp only [List.countP_true, if_true] at keys
  exact keys

omit [DecidableEq T] in
theorem process_counts (rec : Record) (counts : Counts phase m.shards m.subjectCount)
    (undisturbed : rec.subject ∈ m.known ∨ ¬ Passed phase (m.shardOf rec.subject))
    (sane : m.Sane) :
    Counts phase (m.process rec).shards (m.process rec).subjectCount := by
  unfold Manager.process
  cases here : m.shards[m.shardOf rec.subject]? with
  | none => exact counts
  | some sh =>
    have keys := observe_length sh rec
    have totals := census_set (f := fun _ => true) here (sh.observe rec)
    simp only [List.countP_true] at totals
    simp only
    split
    · rename_i seen
      rw [if_pos seen] at keys
      refine counts.resize here (Or.inl keys) fun _ before => ?_
      rw [census_set_same here (by simpa only [List.countP_true] using keys)]
      exact before
    · rename_i fresh
      rw [if_neg fresh] at keys
      refine counts.resize here (undisturbed.imp_left fun known => absurd known ?_) fun _ before => ?_
      · rintro known
        obtain ⟨other, listed, member⟩ := Manager.mem_known.mp known
        obtain ⟨j, bound, rfl⟩ := List.mem_iff_getElem.mp listed
        obtain ⟨st, found⟩ := Option.isSome_iff_exists.mp (AList.lookup_isSome.mpr member)
        have place := (sane.held j _ (List.getElem?_eq_getElem bound) _ st found).1
        rw [place, List.getElem?_eq_getElem bound, Option.some.injEq] at here
        rw [← here, found] at fresh
        exact fresh rfl
      · simp only
        omega

end Process

section Step
variable [Zero R] [Add R] [DecidableEq R] {s s' : Running T R} {act : Act T R}

theorem step_counts (counts : Counts s.phase s.shards s.subjectCount) (sane : s.Sane)
    (step : Step s act s') (undisturbed : s.Undisturbed act) :
    Counts s'.phase s'.shards s'.subjectCount := by
  cases step with
  | @process rec => exact process_counts rec counts undisturbed sane
  | @forget t subjects idle _ =>
    exact counts.goto (fun _ _ _ h => by cases h) fun owing => by rw [idle] at owing; cases owing
  | @forgetShard t wanted gone i sh at_ here =>
    have moved : Counts (s.goto t (.forgetting wanted (sh.forget wanted gone).2 (i + 1))).phase
        s.shards s.subjectCount := by
      refine counts.goto (fun _ _ _ h => by cases h) fun owing => ?_
      rw [at_] at owing
      exact List.append_ne_nil_of_left_ne_nil owing _
    have kept : (∀ x ∈ sh.subjects.keys, x ∉ wanted) →
        (sh.forget wanted gone).1.subjects.keys.length = sh.subjects.keys.length := by
      intro none
      simp only [Shard.forget, keys_foldl_erase]
      rw [List.filter_eq_self.mpr]
      intro x member
      refine decide_eq_true fun wantedHere => none x member ?_
      exact of_decide_eq_true (List.mem_filter.mp wantedHere).2
    refine moved.resize here ?_ fun paid before => ?_
    · rcases undisturbed wanted gone i sh at_ here with none | free
      · exact Or.inl (kept none)
      · exact Or.inr fun passed => free (passed.of_update fun _ _ _ h => by cases h)
    · have nothing : (sh.forget wanted gone).2 = [] := by
        have := paid t
        simp only [goto, Function.update_self, Phase.Owing, not_not] at this
        exact this
      have none : ∀ x ∈ sh.subjects.keys, x ∉ wanted := by
        intro x member listed
        have := List.filter_eq_nil_iff.mp (List.append_eq_nil_iff.mp nothing).2 x member
        exact this (decide_eq_true listed)
      rw [census_set_same here (by simpa only [List.countP_true] using kept none)]
      exact before
  | @forgot t wanted gone i at_ _ =>
    refine counts.goto (fun g j n h => ?_) fun owing => ?_
    · split at h
      · cases h
      · cases h
        rfl
    · rw [at_] at owing
      rw [if_neg owing]
      trivial
  | @count t gone i n sh at_ here =>
    refine counts.goto (fun g j n h => ?_) fun _ => trivial
    cases h
    rw [census_take_succ here, ← counts.recount t gone i _ at_, List.countP_true]
  | @store t gone i n at_ done =>
    have all := counts.recount t gone i n at_
    rw [done, List.take_length] at all
    exact counts.move (fun _ _ _ h => by cases h) fun _ _ => congrArg Nat.cast all
  | @remove t gone at_ _ =>
    exact counts.goto (fun _ _ _ h => by cases h) fun owing => by rw [at_] at owing; cases owing
  | @forgetAll t idle =>
    exact counts.goto (fun _ _ _ h => by cases h) fun _ => trivial
  | @emptyShard t i sh at_ here =>
    have moved : Counts (s.goto t (.emptying (i + 1))).phase s.shards s.subjectCount :=
      counts.goto (fun _ _ _ h => by cases h) fun _ => trivial
    refine moved.resize here ?_ fun paid => ?_
    · rcases undisturbed i sh at_ here with none | free
      · exact Or.inl (by rw [none]; rfl)
      · exact Or.inr fun passed => free (passed.of_update fun _ _ _ h => by cases h)
    · have := paid t
      simp only [goto, Function.update_self, Phase.Owing, not_true] at this
  | @zero t i at_ done =>
    refine counts.move (fun _ _ _ h => by cases h) fun _ _ => ?_
    have empty : census s.shards (fun _ => true) = 0 := by
      refine Manager.census_none.mpr fun x member => ?_
      rw [show s.known = [] from undisturbed] at member
      cases member
    rw [empty]
    rfl
  | @renew t at_ _ =>
    exact counts.goto (fun _ _ _ h => by cases h) fun owing => by rw [at_] at owing; cases owing
  | @emit t at_ _ =>
    refine counts.goto (fun _ _ _ h => by cases h) fun owing => ?_
    rcases at_ with at_ | at_ <;>
    · rw [at_] at owing
      cases owing
  | @sync t i sh rates rt at_ here =>
    have moved : Counts (s.goto t (.emitting (i + 1))).phase s.shards s.subjectCount :=
      counts.goto (fun _ _ _ h => by cases h) fun owing => by rw [at_] at owing; cases owing
    have same : (sh.sync rates rt s.tree).1.subjects = sh.subjects := rfl
    refine moved.resize here (Or.inl (by rw [same])) fun _ before => ?_
    rw [census_set_same here (by rw [same])]
    exact before
  | @emitted t i rt at_ _ =>
    exact counts.goto (fun _ _ _ h => by cases h) fun owing => by rw [at_] at owing; cases owing

theorem step_sane (sane : s.Sane) (step : Step s act s') (undisturbed : s.Undisturbed act) : s'.Sane := by
  cases step with
  | @process rec => exact sane.process rec
  | forget | forgot | count | store | forgetAll | zero | emit =>
    exact .of s.toManager rfl rfl sane.linked sane.marked sane.held
  | @forgetShard t wanted gone i sh _ here =>
    exact .of s.toManager rfl (List.length_set ..) sane.linked sane.marked
      (forall_set (fun j sh _ => sane.held j sh) ((sane.held i sh here).forget wanted gone))
  | @emptyShard t i sh _ _ =>
    exact .of s.toManager rfl (List.length_set ..) sane.linked sane.marked
      (forall_set (fun j sh _ => sane.held j sh) .forgetAll)
  | @remove t gone at_ _ =>
    obtain ⟨linked, marked, _⟩ := Tree.remove_all_spec gone sane.linked sane.marked
    refine .of s.toManager rfl rfl linked marked fun i sh here => ?_
    refine (sane.held i sh here).weaken fun x st found positive waiting carried => ?_
    have kept : x ∉ gone := fun listed => waiting (undisturbed gone at_ sh (List.mem_of_getElem? here) x
      (AList.lookup_isSome.mp (Option.isSome_of_eq_some found)) listed)
    exact Tree.remove_all_shows gone sane.linked sane.marked kept (by omega) carried
  | @renew t _ _ =>
    refine .of s.toManager rfl rfl Tree.newTree_linked Tree.newTree_marked fun i sh here => ?_
    refine (sane.held i sh here).weaken fun x st found _ waiting _ => absurd ?_ waiting
    exact undisturbed sh (List.mem_of_getElem? here) x
      (AList.lookup_isSome.mp (Option.isSome_of_eq_some found))
  | @sync t i sh rates rt _ here =>
    obtain ⟨synced, _, _⟩ := Shard.sync_spec rates rt sh sane.linked sane.marked
    refine .of s.toManager rfl (List.length_set ..) synced.linked synced.marked
      (forall_set (fun j other ne there => ?_) ((sane.held i sh here).sync rates rt sane.linked sane.marked))
    -- a subject has one shard, so what is in another one is not written here
    refine (sane.held j other there).weaken fun x st found _ _ carried => synced.others x _ _ ?_ carried
    refine Option.eq_none_iff_forall_ne_some.mpr fun st' found' => ne ?_
    exact (sane.held j other there x st found).1.symm.trans (sane.held i sh here x st' found').1
  | @emitted t i rt _ _ =>
    have refreshed := Tree.refresh_spec rt s.tree
    have cleared := Tree.clearDirty_spec (s.tree.refresh rt)
    refine .of s.toManager rfl rfl (cleared.linked (refreshed.linked sane.linked))
      (cleared.marked (refreshed.marked sane.marked)) fun i sh here => ?_
    exact (sane.held i sh here).weaken fun x st _ _ _ carried =>
      (refreshed.kept.trans cleared.kept).shows carried

omit [DecidableEq T] [Zero R] [Add R] [DecidableEq R] in
theorem coherent_of (counts : Counts s.phase s.shards s.subjectCount) (sane : s.Sane)
    (done : ∀ t, ¬ (s.phase t).Clearing) : s.Coherent where
  shown sh member x st found := by
    obtain ⟨i, bound, rfl⟩ := List.mem_iff_getElem.mp member
    obtain ⟨_, positive, waiting⟩ := sane.held i _ (List.getElem?_eq_getElem bound) x st found
    refine waiting.imp_right fun ⟨r, live, count, last⟩ => ⟨r, live, ?_, last⟩
    rw [count, Int.toNat_of_nonneg positive.le]
  counted := by
    have paid : ∀ t, ¬ (s.phase t).Owing := by
      intro t owing
      apply done t
      cases at_ : s.phase t <;> rw [at_] at owing <;> first | exact trivial | cases owing
    rw [counts.settled paid, Manager.known, List.length_flatMap, census]
    simp only [List.countP_true]

end Step

section Sample

def note (n : Nat) : Record := { subject := ['s'], data := .text [], timestamp := n, sequence := n }

/-- `Forget` has taken the subject out of its shard, and a message brought it back. -/
theorem forgotten_back : ∃ acts, ∃ s : Running Bool Nat,
    Transition.Reaches Step (start (fun _ => 0) 1 [['>']] ∅) acts s ∧
      s.phase false = .removing [['s']] ∧ s.phase true = .idle ∧ s.mu = none ∧
      s.shards = [Shard.new.observe (note 2), .new] ∧
      s.tree = .newTree := by
  let s₀ : Running Bool Nat := start (fun _ => 0) 1 [['>']] ∅
  have still : Transition.Reaches Step s₀ [] s₀ := .refl s₀
  have run := still
    |>.next (@Step.process _ _ _ _ _ _ s₀ (note 1))
    |>.next (@Step.forget _ _ _ _ _ _ _ false [['s']] rfl (List.cons_ne_nil _ _))
    |>.next (@Step.forgetShard _ _ _ _ _ _ _ false _ _ _ (Shard.new.observe (note 1)) rfl rfl)
    |>.next (@Step.forgetShard _ _ _ _ _ _ _ false _ _ _ Shard.new rfl rfl)
    |>.next (.forgot (t := false) rfl rfl)
    |>.next (@Step.count _ _ _ _ _ _ _ false _ _ _ Shard.new rfl rfl)
    |>.next (@Step.count _ _ _ _ _ _ _ false _ _ _ Shard.new rfl rfl)
    |>.next (.store (t := false) rfl rfl)
    |>.next (@Step.process _ _ _ _ _ _ _ (note 2))
  exact ⟨_, _, run, rfl, rfl, rfl, rfl, rfl⟩

/-- A whole tick over two shards. -/
theorem tick {a b : Shard} {s : Running Bool Nat} {t : Bool}
    (ready : s.phase t = .idle ∨ s.phase t = .cleared) (free : s.mu = none) (shards : s.shards = [a, b]) :
    ∃ acts s', Transition.Reaches Step s acts s' ∧ s'.phase = Function.update s.phase t .idle ∧
      s'.mu = none ∧
      s'.shards = (Manager.syncShards (fun _ => 0) .plain [a, b] s.tree).1 ∧
      s'.tree = ((Manager.syncShards (fun _ => 0) .plain [a, b] s.tree).2.refresh .plain).clearDirty := by
  obtain ⟨⟨hash, _, subjectCount, patterns, tree⟩, phase, mu⟩ := s
  subst shards
  let s₀ : Running Bool Nat := ⟨⟨hash, [a, b], subjectCount, patterns, tree⟩, phase, mu⟩
  have still : Transition.Reaches Step s₀ [] s₀ := .refl s₀
  have at_ (i : Nat) (phase : Bool → Phase) : Function.update phase t (.emitting i) t = .emitting i :=
    Function.update_self ..
  have run := still
    |>.next (.emit ready free)
    |>.next (@Step.sync _ _ _ _ _ _ _ t _ a (fun _ => 0) .plain (at_ 0 _) rfl)
    |>.next (@Step.sync _ _ _ _ _ _ _ t _ b (fun _ => 0) .plain (at_ 1 _) rfl)
    |>.next (@Step.emitted _ _ _ _ _ _ _ t _ .plain (at_ 2 _) rfl)
  refine ⟨_, _, run, ?_, rfl, rfl, rfl⟩
  simp only [goto, Function.update_idem, s₀]

end Sample
end Running
end NatsExplorer.Subscription.Shards
