import NatsExplorer.Subscription.Manager

/-! Whether the counters of the subscribed patterns say how many subjects match.
A subject counts when it is first seen. `Forget` takes subjects away and leaves the
counters, and a pattern that is added does not look at what is there. -/
namespace NatsExplorer.Subscription.Shards
open Go

/-- The subjects of some shards that pass a test. -/
def census (shards : List Shard) (f : Str → Bool) : Nat :=
  (shards.map fun sh => sh.subjects.keys.countP f).sum

section Census
variable {shards : List Shard} {f g : Str → Bool}

theorem census_set {sh : Shard} {i : Nat} (here : shards[i]? = some sh) (new : Shard) :
    census (shards.set i new) f + sh.subjects.keys.countP f =
      census shards f + new.subjects.keys.countP f := by
  induction shards generalizing i with
  | nil => cases here
  | cons first shards ih =>
    cases i with
    | zero =>
      cases here
      simp only [census, List.set_cons_zero, List.map_cons, List.sum_cons]
      omega
    | succ i =>
      have rest := ih here
      simp only [census, List.set_cons_succ, List.map_cons, List.sum_cons] at rest ⊢
      omega

theorem census_eq_zero : census shards f = 0 ↔ ∀ sh ∈ shards, ∀ s ∈ sh.subjects.keys, f s = false := by
  induction shards with
  | nil => simp [census]
  | cons sh shards ih =>
    simp only [census, List.map_cons, List.sum_cons, Nat.add_eq_zero_iff] at ih ⊢
    rw [ih, List.countP_eq_zero, List.forall_mem_cons]
    simp only [Bool.not_eq_true]

theorem census_congr {other : List Shard}
    (same : other.map (fun sh => sh.subjects) = shards.map fun sh => sh.subjects) :
    census other f = census shards f := by
  have keys (l : List Shard) : census l f = ((l.map fun sh => sh.subjects).map fun m => m.keys.countP f).sum := by
    rw [census, List.map_map]
    rfl
  rw [keys, keys, same]

end Census

section Erase

theorem keys_foldl_erase (gone : List Str) (m : Map Str SubjectStats) :
    (gone.foldl (fun m s => m.erase s) m).keys = m.keys.filter (· ∉ gone) := by
  induction gone generalizing m with
  | nil => simp
  | cons s gone ih =>
    rw [List.foldl_cons, ih, AList.keys_erase,
      @List.Nodup.erase_eq_filter _ instBEqOfDecidableEq _ _ m.keys_nodup s, List.filter_filter]
    apply List.filter_congr
    intro x _
    by_cases same : x = s <;> simp [same]

/-- The shards keep the subjects that are not wanted gone. -/
theorem forgetShards_census (wanted : List Str) (shards : List Shard) (gone : List Str) (f : Str → Bool) :
    census (Manager.forgetShards wanted shards gone).1 f =
      census shards fun s => f s && decide (s ∉ wanted) := by
  induction shards generalizing gone with
  | nil => rfl
  | cons sh shards ih =>
    have rest := ih (sh.forget wanted gone).2
    simp only [census, Manager.forgetShards, List.map_cons, List.sum_cons] at rest ⊢
    rw [rest]
    congr 1
    simp only [Shard.forget, keys_foldl_erase, List.countP_filter]
    apply List.countP_congr
    intro s member
    simp [member]

theorem forgetShards_gone (wanted : List Str) (shards : List Shard) (gone : List Str) :
    (Manager.forgetShards wanted shards gone).2 =
      gone ++ shards.flatMap fun sh => sh.subjects.keys.filter (· ∈ wanted) := by
  induction shards generalizing gone with
  | nil => simp [Manager.forgetShards]
  | cons sh shards ih =>
    simp only [Manager.forgetShards, ih, Shard.forget, List.flatMap_cons, List.append_assoc]

end Erase

namespace Manager
variable {R : Type} {m : Manager R}

theorem mem_known {s : Str} : s ∈ m.known ↔ ∃ sh ∈ m.shards, s ∈ sh.subjects.keys := List.mem_flatMap

theorem census_none {f : Str → Bool} : census m.shards f = 0 ↔ ∀ s ∈ m.known, f s = false := by
  rw [census_eq_zero]
  constructor
  · intro none s member
    obtain ⟨sh, here, listed⟩ := mem_known.mp member
    exact none sh here s listed
  · exact fun none sh here s listed => none s (mem_known.mpr ⟨sh, here, listed⟩)

/-- Every counter is the number of subjects it stands for. -/
structure Exact (m : Manager R) : Prop where
  patterns : ∀ p ∈ m.patterns, p.subjects = census m.shards (matchSubject p.pattern)
  count : m.subjectCount = census m.shards fun _ => true

theorem Exact.congr {other : Manager R} (exact : m.Exact) (patterns : other.patterns = m.patterns)
    (count : other.subjectCount = m.subjectCount)
    (same : ∀ f, census other.shards f = census m.shards f) : other.Exact where
  patterns p member := by
    rw [same]
    exact exact.patterns p (patterns ▸ member)
  count := by rw [count, same, exact.count]

section Counted
variable {patterns : List PatternStat} {shards shards' : List Shard} {s : Str}

/-- A subject that is new in the shards and is counted. -/
theorem counted_exact (before : ∀ p ∈ patterns, p.subjects = census shards (matchSubject p.pattern))
    (new : ∀ f : Str → Bool, census shards' f = census shards f + (if f s then 1 else 0)) :
    ∀ p ∈ counted patterns s, p.subjects = census shards' (matchSubject p.pattern) := by
  intro p member
  obtain ⟨old, listed, rfl⟩ := List.mem_map.mp member
  have exact := before old listed
  split
  · rename_i matched
    simp only
    rw [new, if_pos matched, exact]
    rfl
  · rename_i unmatched
    rw [new, if_neg unmatched, exact, Nat.add_zero]

end Counted

theorem keys_insert_countP {V : Type} (subjects : Map Str V) (s : Str) (v : V) (f : Str → Bool) :
    (subjects.insert s v).keys.countP f =
      if (subjects.lookup s).isSome then subjects.keys.countP f
      else subjects.keys.countP f + (if f s then 1 else 0) := by
  by_cases seen : (subjects.lookup s).isSome = true
  · have perm := @List.perm_cons_erase _ instBEqOfDecidableEq _ _ _ (AList.lookup_isSome.mp seen)
    rw [if_pos seen, AList.keys_insert, ← perm.countP_eq f]
  · have absent : s ∉ subjects.keys := fun member => seen (AList.lookup_isSome.mpr member)
    rw [if_neg seen, AList.keys_insert, @List.erase_of_not_mem _ instBEqOfDecidableEq _ _ _ absent,
      List.countP_cons]

theorem process_exact (exact : m.Exact) (rec : Record) : (m.process rec).Exact := by
  unfold process
  cases here : m.shards[m.shardOf rec.subject]? with
  | none => exact exact
  | some sh =>
    have totals (f : Str → Bool) := census_set (f := f) here (sh.observe rec)
    have keys (f : Str → Bool) := keys_insert_countP sh.subjects rec.subject
      { count := ((sh.subjects.lookup rec.subject).getD { count := 0, last := none }).count + 1,
        last := some rec } f
    simp only
    split
    · rename_i seen
      refine exact.congr rfl rfl fun f => ?_
      have := totals f
      have := keys f
      rw [if_pos seen] at this
      simp only [Shard.observe] at *
      omega
    · rename_i new
      have added (f : Str → Bool) : census (m.shards.set (m.shardOf rec.subject) (sh.observe rec)) f =
          census m.shards f + (if f rec.subject then 1 else 0) := by
        have := totals f
        have := keys f
        rw [if_neg new] at this
        simp only [Shard.observe] at *
        omega
      refine ⟨counted_exact exact.patterns added, ?_⟩
      simp only
      rw [added, exact.count, if_pos rfl]
      rfl

section Restore
variable [Zero R]

/-- A subject comes back that its shard does not have. -/
theorem restoreSubject_exact (exact : m.Exact) {sh : Shard} {s : Str}
    (here : m.shards[m.shardOf s]? = some sh) (new : s ∉ sh.subjects.keys) (st : SubjectStats) :
    (m.restoreSubject s st).Exact ∧ (m.restoreSubject s st).shards.length = m.shards.length ∧
      ∀ x ∈ (m.restoreSubject s st).known, x ∈ m.known ∨ x = s := by
  have absent : (sh.subjects.lookup s).isSome = false := by
    rw [Bool.eq_false_iff]
    exact fun seen => new (AList.lookup_isSome.mp seen)
  unfold restoreSubject
  split
  · simp only [shardOf] at here
    simp only [shardOf, here, absent, Bool.false_eq_true, if_false, List.length_set]
    have totals (f : Str → Bool) :=
      census_set (f := f) here { sh with subjects := sh.subjects.insert s st }
    have added (f : Str → Bool) : census (m.shards.set (m.hash s % m.shards.length)
        { sh with subjects := sh.subjects.insert s st }) f = census m.shards f + (if f s then 1 else 0) := by
      have := totals f
      have := keys_insert_countP sh.subjects s st f
      rw [if_neg (by rw [absent]; exact Bool.false_ne_true)] at this
      simp only at *
      omega
    refine ⟨⟨counted_exact exact.patterns added, ?_⟩, trivial, fun x member => ?_⟩
    · simp only
      rw [added, exact.count, if_pos rfl]
      rfl
    · obtain ⟨sh', listed, member⟩ := mem_known.mp member
      rcases List.mem_or_eq_of_mem_set listed with old | rfl
      · exact Or.inl (mem_known.mpr ⟨sh', old, member⟩)
      · rcases (AList.mem_insert sh.subjects).mp member with same | old
        · exact Or.inr same
        · exact Or.inl (mem_known.mpr ⟨sh, List.mem_of_getElem? here, old⟩)
  · exact ⟨exact, rfl, fun x member => Or.inl member⟩

theorem restoreSubjects_exact (exact : m.Exact) (some : 0 < m.shards.length)
    {entries : List (Sigma fun _ : Str => SubjectStats)} (distinct : (entries.map Sigma.fst).Nodup)
    (new : ∀ e ∈ entries, e.1 ∉ m.known) :
    (entries.foldl (fun m e => m.restoreSubject e.1 e.2) m).Exact := by
  induction entries generalizing m with
  | nil => exact exact
  | cons e entries ih =>
    obtain ⟨first, distinct⟩ := List.nodup_cons.mp distinct
    have inside : m.shardOf e.1 < m.shards.length := Nat.mod_lt _ some
    have here := List.getElem?_eq_getElem inside
    have absent : e.1 ∉ (m.shards[m.shardOf e.1]).subjects.keys := fun member =>
      new e List.mem_cons_self (mem_known.mpr ⟨_, List.getElem_mem inside, member⟩)
    obtain ⟨next, length, known⟩ := restoreSubject_exact exact here absent e.2
    refine ih next (length.symm ▸ some) distinct fun e' member back => ?_
    rcases known e'.1 back with old | same
    · exact new e' (List.mem_cons_of_mem _ member) old
    · exact first (same ▸ List.mem_map_of_mem member)

theorem start_exact (hash : Str → Nat) (cpus : Nat) (subjects : List Str)
    (recorded : Map Str SubjectStats) : (start hash cpus subjects recorded : Manager R).Exact := by
  have empty (f : Str → Bool) : census (List.replicate (shardCount cpus) Shard.new) f = 0 := by
    rw [census_eq_zero]
    intro sh member s listed
    rw [List.eq_of_mem_replicate member] at listed
    cases listed
  refine restoreSubjects_exact ⟨?_, ?_⟩ ?_ recorded.nodupKeys fun e _ back => ?_
  · intro p member
    obtain ⟨subj, _, rfl⟩ := List.mem_map.mp member
    rw [empty]
    rfl
  · simp only
    rw [empty]
    rfl
  · simp only [List.length_replicate, shardCount]
    omega
  · obtain ⟨sh, member, listed⟩ := mem_known.mp back
    rw [List.eq_of_mem_replicate member] at listed
    cases listed

end Restore

section Operations
variable [Zero R] [DecidableEq R]

theorem syncShards_subjects (rates : Str → R) (rt : Runtime) (shards : List Shard) (t : Tree R) :
    (syncShards rates rt shards t).1.map (fun sh => sh.subjects) = shards.map fun sh => sh.subjects := by
  induction shards generalizing t with
  | nil => rfl
  | cons sh shards ih =>
    simp only [syncShards, List.map_cons, ih]
    rfl

variable [Add R] (rates : Str → R) (rt : Runtime)

theorem emitTree_exact : (m.emitTree rates rt).Exact ↔ m.Exact := by
  have same (f : Str → Bool) : census (m.emitTree rates rt).shards f = census m.shards f :=
    census_congr (syncShards_subjects rates rt m.shards m.tree)
  exact ⟨fun exact => exact.congr rfl rfl fun f => (same f).symm, fun exact => exact.congr rfl rfl same⟩

/-- A pattern that is new starts at zero. -/
theorem setSubjects_exact_iff (exact : m.Exact) (subjects : List Str) :
    (m.setSubjects subjects rates rt).Exact ↔
      ∀ subj ∈ subjects, (∀ p ∈ m.patterns, p.pattern ≠ subj) →
        ∀ s ∈ m.known, matchSubject subj s = false := by
  have found (subj : Str) : (m.patterns.reverse.find? fun p => p.pattern = subj) = none ↔
      ∀ p ∈ m.patterns, p.pattern ≠ subj := by
    simp [List.find?_eq_none]
  rw [setSubjects, emitTree_exact]
  constructor
  · intro after subj member added
    have counter := after.patterns _ (List.mem_map_of_mem member)
    rw [(found subj).mpr added, Option.getD_none] at counter
    exact census_none.mp (Int.ofNat_inj.mp counter).symm
  · intro covered
    refine ⟨fun p member => ?_, exact.count⟩
    obtain ⟨subj, listed, rfl⟩ := List.mem_map.mp member
    cases kept : m.patterns.reverse.find? fun p => p.pattern = subj with
    | none =>
      rw [Option.getD_none]
      exact congrArg Int.ofNat (census_none.mpr (covered subj listed ((found subj).mp kept))).symm
    | some p =>
      exact exact.patterns p (List.mem_reverse.mp (List.mem_of_find?_eq_some kept))

theorem census_split (shards : List Shard) (f g : Str → Bool) :
    census shards f = (census shards fun s => f s && g s) + census shards fun s => f s && !g s := by
  induction shards with
  | nil => rfl
  | cons sh shards ih =>
    have keys := List.countP_eq_countP_filter_add sh.subjects.keys f g
    rw [List.countP_filter, List.countP_filter] at keys
    simp only [census, List.map_cons, List.sum_cons] at ih ⊢
    rw [ih, keys]
    omega

/-- The counters of the patterns stay as they are. -/
theorem forget_exact_iff (exact : m.Exact) (subjects : List Str) :
    (m.forget subjects rates rt).Exact ↔
      ∀ s ∈ m.known, s ∈ subjects → ∀ p ∈ m.patterns, matchSubject p.pattern s = false := by
  have kept (f : Str → Bool) := forgetShards_census subjects m.shards [] f
  have gone := forgetShards_gone subjects m.shards []
  rw [List.nil_append] at gone
  have wanted (f : Str → Bool) : census m.shards f =
      census (forgetShards subjects m.shards []).1 f + census m.shards fun s => f s && decide (s ∈ subjects) := by
    have split := census_split m.shards f fun s => decide (s ∈ subjects)
    rw [kept, split, Nat.add_comm]
    simp only [decide_not]
  unfold forget
  split
  · rename_i none
    refine iff_of_true exact fun s _ member => ?_
    rw [none] at member
    cases member
  · simp only
    split
    · rename_i none
      have nothing : ∀ s ∈ m.known, s ∉ subjects := by
        intro s member listed
        obtain ⟨sh, here, member⟩ := mem_known.mp member
        rw [gone, List.flatMap_eq_nil_iff] at none
        have := List.filter_eq_nil_iff.mp (none sh here) s member
        exact this (decide_eq_true listed)
      refine iff_of_true (exact.congr rfl rfl fun f => ?_) fun s member listed => absurd listed (nothing s member)
      have zero : (census m.shards fun s => f s && decide (s ∈ subjects)) = 0 :=
        census_none.mpr fun s member => by simp [nothing s member]
      rw [wanted f, zero, Nat.add_zero]
    · rw [emitTree_exact]
      constructor
      · intro after s member listed p pattern
        have before := exact.patterns p pattern
        have counter := after.patterns p pattern
        rw [before, wanted] at counter
        have zero : (census m.shards fun s => matchSubject p.pattern s && decide (s ∈ subjects)) = 0 := by
          have := Int.ofNat_inj.mp counter
          simp only [removeAll, recountSubjects] at this
          omega
        have unmatched := census_none.mp zero s member
        rw [decide_eq_true listed, Bool.and_true] at unmatched
        exact unmatched
      · intro unmatched
        refine ⟨fun p pattern => ?_, ?_⟩
        · have zero : (census m.shards fun s => matchSubject p.pattern s && decide (s ∈ subjects)) = 0 := by
            refine census_none.mpr fun s member => ?_
            by_cases listed : s ∈ subjects
            · rw [unmatched s member listed p pattern, Bool.false_and]
            · rw [decide_eq_false listed, Bool.and_false]
          rw [exact.patterns p pattern, wanted, zero, Nat.add_zero]
          rfl
        · simp only [removeAll, recountSubjects, census, List.countP_true]

theorem forgetAll_exact (m : Manager R) : (m.forgetAll rates rt).Exact := by
  have empty (f : Str → Bool) : census (m.shards.map Shard.forgetAll) f = 0 := by
    rw [census_eq_zero]
    intro sh member s listed
    obtain ⟨old, _, rfl⟩ := List.mem_map.mp member
    cases listed
  rw [forgetAll, emitTree_exact]
  refine ⟨fun p member => ?_, ?_⟩
  · obtain ⟨old, _, rfl⟩ := List.mem_map.mp member
    rw [empty]
    rfl
  · rw [empty]
    rfl

end Operations

section Runs
variable [Zero R] [DecidableEq R] [Add R]

/-- A tick reads its rates and visits maps in some order. -/
inductive Op (R : Type) where
  | start (cpus : Nat) (subjects : List Str) (recorded : Map Str SubjectStats)
  | process (rec : Record)
  | setSubjects (subjects : List Str) (distinct : subjects.Nodup) (rates : Str → R) (rt : Runtime)
  | forget (subjects : List Str) (rates : Str → R) (rt : Runtime)
  | forgetAll (rates : Str → R) (rt : Runtime)

def step (m : Manager R) : Op R → Manager R
  | .start cpus subjects recorded => start m.hash cpus subjects recorded
  | .process rec => m.process rec
  | .setSubjects subjects _ rates rt => m.setSubjects subjects rates rt
  | .forget subjects rates rt => m.forget subjects rates rt
  | .forgetAll rates rt => m.forgetAll rates rt

/-- No subject is there that an added pattern matches, and none is forgotten that a
current one does. -/
def Unmatched (m : Manager R) : Op R → Prop
  | .setSubjects subjects _ _ _ => ∀ subj ∈ subjects, (∀ p ∈ m.patterns, p.pattern ≠ subj) →
      ∀ s ∈ m.known, matchSubject subj s = false
  | .forget subjects _ _ => ∀ s ∈ m.known, s ∈ subjects →
      ∀ p ∈ m.patterns, matchSubject p.pattern s = false
  | _ => True

theorem step_exact_iff (exact : m.Exact) (op : Op R) : (m.step op).Exact ↔ m.Unmatched op := by
  cases op with
  | start cpus subjects recorded => exact iff_of_true (start_exact _ _ _ _) trivial
  | process rec => exact iff_of_true (process_exact exact rec) trivial
  | setSubjects subjects _ rates rt => exact setSubjects_exact_iff rates rt exact subjects
  | forget subjects rates rt => exact forget_exact_iff rates rt exact subjects
  | forgetAll rates rt => exact iff_of_true (forgetAll_exact rates rt m) trivial

/-- The counters are exact after every operation exactly if every operation finds
what it adds and takes away unmatched. -/
theorem counters_exact_iff (hash : Str → Nat) (cpus : Nat) (subjects : List Str)
    (recorded : Map Str SubjectStats) (ops : List (Op R)) :
    let m : Manager R := start hash cpus subjects recorded
    (∀ before, before <+: ops → (Transition.run step m before).Exact) ↔
      Transition.Along step Unmatched m ops :=
  Transition.visible_iff id (fun exact op => (step_exact_iff exact op).mpr)
    (fun exact op => (step_exact_iff exact op).mp) (start_exact hash cpus subjects recorded)

end Runs

/-- A forgotten subject still counts for the pattern that matched it. -/
theorem counters_drift : ¬ ∀ (hash : Str → Nat) (cpus : Nat) (subjects : List Str)
    (recorded : Map Str SubjectStats) (ops : List (Op Nat)),
      (Transition.run step (start hash cpus subjects recorded) ops).Exact := by
  intro claim
  have exact := claim (fun _ => 0) 1 [['>']] ∅
    [.process { subject := ['s'], data := .text [], timestamp := 1, sequence := 1 },
      .forget [['s']] (fun _ => 0) .plain]
  have counter := exact.patterns ⟨['>'], 1⟩ (List.mem_singleton_self _)
  exact absurd counter (by decide)

end Manager
end NatsExplorer.Subscription.Shards
