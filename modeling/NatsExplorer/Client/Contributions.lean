import NatsExplorer.Client.TreeUnion
import Mathlib.Order.MinMax

/-! What each connection contributed, as a fold over its own updates, and the tree of it. -/
namespace NatsExplorer.Client
open Go
variable {N : Type} [AddCommMonoid N] [LinearOrder N] {le : Str → Str → Prop}

/-- The entry of each connection for each subject. -/
abbrev Contributions (N : Type) := Str → Str → Option (SubjectEntry N)

inductive Call (N : Type) where
  | apply (connId : Str) (full : Bool) (entries : List (SubjectEntry N)) (removed : List Str)
  | dropConnection (connId : Str)

namespace Call

def overwrite (own : Str → Option (SubjectEntry N)) (e : SubjectEntry N) : Str → Option (SubjectEntry N) :=
  Function.update own e.s (some e)

/-- `Full` clears, `removed` deletes, entries overwrite. -/
def contribute (own : Str → Option (SubjectEntry N)) (full : Bool) (entries : List (SubjectEntry N)) (removed : List Str) :
    Str → Option (SubjectEntry N) :=
  entries.foldl overwrite
    (removed.foldl (fun own s => Function.update own s none) (if full then fun _ => none else own))

def contributed (own : Contributions N) : Call N → Contributions N
  | .apply c full entries removed => Function.update own c (contribute (own c) full entries removed)
  | .dropConnection c => Function.update own c fun _ => none

/-- Every ancestor of a subject is there with it. -/
def Rooted (own : Str → Option (SubjectEntry N)) : Prop :=
  ∀ s p, own s ≠ none → parentSubject s = some p → own p ≠ none

/-- A subject that a delta removes and brings again leaves nothing behind below it that the delta does
not name. -/
def Replaces (own : Str → Option (SubjectEntry N)) (entries : List (SubjectEntry N)) (removed : List Str) : Prop :=
  ∀ s ∈ removed, s ∈ entries.map SubjectEntry.s → ∀ t, Under s t → own t ≠ none →
    t ∈ removed ∨ t ∈ entries.map SubjectEntry.s

omit [AddCommMonoid N] [LinearOrder N] in
theorem Rooted.under {s t : Str} {own : Str → Option (SubjectEntry N)} (rooted : Rooted own) (under : Under s t) (some : own t ≠ none) :
    own s ≠ none := by
  induction hn : t.length using Nat.strongRecOn generalizing t with
  | ind n ih =>
    cases above : parentSubject t with
    | none => rwa [← under.root above]
    | some p =>
      rcases under.parent above with same | under
      · rwa [← same]
      · have shorter := parentSubject_length above
        exact ih p.length (by omega) under (rooted t p some above) rfl

omit [AddCommMonoid N] [LinearOrder N] in
theorem Rooted.update {own : Contributions N} {c : Str} {only : Str → Option (SubjectEntry N)} (others : ∀ c, Rooted (own c))
    (rooted : Rooted only) (d : Str) : Rooted (Function.update own c only d) := by
  by_cases here : d = c
  · rwa [here, Function.update_self]
  · rw [Function.update_of_ne here]
    exact others d

omit [AddCommMonoid N] [LinearOrder N] in
theorem Rooted.nothing : Rooted fun _ => (none : Option (SubjectEntry N)) := fun _ _ held => absurd rfl held

def Sound (own : Contributions N) : Call N → Prop
  | .apply c full entries removed =>
      Rooted (contribute (own c) full entries removed) ∧ (full = false → Replaces (own c) entries removed)
  | .dropConnection _ => True

end Call

namespace TreeModel

def call (le : Str → Str → Prop) [DecidableRel le] (m : TreeModel N) : Call N → Option (TreeModel N)
  | .apply c full entries removed => m.apply le c full entries removed
  | .dropConnection c => m.dropConnection c

variable {m m' : TreeModel N} {c d s t p : Str}

section Removing
variable {K : Str → Str → Prop}

theorem removal_step (closed : Closed K) {m₁ : TreeModel N} (pruned : Pruned le K m m₁) (free : ¬ K c s) :
    ∃ m₂, m₁.removeEntry m₁.height c s = some m₂ ∧ Pruned le K m m₂ ∧ m₂.held c s = none ∧
      ∀ t, m₁.held c t = none → m₂.held c t = none := by
  have enough : ∀ t ∈ m₁.nodes, t.length < s.length + m₁.height := fun t member =>
    Nat.lt_of_lt_of_le (height_spec t member) (Nat.le_add_left _ _)
  obtain ⟨m₂, ran, more, gone⟩ := removeEntry_spec closed m₁.height pruned.linked pruned.leafy enough pruned.keeps free
  exact ⟨m₂, ran, .trans pruned.less more, gone, fun _ => more.less.gone⟩

theorem removals_spec (closed : Closed K) (linked : Linked le m) (leafy : LeafyBut m none) (keeps : Keeps K m)
    (removed : List Str) (free : ∀ s ∈ removed, ¬ K c s) :
    ∃ m', removed.foldlM (fun m s => m.removeEntry m.height c s) m = some m' ∧ Pruned le K m m' ∧
      ∀ s ∈ removed, m'.held c s = none := by
  obtain ⟨m', run, pruned, gone, -⟩ := Transition.foldlM_each (P := Pruned le K m) (Q := fun s m' => m'.held c s = none)
    (fun m₁ pruned s member => removal_step closed pruned (free s member)) ⟨linked, leafy, .refl, keeps⟩
  exact ⟨m', run, pruned, gone⟩

theorem dropConnection_spec (closed : Closed K) (linked : Linked le m) (leafy : LeafyBut m none) (keeps : Keeps K m)
    (free : ∀ s, ¬ K c s) :
    ∃ m', m.dropConnection c = some m' ∧ Pruned le K m m' ∧ ∀ s, m'.held c s = none := by
  have step (m₁ : TreeModel N) (pruned : Pruned le K m m₁) (s : Str) (_ : s ∈ m.nodes) :
      ∃ m₂, (if c ∈ (m₁.heap s).byConn.keys then m₁.removeEntry m₁.height c (m₁.heap s).fullSubject else some m₁) = some m₂ ∧
        Pruned le K m m₂ ∧ m₂.held c s = none ∧ ∀ t, m₁.held c t = none → m₂.held c t = none := by
    rw [pruned.linked.subject]
    split
    · exact removal_step closed pruned (free s)
    · next absent => exact ⟨m₁, rfl, pruned, held_absent fun both => absent both.2, fun _ => id⟩
  obtain ⟨m', run, pruned, gone, -⟩ := Transition.foldlM_each (P := Pruned le K m) (Q := fun s m' => m'.held c s = none)
    step ⟨linked, leafy, .refl, keeps⟩
  refine ⟨m', run, pruned, fun s => ?_⟩
  by_cases member : s ∈ m.nodes
  · exact gone s member
  · exact pruned.less.gone (if_neg member)

end Removing

/-- The tree after the calls, and what the connections contributed by them. -/
structure Shows (le : Str → Str → Prop) (own : Contributions N) (m : TreeModel N) : Prop where
  linked : Linked le m
  leafy : LeafyBut m none
  held : ∀ c s, m.held c s = own c s
  rooted : ∀ c, Call.Rooted (own c)

theorem new_shows : Shows le (fun _ _ => none) (TreeModel.new : TreeModel N) where
  linked := {
    subject := fun _ => rfl
    segment := fun _ => rfl
    parent := fun _ => rfl
    ids := fun _ => rfl
    counted := fun _ none => absurd rfl none
    up := nofun
    children := by simp [TreeModel.new, newNode]
    roots := by simp [TreeModel.new]
    nodup := List.nodup_nil
    nodupChildren := fun _ => List.nodup_nil
    nodupRoots := List.nodup_nil
    sorted := fun _ => List.Pairwise.nil
    sortedRoots := List.Pairwise.nil }
  leafy := nofun
  held := fun _ _ => rfl
  rooted := fun _ => .nothing

omit [AddCommMonoid N] [LinearOrder N] in
theorem foldl_deleted (removed : List Str) (own : Str → Option (SubjectEntry N)) (t : Str) :
    removed.foldl (fun own s => Function.update own s none) own t = if t ∈ removed then none else own t := by
  induction removed generalizing own with
  | nil => rfl
  | cons s removed ih =>
    rw [List.foldl_cons, ih, Function.update_apply]
    by_cases here : t = s <;> simp [here]

omit [AddCommMonoid N] [LinearOrder N] in
/-- Only the subjects of the entries depend on them. -/
theorem foldl_overwritten (entries : List (SubjectEntry N)) {own own' : Str → Option (SubjectEntry N)}
    (same : t ∉ entries.map SubjectEntry.s → own t = own' t) :
    entries.foldl Call.overwrite own t = entries.foldl Call.overwrite own' t := by
  induction entries generalizing own own' with
  | nil => exact same nofun
  | cons e entries ih =>
    refine ih fun missing => ?_
    unfold Call.overwrite
    rw [Function.update_apply, Function.update_apply]
    split
    · rfl
    · next other => exact same (by simp [missing, other])

omit [AddCommMonoid N] [LinearOrder N] in
theorem overwritten_missing (entries : List (SubjectEntry N)) (own : Str → Option (SubjectEntry N))
    (missing : t ∉ entries.map SubjectEntry.s) : entries.foldl Call.overwrite own t = own t := by
  induction entries generalizing own with
  | nil => rfl
  | cons e entries ih =>
    rw [List.map_cons, List.mem_cons, not_or] at missing
    rw [List.foldl_cons, ih _ missing.2, Call.overwrite, Function.update_of_ne missing.1]

omit [AddCommMonoid N] [LinearOrder N] in
theorem contribute_missing {own : Str → Option (SubjectEntry N)} {full : Bool} {entries : List (SubjectEntry N)}
    {removed : List Str} (absent : t ∉ entries.map SubjectEntry.s) :
    Call.contribute own full entries removed t = if t ∈ removed then none else if full then none else own t := by
  unfold Call.contribute
  rw [overwritten_missing entries _ absent, foldl_deleted]
  cases full <;> rfl

theorem Pruned.kept {K : Str → Str → Prop} (pruned : Pruned le K m m') (of : m.held d t ≠ none → K d t) :
    m'.held d t = m.held d t := by
  rcases pruned.less.held d t with same | gone
  · exact same
  · by_cases some : m.held d t = none
    · rw [gone, some]
    · exact absurd gone (pruned.keeps d t (of some))

theorem Shows.drop {own : Contributions N} (shows : Shows le own m) (c : Str) :
    ∃ m', m.dropConnection c = some m' ∧ Shows le (Function.update own c fun _ => none) m' := by
  have closed : Closed fun d t => d ≠ c ∧ m.held d t ≠ none := by
    rintro d t p ⟨other, some⟩ above
    rw [shows.held] at some ⊢
    exact ⟨other, shows.rooted d t p some above⟩
  obtain ⟨m', run, pruned, gone⟩ := dropConnection_spec closed shows.linked shows.leafy (fun _ _ => And.right)
    fun _ kept => kept.1 rfl
  refine ⟨m', run, pruned.linked, pruned.leafy, fun d t => ?_, .update shows.rooted .nothing⟩
  by_cases here : d = c
  · rw [here, Function.update_self]
    exact gone t
  · rw [Function.update_of_ne here, ← shows.held]
    exact pruned.kept fun some => ⟨here, some⟩

section Applying
variable [DecidableRel le] [Std.Total le] [IsTrans Str le]

theorem entries_spec (linked : Linked le m) (leafy : LeafyBut m none) (c : Str) (entries : List (SubjectEntry N)) :
    Linked le (entries.foldl (applyEntry le c) m) ∧ LeafyBut (entries.foldl (applyEntry le c) m) none ∧
      ∀ d t, (entries.foldl (applyEntry le c) m).held d t =
        if d = c then entries.foldl Call.overwrite (m.held c) t else m.held d t := by
  induction entries generalizing m with
  | nil =>
    refine ⟨linked, leafy, fun d t => ?_⟩
    split
    · next here => rw [here]; rfl
    · rfl
  | cons e entries ih =>
    obtain ⟨linked', leafy', held⟩ := applyEntry_spec linked leafy c e
    obtain ⟨last, kept, more⟩ := ih linked' leafy'
    refine ⟨last, kept, fun d t => ?_⟩
    rw [List.foldl_cons, more]
    split
    · refine foldl_overwritten entries fun _ => ?_
      rw [held, Call.overwrite, Function.update_apply]
      simp only [true_and]
    · next other => rw [held, if_neg fun both => other both.1]

theorem Shows.apply {own : Contributions N} (shows : Shows le own m) (c : Str) (full : Bool) (entries : List (SubjectEntry N))
    (removed : List Str) (sound : Call.Sound own (.apply c full entries removed)) :
    ∃ m', m.apply le c full entries removed = some m' ∧
      Shows le (Function.update own c (Call.contribute (own c) full entries removed)) m' := by
  -- What removals have to leave: the other connections, and of a delta's own what is not below a removed subject.
  let K (d t : Str) : Prop := m.held d t ≠ none ∧ (d = c → full = false ∧ ∀ s ∈ removed, ¬ Under s t)
  have closed : Closed K := by
    rintro d t p ⟨some, own⟩ above
    refine ⟨?_, fun here => ⟨(own here).1, fun s member under => (own here).2 s member (under.of_parent above)⟩⟩
    rw [shows.held] at some ⊢
    exact shows.rooted d t p some above
  have keeps : Keeps K m := fun _ _ => And.left
  obtain ⟨m₁, dropped, first, none₁⟩ : ∃ m₁, (if full then m.dropConnection c else some m) = some m₁ ∧ Pruned le K m m₁ ∧
      (full = true → ∀ t, m₁.held c t = none) := by
    cases full with
    | false => exact ⟨m, rfl, ⟨shows.linked, shows.leafy, .refl, keeps⟩, nofun⟩
    | true =>
      obtain ⟨m₁, ran, pruned, gone⟩ := dropConnection_spec closed shows.linked shows.leafy keeps
        fun t kept => Bool.noConfusion (kept.2 rfl).1
      exact ⟨m₁, ran, pruned, fun _ => gone⟩
  obtain ⟨m₂, left, second, none₂⟩ := removals_spec closed first.linked first.leafy first.keeps removed
    fun s member kept => (kept.2 rfl).2 s member (.refl s)
  obtain ⟨linked, leafy, held⟩ := entries_spec second.linked second.leafy c entries
  have pruned : Pruned le K m m₂ := .trans first.less second
  refine ⟨_, ?_, linked, leafy, fun d t => ?_, .update shows.rooted sound.1⟩
  · unfold TreeModel.apply
    cases full with
    | false =>
      obtain rfl : m = m₁ := Option.some.inj dropped
      simp [left]
    | true =>
      have dropped : m.dropConnection c = some m₁ := dropped
      simp [dropped, left]
  · rw [held]
    by_cases here : d = c
    · subst here
      rw [if_pos rfl, Function.update_self]
      refine foldl_overwritten entries fun absent => ?_
      rw [foldl_deleted]
      by_cases named : t ∈ removed
      · rw [if_pos named]
        exact none₂ t named
      rw [if_neg named]
      cases cleared : full with
      | true => exact second.less.gone (none₁ cleared t)
      | false =>
        show m₂.held d t = own d t
        rw [← shows.held]
        refine pruned.kept fun some => ⟨some, fun _ => ⟨cleared, fun s member under => ?_⟩⟩
        -- The subject above came again, or it would be missing above one that stayed.
        have stays : Call.contribute (own d) full entries removed t ≠ none := by
          rw [contribute_missing absent, if_neg named, cleared, ← shows.held]
          exact some
        have again : s ∈ entries.map SubjectEntry.s := by
          by_contra absent
          have rest := sound.1.under under stays
          rw [contribute_missing absent, if_pos member] at rest
          exact rest rfl
        rw [shows.held] at some
        exact (sound.2 cleared s member again t under some).elim named absent
    · rw [if_neg here, Function.update_of_ne here, ← shows.held]
      exact pruned.kept fun some => ⟨some, fun same => absurd same here⟩

theorem Shows.call {own : Contributions N} (shows : Shows le own m) (call : Call N) (sound : Call.Sound own call) :
    ∃ m', m.call le call = some m' ∧ Shows le (Call.contributed own call) m' := by
  cases call with
  | apply c full entries removed => exact shows.apply c full entries removed sound
  | dropConnection c => exact shows.drop c

end Applying

/-- Every node is of a connection: what hangs below a placeholder would be of none either. -/
theorem LeafyBut.inhabited (linked : Linked le m) (leafy : LeafyBut m none) (rooted : ∀ c, Call.Rooted (m.held c)) (s : Str)
    (member : s ∈ m.nodes) : (m.heap s).byConn.keys ≠ [] := by
  induction hn : m.height - s.length using Nat.strongRecOn generalizing s with
  | ind n ih =>
    intro bare
    obtain ⟨t, isChild⟩ := List.exists_mem_of_ne_nil _ fun childless => leafy s member nofun childless bare
    obtain ⟨above, known⟩ := linked.children.mp isChild
    have longer := parentSubject_length above
    have below := height_spec s member
    obtain ⟨c, listed⟩ := List.exists_mem_of_ne_nil _ (ih _ (by omega) t known rfl)
    have held : m.held c t ≠ none := by
      unfold TreeModel.held
      rw [if_pos known]
      exact ((m.heap t).byConn.mem_keys c).mp listed
    exact rooted c t s held above (held_none (OrderedMap.keys_eq_nil.mp bare c))

/-- The sum of what the connections say of a subject, over those that are listed. -/
def summed (own : Contributions N) (s : Str) (connIds : List Str) (f : SubjectEntry N → Option N) : N :=
  (connIds.map fun c => ((own c s).bind f).getD 0).sum

/-- The largest number that a connection says of a subject, or 0. -/
def Largest (own : Contributions N) (s : Str) (f : SubjectEntry N → Option N) (n : N) : Prop :=
  IsGreatest {x | x = 0 ∨ ∃ c e, own c s = some e ∧ x = (f e).getD 0} n

/-- A node is of every connection that has an entry for its subject. -/
structure Merges (le : Str → Str → Prop) (own : Contributions N) (m : TreeModel N) (s : Str) (node : TreeNode N) : Prop where
  fullSubject : node.fullSubject = s
  segment : node.segment = lastSegment s
  parent : node.parent = parentSubject s
  byConn : ∀ c, node.byConn.get c = own c s
  nodupConns : node.connIds.Nodup
  connIds : ∀ c, c ∈ node.connIds ↔ own c s ≠ none
  messageCount : node.messageCount = summed own s node.connIds SubjectEntry.n
  total : node.total = summed own s node.connIds SubjectEntry.t
  rate : node.rate = summed own s node.connIds SubjectEntry.r
  totalRate : node.totalRate = summed own s node.connIds SubjectEntry.tr
  childCount : Largest own s SubjectEntry.c node.childCount
  subjects : Largest own s SubjectEntry.sc node.subjects
  children : ∀ t, t ∈ node.children ↔ t ∈ m.nodes ∧ parentSubject t = some s
  nodupChildren : node.children.Nodup
  sorted : node.children.Pairwise (m.bySegment le)

structure Union (le : Str → Str → Prop) (own : Contributions N) (m : TreeModel N) : Prop where
  nodes : ∀ s, s ∈ m.nodes ↔ ∃ c, own c s ≠ none
  nodup : m.nodes.Nodup
  roots : ∀ t, t ∈ m.roots ↔ t ∈ m.nodes ∧ parentSubject t = none
  nodupRoots : m.roots.Nodup
  sorted : m.roots.Pairwise (m.bySegment le)
  merges : ∀ s ∈ m.nodes, Merges le own m s (m.heap s)

omit [LinearOrder N] in
theorem summed_values {own : Contributions N} {byConn : OrderedMap Str (SubjectEntry N)} (same : ∀ c, byConn.get c = own c s)
    (f : SubjectEntry N → Option N) :
    byConn.values.foldl (fun n e => n + (f e).getD 0) 0 = summed own s byConn.keys f := by
  have total : ∀ keys : List Str, ((keys.filterMap byConn.get).map fun e => (f e).getD 0).sum = summed own s keys f := by
    intro keys
    unfold summed
    induction keys with
    | nil => rfl
    | cons c keys ih =>
      rw [List.map_cons, List.sum_cons, ← ih, ← same]
      cases found : byConn.get c with
      | none => simp [found]
      | some e => simp [found]
  rw [← total byConn.keys, List.sum_eq_foldl, List.foldl_map]
  rfl

theorem largest_values {own : Contributions N} {byConn : OrderedMap Str (SubjectEntry N)} (same : ∀ c, byConn.get c = own c s)
    (f : SubjectEntry N → Option N) :
    Largest own s f (byConn.values.foldl (fun n e => max n ((f e).getD 0)) 0) := by
  have greatest : ∀ (l : List (SubjectEntry N)) (a : N),
      IsGreatest {x | x = a ∨ ∃ e ∈ l, x = (f e).getD 0} (l.foldl (fun n e => max n ((f e).getD 0)) a) := by
    intro l
    induction l with
    | nil => simp
    | cons e l ih =>
      intro a
      refine ⟨?_, ?_⟩
      · rcases (ih (max a ((f e).getD 0))).1 with isInit | ⟨e', member, isEntry⟩
        · rw [List.foldl_cons, isInit]
          rcases max_choice a ((f e).getD 0) with left | right
          · exact Or.inl left
          · exact Or.inr ⟨e, List.mem_cons_self, right⟩
        · exact Or.inr ⟨e', List.mem_cons_of_mem _ member, isEntry⟩
      · have first := (ih (max a ((f e).getD 0))).2 (Or.inl rfl)
        rintro x (rfl | ⟨e', member, rfl⟩)
        · exact (le_max_left _ _).trans first
        · rcases List.mem_cons.mp member with rfl | member
          · exact (le_max_right _ _).trans first
          · exact (ih (max a ((f e).getD 0))).2 (Or.inr ⟨e', member, rfl⟩)
  have entries : {x | x = 0 ∨ ∃ e ∈ byConn.values, x = (f e).getD 0} =
      {x | x = 0 ∨ ∃ c e, own c s = some e ∧ x = (f e).getD 0} := by
    ext x
    refine or_congr_right ⟨?_, ?_⟩
    · rintro ⟨e, member, isEntry⟩
      obtain ⟨c, found⟩ := OrderedMap.mem_values.mp member
      exact ⟨c, e, (same c).symm.trans found, isEntry⟩
    · rintro ⟨c, e, found, isEntry⟩
      exact ⟨e, OrderedMap.mem_values.mpr ⟨c, (same c).trans found⟩, isEntry⟩
  unfold Largest
  rw [← entries]
  exact greatest byConn.values 0

theorem Shows.union {own : Contributions N} (shows : Shows le own m) : Union le own m := by
  have linked := shows.linked
  have inhabited := shows.leafy.inhabited linked fun c => by
    rw [show m.held c = own c from funext (shows.held c)]
    exact shows.rooted c
  have bySegment (l : List Str) (sorted : l.Pairwise fun a b => le (lastSegment a) (lastSegment b)) :
      l.Pairwise (m.bySegment le) := by
    refine sorted.imp fun {a b} order => ?_
    unfold TreeModel.bySegment
    rwa [linked.segment, linked.segment]
  have byConn (s : Str) (member : s ∈ m.nodes) (c : Str) : (m.heap s).byConn.get c = own c s := by
    rw [← shows.held]
    exact (if_pos member).symm
  refine {
    nodes := fun s => ⟨fun member => ?_, fun ⟨c, entry⟩ => ?_⟩
    nodup := linked.nodup
    roots := fun t => linked.roots.trans and_comm
    nodupRoots := linked.nodupRoots
    sorted := bySegment _ linked.sortedRoots
    merges := fun s member => ?_ }
  · obtain ⟨c, listed⟩ := List.exists_mem_of_ne_nil _ (inhabited s member)
    exact ⟨c, byConn s member c ▸ ((m.heap s).byConn.mem_keys c).mp listed⟩
  · by_contra absent
    exact entry ((shows.held c s).symm.trans (if_neg absent))
  · have counted := linked.counted s (inhabited s member)
    have same := byConn s member
    have ids := linked.ids s
    exact {
      fullSubject := linked.subject s
      segment := linked.segment s
      parent := linked.parent s
      byConn := same
      nodupConns := ids ▸ (m.heap s).byConn.nodup
      connIds := fun c => by rw [ids, OrderedMap.mem_keys, same]
      messageCount := by
        rw [ids, ← summed_values same]
        exact (congrArg TreeNode.messageCount counted).symm
      total := by
        rw [ids, ← summed_values same]
        exact (congrArg TreeNode.total counted).symm
      rate := by
        rw [ids, ← summed_values same]
        exact (congrArg TreeNode.rate counted).symm
      totalRate := by
        rw [ids, ← summed_values same]
        exact (congrArg TreeNode.totalRate counted).symm
      childCount := congrArg TreeNode.childCount counted ▸ largest_values same SubjectEntry.c
      subjects := congrArg TreeNode.subjects counted ▸ largest_values same SubjectEntry.sc
      children := fun t => linked.children.trans and_comm
      nodupChildren := linked.nodupChildren s
      sorted := bySegment _ (linked.sorted s) }

/-- After any updates the tree is the union of what the connections contributed. -/
theorem calls_union [DecidableRel le] [Std.Total le] [IsTrans Str le] (calls : List (Call N))
    (sound : Transition.Along Call.contributed Call.Sound (fun _ _ => none) calls) :
    ∃ m, calls.foldlM (TreeModel.call le) TreeModel.new = some m ∧
      Union le (Transition.run Call.contributed (fun _ _ => none) calls) m := by
  obtain ⟨m, ran, shows⟩ := sound.follows (R := Shows le) (fun _ _ call shows sound => shows.call call sound) new_shows
  exact ⟨m, ran, shows.union⟩

def counted (s : String) : SubjectEntry Nat := ⟨s.toList, some 1, none, some 1, none, none, none, none, none, none, none⟩

/-- A branch of one connection, the upper half of it on another, and the lower half gone again. -/
def branch : List (Call Nat) :=
  [.apply "lab".toList true [counted "a", counted "a.b"] [], .apply "prod".toList true [counted "a"] [],
    .apply "lab".toList false [counted "a"] ["a.b".toList]]

omit [AddCommMonoid N] [LinearOrder N] in
theorem path_rooted {own : Str → Option (SubjectEntry N)} (root : own "a".toList ≠ none)
    (rest : ∀ s, s ∉ ["a".toList, "a.b".toList] → own s = none) : Call.Rooted own := by
  intro s p held above
  by_cases named : s ∈ ["a".toList, "a.b".toList]
  · rcases List.mem_pair.mp named with rfl | rfl
    · contradiction
    · exact Option.some.inj (show Option.some "a".toList = Option.some p from above) ▸ root
  · exact absurd (rest s named) held

theorem branch_union : ∃ m, branch.foldlM (TreeModel.call fun a b => a ≤ b) TreeModel.new = some m ∧
    Union (fun a b => a ≤ b) (Transition.run Call.contributed (fun _ _ => none) branch) m := by
  refine calls_union branch ⟨⟨path_rooted (by decide) fun s other => ?_, nofun⟩,
    ⟨path_rooted (by decide) fun s other => ?_, nofun⟩,
    ⟨path_rooted (by decide) fun s other => ?_, fun _ s member again => ?_⟩, trivial⟩
  · exact contribute_missing other
  · exact contribute_missing fun first => other (List.mem_cons.mpr (Or.inl (List.mem_singleton.mp first)))
  · refine (contribute_missing fun first => other (List.mem_cons.mpr (Or.inl (List.mem_singleton.mp first)))).trans ?_
    rw [if_neg fun second => other (List.mem_cons_of_mem _ second)]
    exact contribute_missing other
  · rw [List.mem_singleton.mp member] at again
    exact absurd again (by decide)

def again : List (Call Nat) :=
  [.apply "lab".toList true [counted "a", counted "a.b"] [], .apply "lab".toList false [counted "a"] ["a".toList]]

/-- A delta that removes a subject and brings it again takes what hangs below. -/
theorem again_lost : ¬ ∀ calls : List (Call Nat),
    Transition.Along Call.contributed (fun own call => ∀ c, Call.Rooted (Call.contributed own call c)) (fun _ _ => none) calls →
      ∃ m, calls.foldlM (TreeModel.call fun a b => a ≤ b) TreeModel.new = some m ∧
        Union (fun a b => a ≤ b) (Transition.run Call.contributed (fun _ _ => none) calls) m := by
  intro unions
  have first : ∀ c, Call.Rooted (Call.contributed (fun _ _ => none) again[0] c) :=
    .update (fun _ => .nothing) (path_rooted (by decide) fun s other => contribute_missing other)
  have second : ∀ c, Call.Rooted (Call.contributed (Call.contributed (fun _ _ => none) again[0]) again[1] c) := by
    refine .update first (path_rooted (by decide) fun s other => ?_)
    refine (contribute_missing fun root => other (List.mem_cons.mpr (Or.inl (List.mem_singleton.mp root)))).trans ?_
    rw [if_neg fun root => other (List.mem_cons.mpr (Or.inl (List.mem_singleton.mp root)))]
    exact contribute_missing other
  obtain ⟨m, ran, union⟩ := unions again ⟨first, second, trivial⟩
  have nodes : m.nodes = ["a".toList] := by
    have computed : (again.foldlM (TreeModel.call fun a b => a ≤ b) TreeModel.new).map TreeModel.nodes = some ["a".toList] := by
      decide +kernel
    rw [ran] at computed
    exact Option.some.inj computed
  have member := (union.nodes "a.b".toList).mpr ⟨"lab".toList, by decide⟩
  rw [nodes] at member
  exact absurd member (by decide)

end TreeModel
end NatsExplorer.Client
