import NatsExplorer.Client.TreeModel
import NatsExplorer.Library.Transition
import Mathlib.Algebra.BigOperators.Group.List.Basic
import Mathlib.Order.Bounds.Basic

/-! The browser's tree is the union of what its connections sent: no update takes an entry of another
connection with it, and no placeholder stays behind. -/
namespace NatsExplorer.Client
open Go
variable {N : Type} [AddCommMonoid N] [LinearOrder N] {le : Str → Str → Prop}

namespace TreeModel
variable {m m' : TreeModel N} {c d s t p : Str}

/-- The entry of a connection for a subject. -/
def held (m : TreeModel N) (c s : Str) : Option (SubjectEntry N) :=
  if s ∈ m.nodes then (m.heap s).byConn.get c else none

/-- Lists and links agree with the names, and counters with the entries. -/
structure Linked (le : Str → Str → Prop) (m : TreeModel N) : Prop where
  subject : ∀ s, (m.heap s).fullSubject = s
  segment : ∀ s, (m.heap s).segment = lastSegment s
  parent : ∀ s, (m.heap s).parent = parentSubject s
  ids : ∀ s, (m.heap s).connIds = (m.heap s).byConn.keys
  counted : ∀ s, (m.heap s).byConn.keys ≠ [] → (m.heap s).recompute = m.heap s
  up : ∀ {s p}, s ∈ m.nodes → parentSubject s = some p → p ∈ m.nodes
  children : ∀ {p t}, t ∈ (m.heap p).children ↔ parentSubject t = some p ∧ t ∈ m.nodes
  roots : ∀ {t}, t ∈ m.roots ↔ parentSubject t = none ∧ t ∈ m.nodes
  nodup : m.nodes.Nodup
  nodupChildren : ∀ p, (m.heap p).children.Nodup
  nodupRoots : m.roots.Nodup
  sorted : ∀ p, (m.heap p).children.Pairwise fun a b => le (lastSegment a) (lastSegment b)
  sortedRoots : m.roots.Pairwise fun a b => le (lastSegment a) (lastSegment b)

/-- Nothing hangs below a node of no connection but for `s`. -/
def LeafyBut (m : TreeModel N) (s : Option Str) : Prop :=
  ∀ t ∈ m.nodes, some t ≠ s → (m.heap t).children = [] → (m.heap t).byConn.keys ≠ []

/-- Nodes and entries only went. -/
structure Less (m m' : TreeModel N) : Prop where
  nodes : ∀ {s}, s ∈ m'.nodes → s ∈ m.nodes
  byConn : ∀ s c, (m'.heap s).byConn.get c = (m.heap s).byConn.get c ∨ (m'.heap s).byConn.get c = none

omit [AddCommMonoid N] [LinearOrder N] in
theorem Less.refl : Less m m := ⟨fun member => member, fun _ _ => Or.inl rfl⟩

omit [AddCommMonoid N] [LinearOrder N] in
theorem Less.trans {m'' : TreeModel N} (first : Less m m') (second : Less m' m'') : Less m m'' where
  nodes := fun member => first.nodes (second.nodes member)
  byConn := fun s c => (second.byConn s c).elim (fun same => (first.byConn s c).imp same.trans same.trans) Or.inr

omit [AddCommMonoid N] [LinearOrder N] in
theorem Less.held (less : Less m m') (c s : Str) : m'.held c s = m.held c s ∨ m'.held c s = none := by
  unfold TreeModel.held
  by_cases still : s ∈ m'.nodes
  · rw [if_pos still, if_pos (less.nodes still)]
    exact less.byConn s c
  · exact Or.inr (if_neg still)

omit [AddCommMonoid N] [LinearOrder N] in
theorem Less.gone (less : Less m m') (gone : m.held c s = none) : m'.held c s = none :=
  (less.held c s).elim (fun same => same.trans gone) id

omit [AddCommMonoid N] [LinearOrder N] in
theorem update_heap {f : TreeNode N → TreeNode N} : (m.update s f).heap t = if t = s then f (m.heap s) else m.heap t :=
  Function.update_apply ..

/-- What a node is told of its entries leaves its place alone. -/
theorem Linked.update {f : TreeNode N → TreeNode N} (linked : Linked le m) (s : Str)
    (subject : ∀ n, (f n).fullSubject = n.fullSubject) (segment : ∀ n, (f n).segment = n.segment)
    (parent : ∀ n, (f n).parent = n.parent) (children : ∀ n, (f n).children = n.children)
    (ids : (f (m.heap s)).connIds = (f (m.heap s)).byConn.keys)
    (counted : (f (m.heap s)).byConn.keys ≠ [] → (f (m.heap s)).recompute = f (m.heap s)) :
    Linked le (m.update s f) := by
  have place {α : Type} (field : TreeNode N → α) (same : ∀ n, field (f n) = field n) (t : Str) :
      field ((m.update s f).heap t) = field (m.heap t) := by
    rw [update_heap]
    split
    · next here => rw [same, here]
    · rfl
  exact {
    subject := fun t => (place _ subject t).trans (linked.subject t)
    segment := fun t => (place _ segment t).trans (linked.segment t)
    parent := fun t => (place _ parent t).trans (linked.parent t)
    ids := fun t => by
      rw [update_heap]
      split
      · exact ids
      · exact linked.ids t
    counted := fun t => by
      rw [update_heap]
      split
      · exact counted
      · exact linked.counted t
    up := linked.up
    children := fun {p t} => by
      rw [place _ children p]
      exact linked.children
    roots := linked.roots
    nodup := linked.nodup
    nodupChildren := fun p => by
      rw [place _ children p]
      exact linked.nodupChildren p
    nodupRoots := linked.nodupRoots
    sorted := fun p => by
      rw [place _ children p]
      exact linked.sorted p
    sortedRoots := linked.sortedRoots }

theorem unlink_heap (linked : Linked le m) : (m.unlink s).heap t =
    if parentSubject s = some t then { m.heap t with children := (m.heap t).children.erase s } else m.heap t := by
  unfold unlink
  rw [linked.parent s]
  cases above : parentSubject s with
  | none => simp
  | some p =>
    simp only [update_heap, Option.some.injEq]
    by_cases here : t = p
    · subst here
      simp
    · simp [here, Ne.symm here]

omit [AddCommMonoid N] [LinearOrder N] in
theorem unlink_nodes : (m.unlink s).nodes = m.nodes.erase s := by
  unfold unlink
  cases (m.heap s).parent <;> rfl

theorem unlink_roots (linked : Linked le m) :
    (m.unlink s).roots = if parentSubject s = none then m.roots.erase s else m.roots := by
  unfold unlink
  rw [linked.parent s]
  cases parentSubject s <;> simp [TreeModel.update]

theorem unlink_byConn (linked : Linked le m) : ((m.unlink s).heap t).byConn = (m.heap t).byConn := by
  rw [unlink_heap linked]
  split <;> rfl

theorem unlink_linked (linked : Linked le m) (leaf : (m.heap s).children = []) : Linked le (m.unlink s) := by
  have place {α : Type} (field : TreeNode N → α) (same : ∀ n x, field { n with children := x } = field n) (t : Str) :
      field ((m.unlink s).heap t) = field (m.heap t) := by
    rw [unlink_heap linked]
    split
    · exact same _ _
    · rfl
  have members {t : Str} : t ∈ (m.unlink s).nodes ↔ t ≠ s ∧ t ∈ m.nodes := by
    rw [unlink_nodes, linked.nodup.mem_erase_iff]
  exact {
    subject := fun t => (place _ (fun _ _ => rfl) t).trans (linked.subject t)
    segment := fun t => (place _ (fun _ _ => rfl) t).trans (linked.segment t)
    parent := fun t => (place _ (fun _ _ => rfl) t).trans (linked.parent t)
    ids := fun t => by
      rw [place TreeNode.connIds (fun _ _ => rfl), place TreeNode.byConn fun _ _ => rfl]
      exact linked.ids t
    counted := fun t some => by
      rw [unlink_byConn linked] at some
      rw [unlink_heap linked]
      split
      · have counted := linked.counted t some
        conv_rhs => rw [← counted]
        rfl
      · exact linked.counted t some
    up := by
      intro t p member above
      have before := (members.mp member).2
      refine members.mpr ⟨?_, linked.up before above⟩
      rintro rfl
      have child := linked.children.mpr ⟨above, before⟩
      rw [leaf] at child
      contradiction
    children := by
      intro p t
      rw [unlink_heap linked, members]
      split
      · rw [(linked.nodupChildren p).mem_erase_iff, linked.children]
        tauto
      · next other =>
        rw [linked.children]
        refine ⟨fun ⟨above, member⟩ => ⟨above, ?_, member⟩, fun ⟨above, _, member⟩ => ⟨above, member⟩⟩
        rintro rfl
        exact other above
    roots := by
      intro t
      rw [unlink_roots linked, members]
      split
      · rw [linked.nodupRoots.mem_erase_iff, linked.roots]
        tauto
      · next other =>
        rw [linked.roots]
        refine ⟨fun ⟨above, member⟩ => ⟨above, ?_, member⟩, fun ⟨above, _, member⟩ => ⟨above, member⟩⟩
        rintro rfl
        exact other above
    nodup := by
      rw [unlink_nodes]
      exact linked.nodup.erase s
    nodupChildren := fun p => by
      rw [unlink_heap linked]
      split
      · exact (linked.nodupChildren p).erase s
      · exact linked.nodupChildren p
    nodupRoots := by
      rw [unlink_roots linked]
      split
      · exact linked.nodupRoots.erase s
      · exact linked.nodupRoots
    sorted := fun p => by
      rw [unlink_heap linked]
      split
      · exact (linked.sorted p).sublist List.erase_sublist
      · exact linked.sorted p
    sortedRoots := by
      rw [unlink_roots linked]
      split
      · exact linked.sortedRoots.sublist List.erase_sublist
      · exact linked.sortedRoots }

theorem unlink_less (linked : Linked le m) : Less m (m.unlink s) where
  nodes := fun member => by
    rw [unlink_nodes] at member
    exact List.mem_of_mem_erase member
  byConn := fun t c => Or.inl (by rw [unlink_byConn linked])

/-- A node that left the map once is not found again. -/
theorem unlink_gone (linked : Linked le m) (gone : s ∉ m.nodes) : m.unlink s = m := by
  have nodes : (m.unlink s).nodes = m.nodes := by rw [unlink_nodes, List.erase_of_not_mem gone]
  have roots : (m.unlink s).roots = m.roots := by
    rw [unlink_roots linked]
    split
    · exact List.erase_of_not_mem fun member => gone (linked.roots.mp member).2
    · rfl
  have heap : (m.unlink s).heap = m.heap := by
    funext t
    rw [unlink_heap linked]
    split
    · rw [List.erase_of_not_mem fun member => gone (linked.children.mp member).2]
    · rfl
  calc m.unlink s = ⟨(m.unlink s).roots, (m.unlink s).nodes, (m.unlink s).heap⟩ := rfl
    _ = m := by rw [nodes, roots, heap]

theorem detach_gone (fuel : Nat) (linked : Linked le m) (leafy : LeafyBut m none) (gone : s ∉ m.nodes)
    (enough : s.length < fuel) : detach fuel m s = some m := by
  induction fuel generalizing s with
  | zero => exact absurd enough (Nat.not_lt_zero _)
  | succ fuel ih =>
    unfold detach
    rw [unlink_gone linked gone, linked.parent s]
    cases above : parentSubject s with
    | none => rfl
    | some p =>
      simp only
      split
      · next bare =>
        refine ih (fun member => leafy p member nofun bare.2 bare.1) ?_
        have := parentSubject_length above
        omega
      · rfl

/-- A leaf without entries goes, and the placeholders above it. -/
theorem detach_spec (fuel : Nat) (linked : Linked le m) (leafy : LeafyBut m (some s)) (member : s ∈ m.nodes)
    (leaf : (m.heap s).children = []) (bare : (m.heap s).byConn.keys = []) (enough : s.length < fuel) :
    ∃ m', detach fuel m s = some m' ∧ Linked le m' ∧ LeafyBut m' none ∧ Less m m' ∧ ∀ c t, m'.held c t = m.held c t := by
  induction fuel generalizing m s with
  | zero => exact absurd enough (Nat.not_lt_zero _)
  | succ fuel ih =>
    have linked' : Linked le (m.unlink s) := unlink_linked linked leaf
    have held (c t : Str) : (m.unlink s).held c t = m.held c t := by
      unfold TreeModel.held
      rw [unlink_byConn linked, unlink_nodes]
      by_cases here : t = s
      · subst here
        rw [if_neg linked.nodup.not_mem_erase, if_pos member]
        exact (OrderedMap.keys_eq_nil.mp bare c).symm
      · simp only [List.mem_erase_of_ne here]
    unfold detach
    rw [linked.parent s]
    cases above : parentSubject s with
    | none =>
      refine ⟨_, rfl, linked', fun t kept _ => ?_, unlink_less linked, held⟩
      have before := linked.nodup.mem_erase_iff.mp (unlink_nodes ▸ kept)
      rw [unlink_heap linked, if_neg (by simp [above])]
      exact leafy t before.2 (by simpa using before.1)
    | some p =>
      have others : LeafyBut (m.unlink s) (some p) := fun t kept other => by
        have before := linked.nodup.mem_erase_iff.mp (unlink_nodes ▸ kept)
        rw [unlink_heap linked, if_neg fun same => other (above ▸ same).symm]
        exact leafy t before.2 (by simpa using before.1)
      have known : p ∈ (m.unlink s).nodes := by
        have shorter := parentSubject_length above
        rw [unlink_nodes, linked.nodup.mem_erase_iff]
        exact ⟨fun same => by simp [same] at shorter, linked.up member above⟩
      simp only
      split
      · next empty =>
        have shorter := parentSubject_length above
        obtain ⟨m', run, last, kept, less, same⟩ := ih linked' others known empty.2 empty.1 (by omega)
        exact ⟨m', run, last, kept, (unlink_less linked).trans less, fun c t => (same c t).trans (held c t)⟩
      · next some =>
        refine ⟨_, rfl, linked', fun t kept _ childless entries => ?_, unlink_less linked, held⟩
        by_cases here : t = p
        · subst here
          exact some ⟨entries, childless⟩
        · exact others t kept (by simpa using here) childless entries

/-- What removals have to leave: nothing is kept below what a connection does not keep. -/
def Closed (K : Str → Str → Prop) : Prop := ∀ c s p, K c s → parentSubject s = some p → K c p

def Keeps (K : Str → Str → Prop) (m : TreeModel N) : Prop := ∀ c s, K c s → m.held c s ≠ none

omit [AddCommMonoid N] [LinearOrder N] in
theorem height_spec : ∀ t ∈ m.nodes, t.length < m.height := by
  intro t member
  have bound : ∀ l : List Nat, ∀ n ∈ l, n ≤ l.foldr max 0 := by
    intro l
    induction l with
    | nil => nofun
    | cons a l ih =>
      intro n member
      rcases List.mem_cons.mp member with rfl | member
      · exact Nat.le_max_left _ _
      · exact (ih n member).trans (Nat.le_max_right _ _)
  exact Nat.lt_succ_of_le (bound _ _ (List.mem_map_of_mem member))

omit [AddCommMonoid N] [LinearOrder N] in
theorem held_absent (absent : ¬ (s ∈ m.nodes ∧ c ∈ (m.heap s).byConn.keys)) : m.held c s = none := by
  unfold TreeModel.held
  split
  · next member =>
    by_contra some
    exact absent ⟨member, ((m.heap s).byConn.mem_keys c).mpr some⟩
  · rfl

omit [AddCommMonoid N] [LinearOrder N] in
theorem held_none (gone : (m.heap s).byConn.get c = none) : m.held c s = none := by
  unfold TreeModel.held
  split
  · exact gone
  · rfl

omit [AddCommMonoid N] [LinearOrder N] in
theorem update_byConn {f : TreeNode N → TreeNode N} (same : ∀ n, (f n).byConn = n.byConn) :
    ((m.update s f).heap t).byConn = (m.heap t).byConn := by
  rw [update_heap]
  split
  · next here => rw [same, here]
  · rfl

omit [AddCommMonoid N] [LinearOrder N] in
theorem held_update {f : TreeNode N → TreeNode N} (same : ∀ n, (f n).byConn = n.byConn) :
    (m.update s f).held c t = m.held c t := by
  unfold TreeModel.held
  rw [update_byConn same]
  rfl

omit [AddCommMonoid N] [LinearOrder N] in
theorem update_less {f : TreeNode N → TreeNode N} (same : ∀ n, (f n).byConn = n.byConn) : Less m (m.update s f) :=
  ⟨fun member => member, fun t c => Or.inl (by rw [update_byConn same])⟩

omit [AddCommMonoid N] [LinearOrder N] in
theorem update_update {f g : TreeNode N → TreeNode N} : (m.update s f).update s g = m.update s fun n => g (f n) := by
  simp [TreeModel.update]

omit [AddCommMonoid N] [LinearOrder N] in
theorem forget_less : Less m (m.update s (TreeNode.forget c)) where
  nodes := id
  byConn := fun t d => by
    rw [update_heap]
    split
    · next here =>
      subst here
      show ((m.heap t).byConn.delete c).get d = _ ∨ ((m.heap t).byConn.delete c).get d = none
      rw [OrderedMap.get_delete]
      split
      · exact Or.inr rfl
      · exact Or.inl rfl
    · exact Or.inl rfl

omit [AddCommMonoid N] [LinearOrder N] in
theorem forget_keeps {K : Str → Str → Prop} (keeps : Keeps K m) (free : ¬ K c s) : Keeps K (m.update s (TreeNode.forget c)) := by
  intro d t kept
  have before := keeps d t kept
  unfold TreeModel.held at before ⊢
  split at before
  · next member =>
    rw [if_pos (show t ∈ (m.update s (TreeNode.forget c)).nodes from member), update_heap]
    split
    · next here =>
      subst here
      show ((m.heap t).byConn.delete c).get d ≠ none
      have other : d ≠ c := by
        rintro rfl
        exact free kept
      rw [OrderedMap.get_delete, if_neg other]
      exact before
    · exact before
  · exact absurd rfl before

omit [AddCommMonoid N] [LinearOrder N] in
theorem forget_get : ((m.update s (TreeNode.forget c)).heap s).byConn.get c = none := by
  rw [update_heap, if_pos rfl]
  show ((m.heap s).byConn.delete c).get c = none
  rw [OrderedMap.get_delete, if_pos rfl]

/-- A state some removals after another, which left what they have to. -/
structure Pruned (le : Str → Str → Prop) (K : Str → Str → Prop) (m m' : TreeModel N) : Prop where
  linked : Linked le m'
  leafy : LeafyBut m' none
  less : Less m m'
  keeps : Keeps K m'

theorem Pruned.trans {K : Str → Str → Prop} {m'' : TreeModel N} (less : Less m m') (pruned : Pruned le K m' m'') :
    Pruned le K m m'' :=
  { pruned with less := less.trans pruned.less }

theorem removeEntry_spec {K : Str → Str → Prop} (closed : Closed K) (fuel : Nat) (linked : Linked le m)
    (leafy : LeafyBut m none) (enough : ∀ t ∈ m.nodes, t.length < s.length + fuel) (keeps : Keeps K m) (free : ¬ K c s) :
    ∃ m', removeEntry fuel m c s = some m' ∧ Pruned le K m m' ∧ m'.held c s = none := by
  induction fuel generalizing m c s with
  | zero =>
    have absent : ¬ (s ∈ m.nodes ∧ c ∈ (m.heap s).byConn.keys) := fun present => absurd (enough s present.1) (by omega)
    refine ⟨m, ?_, ⟨linked, leafy, .refl, keeps⟩, held_absent absent⟩
    unfold removeEntry
    rw [if_neg absent]
  | succ fuel ih =>
    unfold removeEntry
    by_cases present : s ∈ m.nodes ∧ c ∈ (m.heap s).byConn.keys
    swap
    · rw [if_neg present]
      exact ⟨m, rfl, ⟨linked, leafy, .refl, keeps⟩, held_absent present⟩
    rw [if_pos present]
    have ids : ((m.heap s).forget c).connIds = ((m.heap s).forget c).byConn.keys :=
      congrArg (List.filter (· ≠ c)) (linked.ids s)
    have less : Less m (m.update s (TreeNode.forget c)) := forget_less
    have keeps' := forget_keeps keeps free
    show ∃ m', (if ((m.update s (TreeNode.forget c)).heap s).byConn.keys ≠ [] then _ else _) = some m' ∧ _
    split
    · next some =>
      refine ⟨_, rfl, ⟨?_, ?_, less.trans (update_less (f := TreeNode.recompute) fun _ => rfl), fun d t kept => ?_⟩, ?_⟩
      · rw [update_update]
        exact linked.update s (fun _ => rfl) (fun _ => rfl) (fun _ => rfl) (fun _ => rfl) ids fun _ => rfl
      · intro t member other childless
        rw [update_byConn (f := TreeNode.recompute) fun _ => rfl]
        by_cases here : t = s
        · exact here ▸ some
        · rw [update_update, update_heap, if_neg here] at childless
          rw [update_heap, if_neg here]
          exact leafy t member other childless
      · rw [held_update (f := TreeNode.recompute) fun _ => rfl]
        exact keeps' d t kept
      · rw [held_update (f := TreeNode.recompute) fun _ => rfl]
        exact held_none forget_get
    · next bare =>
      have bare : ((m.update s (TreeNode.forget c)).heap s).byConn.keys = [] := not_ne_iff.mp bare
      have linked' : Linked le (m.update s (TreeNode.forget c)) :=
        linked.update s (fun _ => rfl) (fun _ => rfl) (fun _ => rfl) (fun _ => rfl) ids fun some =>
          absurd (by simpa [update_heap] using bare) some
      have others : LeafyBut (m.update s (TreeNode.forget c)) (some s) := fun t member other => by
        rw [update_heap, if_neg fun same => other (congrArg some same)]
        exact leafy t member nofun
      have gone : (m.update s (TreeNode.forget c)).held c s = none := held_none forget_get
      have still : s ∈ (m.update s (TreeNode.forget c)).nodes := present.1
      generalize m.update s (TreeNode.forget c) = m₁ at *
      by_cases leaf : (m₁.heap s).children = []
      · obtain ⟨m', run, last, leafy', less', same⟩ :=
          detach_spec (s.length + 1) linked' others still leaf bare (Nat.lt_succ_self _)
        refine ⟨m', ?_, ⟨last, leafy', less.trans less', fun d t kept => ?_⟩, (same c s).trans gone⟩
        · simp [leaf, bare, run]
        · rw [same]
          exact keeps' d t kept
      · have leafy' : LeafyBut m₁ none := fun t member _ childless => by
          refine others t member (fun same => leaf ?_) childless
          rwa [← Option.some.inj same]
        -- No connection keeps anything below a subject that none has an entry for.
        have one {child : Str} (isChild : child ∈ (m₁.heap s).children) (m₂ : TreeModel N) (pruned : Pruned le K m₁ m₂)
            (id : Str) : ∃ m₃, removeEntry fuel m₂ id (m₂.heap child).fullSubject = some m₃ ∧ Pruned le K m₁ m₃ := by
          have above := (linked'.children.mp isChild).1
          have longer := parentSubject_length above
          have free' : ¬ K id child := fun kept =>
            keeps' id s (closed id child s kept above) (held_none (OrderedMap.keys_eq_nil.mp bare id))
          have enough' : ∀ t ∈ m₂.nodes, t.length < child.length + fuel := fun t member => by
            have := enough t (less.nodes (pruned.less.nodes member))
            omega
          rw [pruned.linked.subject]
          obtain ⟨m₃, ran, more, -⟩ := ih pruned.linked pruned.leafy enough' pruned.keeps free'
          exact ⟨m₃, ran, .trans pruned.less more⟩
        have all (child : Str) (isChild : child ∈ (m₁.heap s).children) (m₂ : TreeModel N) (pruned : Pruned le K m₁ m₂) :
            ∃ m₃, (m₂.heap child).connIds.foldlM (fun m id => removeEntry fuel m id (m.heap child).fullSubject) m₂ = some m₃ ∧
              Pruned le K m₁ m₃ :=
          Transition.foldlM_keeps (P := Pruned le K m₁) (fun m₃ holds id _ => one isChild m₃ holds id) pruned
        obtain ⟨below, run, pruned⟩ := Transition.foldlM_keeps (P := Pruned le K m₁)
          (fun m₂ holds child isChild => all child isChild m₂ holds) ⟨linked', leafy', .refl, keeps'⟩
        refine ⟨below, ?_, .trans less pruned, pruned.less.gone gone⟩
        simp only [run, Option.bind_eq_bind, Option.bind_some]
        split
        · rfl
        · next empty =>
          obtain ⟨bare₂, childless⟩ := not_or.mp empty
          have left : s ∉ below.nodes := fun member =>
            pruned.leafy s member nofun (not_ne_iff.mp childless) (not_ne_iff.mp bare₂)
          exact detach_gone (s.length + 1) pruned.linked pruned.leafy left (Nat.lt_succ_self _)

section Insert
variable [DecidableRel le] {parent : Option Str} {segment full : Str}

instance [Std.Total le] : Std.Total (m.bySegment le) := ⟨fun _ _ => Std.Total.total (r := le) _ _⟩

instance [IsTrans Str le] : IsTrans Str (m.bySegment le) := ⟨fun _ _ _ first second => IsTrans.trans (r := le) _ _ _ first second⟩

omit [LinearOrder N] in
theorem place_heap (absent : full ∉ m.nodes) (above : parent ≠ some full) :
    (m.place le parent segment full).heap t = if t = full then newNode segment full parent
      else if parent = some t then { m.heap t with
        children := Insertion.insert ((m.update full fun _ => newNode segment full parent).bySegment le) (m.heap t).children full }
      else m.heap t := by
  unfold place
  rw [if_neg absent]
  cases parent with
  | none => simp [update_heap]
  | some p =>
    have apart : p ≠ full := fun same => above (congrArg some same)
    simp only [update_heap, Option.some.injEq, if_neg apart]
    by_cases here : t = full
    · simp [here, apart.symm]
    · by_cases there : t = p
      · simp [there, apart]
      · simp [here, there, Ne.symm there]

omit [LinearOrder N] in
theorem place_nodes (absent : full ∉ m.nodes) : (m.place le parent segment full).nodes = m.nodes ++ [full] := by
  unfold place
  rw [if_neg absent]
  cases parent <;> rfl

omit [LinearOrder N] in
theorem place_roots (absent : full ∉ m.nodes) : (m.place le parent segment full).roots =
    if parent = none then Insertion.insert ((m.update full fun _ => newNode segment full parent).bySegment le) m.roots full
    else m.roots := by
  unfold place
  rw [if_neg absent]
  cases parent <;> simp [TreeModel.update]

theorem place_linked [Std.Total le] [IsTrans Str le] (linked : Linked le m) (absent : full ∉ m.nodes)
    (isParent : parent = parentSubject full) (isSegment : segment = lastSegment full) (known : ∀ p, parent = some p → p ∈ m.nodes) :
    Linked le (m.place le parent segment full) := by
  have above : parent ≠ some full := fun same => by
    have shorter := parentSubject_length (isParent.symm.trans same)
    omega
  have made : (m.update full fun _ => newNode segment full parent).bySegment le =
      fun a b => le (lastSegment a) (lastSegment b) := by
    have segments (t : Str) : ((m.update full fun _ => newNode segment full parent).heap t).segment = lastSegment t := by
      rw [update_heap]
      split
      · next here => rw [here, ← isSegment]; rfl
      · exact linked.segment t
    funext a b
    simp only [bySegment, segments]
  have member {t : Str} : t ∈ (m.place le parent segment full).nodes ↔ t = full ∨ t ∈ m.nodes := by
    rw [place_nodes absent, List.mem_append, List.mem_singleton, or_comm]
  have noChild {p : Str} : full ∉ (m.heap p).children := fun child => absent (linked.children.mp child).2
  have barren : (m.heap full).children = [] := List.eq_nil_iff_forall_not_mem.mpr fun t child =>
    absent (linked.up (linked.children.mp child).2 (linked.children.mp child).1)
  have inserted (l : List Str) (sorted : l.Pairwise fun a b => le (lastSegment a) (lastSegment b)) :
      (Insertion.insert ((m.update full fun _ => newNode segment full parent).bySegment le) l full).Pairwise
        fun a b => le (lastSegment a) (lastSegment b) := by
    rw [← made] at sorted ⊢
    exact Insertion.insert_sorted sorted
  have mem_inserted {l : List Str} {t : Str} :
      t ∈ Insertion.insert ((m.update full fun _ => newNode segment full parent).bySegment le) l full ↔ t = full ∨ t ∈ l := by
    rw [(Insertion.insert_perm l full).mem_iff, List.mem_cons]
  have nodup_inserted {l : List Str} (nodup : l.Nodup) (new : full ∉ l) :
      (Insertion.insert ((m.update full fun _ => newNode segment full parent).bySegment le) l full).Nodup :=
    (Insertion.insert_perm l full).nodup_iff.mpr (List.nodup_cons.mpr ⟨new, nodup⟩)
  exact {
    subject := fun t => by
      rw [place_heap absent above]
      split_ifs with here there
      · exact here.symm
      · exact linked.subject t
      · exact linked.subject t
    segment := fun t => by
      rw [place_heap absent above]
      split_ifs with here there
      · exact isSegment.trans (congrArg lastSegment here.symm)
      · exact linked.segment t
      · exact linked.segment t
    parent := fun t => by
      rw [place_heap absent above]
      split_ifs with here there
      · exact isParent.trans (congrArg parentSubject here.symm)
      · exact linked.parent t
      · exact linked.parent t
    ids := fun t => by
      rw [place_heap absent above]
      split_ifs with here there
      · rfl
      · exact linked.ids t
      · exact linked.ids t
    counted := fun t => by
      rw [place_heap absent above]
      split_ifs with here there
      · exact fun some => absurd rfl some
      · intro some
        have counted := linked.counted t some
        conv_rhs => rw [← counted]
        rfl
      · exact linked.counted t
    up := by
      intro t p old up
      rcases member.mp old with rfl | old
      · exact member.mpr (Or.inr (known p (isParent.trans up)))
      · exact member.mpr (Or.inr (linked.up old up))
    children := by
      intro p t
      rw [place_heap absent above, member]
      split_ifs with here there
      · subst here
        refine ⟨nofun, fun ⟨up, old⟩ => ?_⟩
        rcases old with rfl | old
        · exact absurd (isParent.trans up) above
        · exact absurd (linked.up old up) absent
      · rw [mem_inserted, linked.children]
        refine ⟨?_, fun ⟨up, old⟩ => old.imp id fun old => ⟨up, old⟩⟩
        rintro (rfl | ⟨up, old⟩)
        · exact ⟨isParent.symm.trans there, Or.inl rfl⟩
        · exact ⟨up, Or.inr old⟩
      · rw [linked.children]
        refine ⟨fun ⟨up, old⟩ => ⟨up, Or.inr old⟩, fun ⟨up, old⟩ => ⟨up, old.resolve_left ?_⟩⟩
        rintro rfl
        exact there (isParent.trans up)
    roots := by
      intro t
      rw [place_roots absent, member]
      split_ifs with root
      · rw [mem_inserted, linked.roots]
        refine ⟨?_, fun ⟨up, old⟩ => old.imp id fun old => ⟨up, old⟩⟩
        rintro (rfl | ⟨up, old⟩)
        · exact ⟨isParent.symm.trans root, Or.inl rfl⟩
        · exact ⟨up, Or.inr old⟩
      · rw [linked.roots]
        refine ⟨fun ⟨up, old⟩ => ⟨up, Or.inr old⟩, fun ⟨up, old⟩ => ⟨up, old.resolve_left ?_⟩⟩
        rintro rfl
        exact root (isParent.trans up)
    nodup := by
      rw [place_nodes absent]
      exact List.nodup_append.mpr ⟨linked.nodup, List.nodup_singleton _, fun a old b new => by
        rintro rfl
        exact absent (List.mem_singleton.mp new ▸ old)⟩
    nodupChildren := fun p => by
      rw [place_heap absent above]
      split_ifs with here there
      · exact List.nodup_nil
      · exact nodup_inserted (linked.nodupChildren p) noChild
      · exact linked.nodupChildren p
    nodupRoots := by
      rw [place_roots absent]
      split_ifs with root
      · exact nodup_inserted linked.nodupRoots fun old => absent (linked.roots.mp old).2
      · exact linked.nodupRoots
    sorted := fun p => by
      rw [place_heap absent above]
      split_ifs with here there
      · exact List.Pairwise.nil
      · exact inserted _ (linked.sorted p)
      · exact linked.sorted p
    sortedRoots := by
      rw [place_roots absent]
      split_ifs with root
      · exact inserted _ linked.sortedRoots
      · exact linked.sortedRoots }

/-- What `insert` leaves: a node for the subject that may lack entries and children. -/
structure Entered (le : Str → Str → Prop) (s : Str) (m m' : TreeModel N) : Prop where
  linked : Linked le m'
  leafy : LeafyBut m' (some s)
  member : s ∈ m'.nodes
  held : ∀ c t, m'.held c t = m.held c t

theorem place_spec [Std.Total le] [IsTrans Str le] (linked : Linked le m) (leafy : LeafyBut m parent)
    (isParent : parent = parentSubject full) (isSegment : segment = lastSegment full) (known : ∀ p, parent = some p → p ∈ m.nodes) :
    Entered le full m (m.place le parent segment full) := by
  have above : parent ≠ some full := fun same => by
    have shorter := parentSubject_length (isParent.symm.trans same)
    omega
  by_cases present : full ∈ m.nodes
  · have same : m.place le parent segment full = m := by
      unfold place
      rw [if_pos present]
    rw [same]
    refine ⟨linked, fun t member _ childless => leafy t member (fun isAbove => ?_) childless, present, fun _ _ => rfl⟩
    have child := linked.children.mpr ⟨isParent.symm.trans isAbove.symm, present⟩
    rw [childless] at child
    contradiction
  · refine ⟨place_linked linked present isParent isSegment known, fun t member other => ?_, ?_, fun c t => ?_⟩
    · have other : t ≠ full := fun same => other (congrArg some same)
      rw [place_nodes present, List.mem_append, List.mem_singleton] at member
      rw [place_heap present above, if_neg other]
      split_ifs with there
      · intro childless
        have child : full ∈ ([] : List Str) := childless ▸
          (Insertion.insert_perm (m.heap t).children full).mem_iff.mpr List.mem_cons_self
        contradiction
      · exact leafy t (member.resolve_right other) fun same => there same.symm
    · rw [place_nodes present]
      exact List.mem_append_right _ (List.mem_singleton_self _)
    · unfold TreeModel.held
      rw [place_nodes present, place_heap present above]
      by_cases here : t = full
      · subst here
        rw [if_pos (List.mem_append_right _ (List.mem_singleton_self _)), if_pos rfl, if_neg present]
        rfl
      · rw [if_neg here]
        simp only [List.mem_append, List.mem_singleton, here, or_false]
        split_ifs <;> rfl

theorem insert_spec [Std.Total le] [IsTrans Str le] (linked : Linked le m) (leafy : LeafyBut m none) (s : Str) :
    ∃ m', m.insert le s = (m', some s) ∧ Entered le s m m' := by
  induction hn : s.length using Nat.strongRecOn generalizing s with
  | ind n ih =>
    rcases root_or_child s with root | ⟨p, seg, rfl, dotless⟩
    · have segment : s = lastSegment s := by
        unfold lastSegment
        rw [takeWhile_dotless root, List.reverse_reverse]
      refine ⟨m.place le none s s, ?_, ?_⟩
      · unfold insert
        rw [splitOn_root root]
        rfl
      · exact place_spec linked leafy (parentSubject_root root).symm segment nofun
    · have above := parentSubject_child (p := p) dotless
      have shorter := parentSubject_length above
      obtain ⟨m', run, entered⟩ := ih p.length (by omega) p rfl
      have next : Entered le (child p seg) m' (m'.place le (some p) seg (child p seg)) :=
        place_spec entered.linked entered.leafy above.symm (lastSegment_child dotless).symm
          fun q same => Option.some.inj same ▸ entered.member
      refine ⟨_, ?_, next.linked, next.leafy, next.member, fun c t => (next.held c t).trans (entered.held c t)⟩
      unfold insert at run ⊢
      rw [splitOn_child dotless, List.foldl_append, run]
      rfl

omit [AddCommMonoid N] [LinearOrder N] [DecidableRel le] in
theorem listConn_same {α : Type} (field : TreeNode N → α) (same : ∀ (n : TreeNode N) x, field { n with connIds := x } = field n)
    (n : TreeNode N) : field (n.listConn c) = field n := by
  unfold TreeNode.listConn
  split
  · rfl
  · exact same n _

/-- The node with an entry of a connection set. -/
def told (c : Str) (e : SubjectEntry N) (n : TreeNode N) : TreeNode N :=
  ({ n with byConn := n.byConn.set c e } : TreeNode N).recompute.listConn c

omit [DecidableRel le] in
theorem told_byConn {e : SubjectEntry N} {n : TreeNode N} : (told c e n).byConn = n.byConn.set c e :=
  listConn_same TreeNode.byConn (fun _ _ => rfl) _

omit [DecidableRel le] in
theorem told_ids {e : SubjectEntry N} {n : TreeNode N} (ids : n.connIds = n.byConn.keys) :
    (told c e n).connIds = (told c e n).byConn.keys := by
  rw [told_byConn, OrderedMap.keys_set, ← ids]
  unfold told TreeNode.listConn
  split
  · next listed => exact (if_pos (show c ∈ n.connIds from listed)).symm
  · next missing => exact (if_neg (show c ∉ n.connIds from missing)).symm

omit [DecidableRel le] in
theorem told_recompute {e : SubjectEntry N} {n : TreeNode N} : (told c e n).recompute = told c e n := by
  unfold told TreeNode.listConn
  split <;> rfl

theorem applyEntry_spec [Std.Total le] [IsTrans Str le] (linked : Linked le m) (leafy : LeafyBut m none) (c : Str)
    (e : SubjectEntry N) : Linked le (m.applyEntry le c e) ∧ LeafyBut (m.applyEntry le c e) none ∧
      ∀ d t, (m.applyEntry le c e).held d t = if d = c ∧ t = e.s then some e else m.held d t := by
  obtain ⟨m', found, entered⟩ : ∃ m', (if e.s ∈ m.nodes then (m, some e.s) else m.insert le e.s) = (m', some e.s) ∧
      Entered le e.s m m' := by
    split
    · next present => exact ⟨m, rfl, linked, fun t member _ => leafy t member nofun, present, fun _ _ => rfl⟩
    · exact insert_spec linked leafy e.s
  have result : m.applyEntry le c e = m'.update e.s (told c e) := by
    unfold applyEntry
    rw [found]
    exact update_update
  have children (t : Str) : ((m'.update e.s (told c e)).heap t).children = (m'.heap t).children := by
    rw [update_heap]
    split
    · next here =>
      rw [here]
      exact listConn_same TreeNode.children (fun _ _ => rfl) _
    · rfl
  rw [result]
  refine ⟨?_, fun t member _ childless => ?_, fun d t => ?_⟩
  · exact entered.linked.update e.s (fun _ => listConn_same TreeNode.fullSubject (fun _ _ => rfl) _)
      (fun _ => listConn_same TreeNode.segment (fun _ _ => rfl) _) (fun _ => listConn_same TreeNode.parent (fun _ _ => rfl) _)
      (fun _ => listConn_same TreeNode.children (fun _ _ => rfl) _) (told_ids (entered.linked.ids e.s)) fun _ => told_recompute
  · rw [children] at childless
    rw [update_heap]
    split
    · rw [told_byConn]
      exact OrderedMap.set_keys_ne_nil
    · next other => exact entered.leafy t member (fun same => other (Option.some.inj same)) childless
  · rw [← entered.held d t]
    unfold TreeModel.held
    rw [update_heap]
    by_cases here : t = e.s
    · subst here
      rw [if_pos (show e.s ∈ (m'.update e.s (told c e)).nodes from entered.member), if_pos rfl, told_byConn, OrderedMap.get_set,
        if_pos entered.member]
      simp only [and_true]
    · rw [if_neg fun both : d = c ∧ t = e.s => here both.2]
      simp only [if_neg here]
      rfl

end Insert

end TreeModel
end NatsExplorer.Client
