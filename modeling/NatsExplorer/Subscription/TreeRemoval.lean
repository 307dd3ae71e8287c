import NatsExplorer.Subscription.TreeOperations

/-! `remove` unlinks upwards until a branch has to stay, which is then marked;
`newTree` starts over. -/
namespace NatsExplorer.Subscription
open Go
namespace Tree
variable {R : Type} {t t' u : Tree R} {s p seg : Str} {r q n c cur : Ref}

theorem unlink_nodes (linked : Linked t) (live : t.Live s cur) :
    (t.unlink cur).nodes = t.nodes.erase s := by
  simp only [unlink, linked.subject live]
  cases (t.heap cur).parent <;> rfl

theorem unlink_live (linked : Linked t) (live : t.Live s cur) :
    (t.unlink cur).Live p r ↔ p ≠ s ∧ t.Live p r := by
  unfold Live
  rw [unlink_nodes linked live]
  by_cases same : p = s
  · subst same
    simp [AList.lookup_erase]
  · rw [AList.lookup_erase_ne same]
    simp [same]

theorem unlink_dirty : (t.unlink cur).dirty = t.dirty := by
  simp only [unlink]
  cases (t.heap cur).parent <;> rfl

theorem unlink_next : (t.unlink cur).next = t.next := by
  simp only [unlink]
  cases (t.heap cur).parent <;> rfl

theorem unlink_roots (linked : Linked t) (live : t.Live s cur) :
    (t.unlink cur).roots = match parentSubject s with
      | some _ => t.roots
      | none => t.roots.erase s := by
  simp only [unlink, linked.subject live, linked.parent live]
  cases above : parentSubject s with
  | none => rfl
  | some p =>
    obtain ⟨q, liveQ⟩ := linked.closed live above
    simp only [Option.bind_some, show t.nodes.lookup p = some q from liveQ]
    rfl

theorem unlink_heap_other (above : (t.heap cur).parent ≠ some r) :
    (t.unlink cur).heap r = t.heap r := by
  simp only [unlink]
  cases found : (t.heap cur).parent with
  | none => rfl
  | some q =>
    have : r ≠ q := fun same => above (by rw [found, same])
    exact Function.update_of_ne this ..

theorem unlink_heap_parent (linked : Linked t) (live : t.Live s cur)
    (above : (t.heap cur).parent = some q) : (t.unlink cur).heap q =
      { t.heap q with children := (t.heap q).children.erase (lastSegment s) } := by
  simp only [unlink, above, linked.subject live]
  exact Function.update_self ..

theorem unlink_heap (linked : Linked t) (live : t.Live s cur) (r : Ref) :
    ∃ children, (t.unlink cur).heap r = { t.heap r with children := children } := by
  by_cases above : (t.heap cur).parent = some r
  · exact ⟨_, unlink_heap_parent linked live above⟩
  · exact ⟨_, unlink_heap_other above⟩

/-- No node is left without the one above it. -/
def Leaf (t : Tree R) (s : Str) : Prop := ∀ p r, parentSubject p = some s → ¬ t.Live p r

theorem leaf_of_empty (linked : Linked t) (live : t.Live s cur)
    (empty : ¬ 0 < (t.heap cur).children.keys.length) : Leaf t s := by
  intro p r above liveP
  obtain ⟨seg, rfl, dotless⟩ := parentSubject_eq_some.mp above
  have found := (linked.children live).mpr ⟨dotless, liveP⟩
  have member : seg ∈ (t.heap cur).children :=
    AList.lookup_isSome.mp (by rw [found]; rfl)
  exact empty (List.length_pos_of_mem (AList.mem_keys.mp member))

theorem unlink_children (linked : Linked t) (live : t.Live s cur)
    (liveR : (t.unlink cur).Live p r) :
    ((t.unlink cur).heap r).children.lookup seg = some c ↔
      '.' ∉ seg ∧ (t.unlink cur).Live (child p seg) c := by
  obtain ⟨ne, liveR⟩ := (unlink_live linked live).mp liveR
  rw [unlink_live linked live]
  by_cases above : (t.heap cur).parent = some r
  · rw [unlink_heap_parent linked live above]
    -- the erased key is the last segment of the node that goes
    have parentEq := linked.parent live
    rw [above] at parentEq
    obtain ⟨p', aboveS, liveP'⟩ := Option.bind_eq_some_iff.mp parentEq.symm
    cases linked.inj liveR liveP'
    obtain ⟨seg', rfl, dotless'⟩ := parentSubject_eq_some.mp aboveS
    rw [lastSegment_child dotless']
    by_cases same : seg = seg'
    · subst same
      rw [AList.lookup_erase]
      simp
    · rw [AList.lookup_erase_ne same, linked.children liveR]
      constructor
      · rintro ⟨dotless, liveC⟩
        exact ⟨dotless, fun h => same (child_inj dotless dotless' h).2, liveC⟩
      · rintro ⟨dotless, _, liveC⟩
        exact ⟨dotless, liveC⟩
  · rw [unlink_heap_other above, linked.children liveR]
    constructor
    · rintro ⟨dotless, liveC⟩
      refine ⟨dotless, ?_, liveC⟩
      rintro rfl
      apply above
      rw [linked.parent live, parentSubject_child dotless]
      exact liveR
    · rintro ⟨dotless, _, liveC⟩
      exact ⟨dotless, liveC⟩

theorem unlink_linked (linked : Linked t) (live : t.Live s cur) (leaf : Leaf t s) :
    Linked (t.unlink cur) := by
  have lookup : ∀ {p m : Str} {r : Ref}, t.Live p r → parentSubject p = some m →
      (t.unlink cur).nodes.lookup m = t.nodes.lookup m := by
    intro p m r liveP above
    rw [unlink_nodes linked live, AList.lookup_erase_ne]
    rintro rfl
    exact leaf p r above liveP
  have old : ∀ {p : Str} {r : Ref}, (t.unlink cur).Live p r → t.Live p r :=
    fun h => ((unlink_live linked live).mp h).2
  constructor
  · intro p r h
    rw [unlink_next]
    exact linked.alloc (old h)
  · intro p r h
    obtain ⟨children, heap⟩ := unlink_heap linked live r
    rw [heap]
    exact linked.subject (old h)
  · intro p r h
    obtain ⟨children, heap⟩ := unlink_heap linked live r
    rw [heap]
    have parentEq := linked.parent (old h)
    cases above : parentSubject p with
    | none => simpa [above] using parentEq
    | some m => simpa [above, lookup (old h) above] using parentEq
  · intro p r m h above
    obtain ⟨q, liveQ⟩ := linked.closed (old h) above
    exact ⟨q, (lookup (old h) above).trans liveQ⟩
  · intro p r h root
    obtain ⟨children, heap⟩ := unlink_heap linked live r
    rw [heap]
    exact linked.depthRoot (old h) root
  · intro p r m q h above h'
    obtain ⟨children, heap⟩ := unlink_heap linked live r
    obtain ⟨children', heap'⟩ := unlink_heap linked live q
    rw [heap, heap']
    exact linked.depthChild (old h) above (old h')
  · exact fun h => unlink_children linked live h
  · intro seg c
    rw [unlink_roots linked live, unlink_live linked live]
    cases above : parentSubject s with
    | none =>
      by_cases same : seg = s
      · subst same
        simp [AList.lookup_erase]
      · simp only [AList.lookup_erase_ne same, linked.roots, same, ne_eq, not_false_eq_true,
          true_and]
    | some m =>
      simp only [linked.roots]
      constructor
      · rintro ⟨dotless, liveC⟩
        refine ⟨dotless, ?_, liveC⟩
        rintro rfl
        rw [parentSubject_root dotless] at above
        contradiction
      · rintro ⟨dotless, _, liveC⟩
        exact ⟨dotless, liveC⟩

theorem unlink_marked (linked : Linked t) (marked : Marked t) (live : t.Live s cur) :
    Marked (t.unlink cur) := by
  refine marked.transport (fun h => ((unlink_live linked live).mp h).2) unlink_next
    (by simp only [unlink_dirty, implies_true]) ?_
  intro r
  obtain ⟨children, heap⟩ := unlink_heap linked live r
  rw [heap]
  exact ⟨rfl, rfl⟩

/-- `Shrunk`, except that the cursor of a loop may have changed. -/
def ShrunkBut (cursor : Option Ref) (t t' : Tree R) : Prop :=
  ∀ s r, t'.Live s r → (t'.heap r).dirty = false → cursor ≠ some r →
    t.Live s r ∧ t'.heap r = t.heap r

theorem removeUp_spec (fuel : Nat) (cursor : Option Ref) (linked : Linked u) (marked : Marked u)
    (live : ∀ r, cursor = some r → ∃ s, u.Live s r) (shrunk : ShrunkBut cursor t u)
    (enough : ∀ r, cursor = some r → (u.heap r).depth < fuel) :
    Linked (removeUp fuel cursor u) ∧ Marked (removeUp fuel cursor u) ∧
      Shrunk t (removeUp fuel cursor u) := by
  induction fuel generalizing cursor u with
  | zero =>
    cases cursor with
    | none => exact ⟨linked, marked, ⟨fun h clean => shrunk _ _ h clean (by simp)⟩⟩
    | some cur => exact absurd (enough cur rfl) (by omega)
  | succ fuel ih =>
    cases cursor with
    | none => exact ⟨linked, marked, ⟨fun h clean => shrunk _ _ h clean (by simp)⟩⟩
    | some cur =>
      obtain ⟨s, liveCur⟩ := live cur rfl
      simp only [removeUp]
      split
      · obtain ⟨flagged, final, dirtyCur⟩ :=
          markDirty_spec linked liveCur (marked.weaken (some cur))
        refine ⟨flagged.linked linked, final, ⟨fun {s r} h clean => ?_⟩⟩
        have same := flagged.same_of_clean clean
        have other : some cur ≠ some r := by
          rintro ⟨⟩
          rw [dirtyCur] at clean
          contradiction
        obtain ⟨old, heap⟩ := shrunk s r (flagged.live.mp h) (same ▸ clean) other
        exact ⟨old, same.trans heap⟩
      · rename_i empty
        have leaf := leaf_of_empty linked liveCur (fun h => empty (Or.inl h))
        have parentLive : ∀ q, (u.heap cur).parent = some q →
            ∃ p, u.Live p q ∧ parentSubject s = some p := by
          intro q found
          rw [linked.parent liveCur] at found
          obtain ⟨p, above, liveQ⟩ := Option.bind_eq_some_iff.mp found
          exact ⟨p, liveQ, above⟩
        refine ih (u.heap cur).parent (unlink_linked linked liveCur leaf)
          (unlink_marked linked marked liveCur) ?_ ?_ ?_
        · intro q found
          obtain ⟨p, liveQ, above⟩ := parentLive q found
          refine ⟨p, (unlink_live linked liveCur).mpr ⟨?_, liveQ⟩⟩
          rintro rfl
          have := parentSubject_length above
          omega
        · intro p r h clean other
          obtain ⟨ne, h⟩ := (unlink_live linked liveCur).mp h
          rw [unlink_heap_other other] at clean ⊢
          refine shrunk p r h clean ?_
          rintro ⟨⟩
          exact ne (linked.inj h liveCur)
        · intro q found
          obtain ⟨p, liveQ, above⟩ := parentLive q found
          obtain ⟨children, heap⟩ := unlink_heap linked liveCur q
          have := linked.depthChild liveCur above liveQ
          have := enough cur rfl
          rw [heap]
          change (u.heap q).depth < fuel
          omega

theorem remove_spec [Zero R] (s : Str) (linked : Linked t) (marked : Marked t) :
    Linked (t.remove s) ∧ Marked (t.remove s) ∧ Shrunk t (t.remove s) := by
  unfold remove
  split
  · exact ⟨linked, marked, .refl t⟩
  · rename_i n found
    obtain ⟨linked₂, marked₂, other⟩ := modify_spec linked marked found
      (fun node => { node with count := 0, rate := 0, last := none })
      (fun _ => ⟨rfl, rfl, rfl, rfl, rfl⟩)
    refine removeUp_spec _ (some n) linked₂ marked₂ ?_ ?_ ?_
    · rintro r ⟨⟩
      exact ⟨s, found⟩
    · intro p r live _ ne
      exact ⟨live, other r fun same => ne (by rw [same])⟩
    · rintro r ⟨⟩
      simp only [modify, Function.update_self]
      omega

theorem remove_all_spec [Zero R] (gone : List Str) (linked : Linked t) (marked : Marked t) :
    Linked (gone.foldl remove t) ∧ Marked (gone.foldl remove t) ∧ Shrunk t (gone.foldl remove t) := by
  induction gone generalizing t with
  | nil => exact ⟨linked, marked, .refl t⟩
  | cons s rest ih =>
    obtain ⟨linked₁, marked₁, shrunk₁⟩ := remove_spec s linked marked
    obtain ⟨linked₂, marked₂, shrunk₂⟩ := ih linked₁ marked₁
    exact ⟨linked₂, marked₂, shrunk₁.trans shrunk₂⟩

theorem newTree_empty [Zero R] : ¬ (newTree : Tree R).Live s r := fun live => by cases live

theorem newTree_linked [Zero R] : Linked (newTree : Tree R) where
  alloc live := absurd live newTree_empty
  subject live := absurd live newTree_empty
  parent live := absurd live newTree_empty
  closed live := absurd live newTree_empty
  depthRoot live := absurd live newTree_empty
  depthChild live := absurd live newTree_empty
  children live := absurd live newTree_empty
  roots := ⟨fun found => absurd found (by simp [newTree]), fun live => absurd live.2 newTree_empty⟩

theorem newTree_marked [Zero R] : Marked (newTree : Tree R) where
  fresh listed := by cases listed
  cover listed := by cases listed
  listed live := absurd live newTree_empty
  up live := absurd live newTree_empty

end Tree
end NatsExplorer.Subscription
