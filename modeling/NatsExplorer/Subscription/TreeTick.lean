import NatsExplorer.Subscription.TreeRemoval

/-! The tree's part of a tick: `refresh` touches the aggregates of the listed
nodes alone, `clearDirty` their flags. -/
namespace NatsExplorer.Subscription
open Go
namespace Tree
variable {R : Type}

/-- Only aggregates of listed nodes and the order of the list differ. -/
structure Refreshed (t t' : Tree R) : Prop where
  nodes : t'.nodes = t.nodes
  roots : t'.roots = t.roots
  next : t'.next = t.next
  dirty (r) : r ∈ t'.dirty ↔ r ∈ t.dirty
  heap (r) : ∃ total totalRate subjects, t'.heap r =
    { t.heap r with total := total, totalRate := totalRate, subjects := subjects }
  same {r} : r ∉ t.dirty → t'.heap r = t.heap r

/-- Flags of the listed nodes go and the list with them. -/
structure Cleared (t t' : Tree R) : Prop where
  nodes : t'.nodes = t.nodes
  roots : t'.roots = t.roots
  next : t'.next = t.next
  dirty : t'.dirty = []
  heap (r) : t'.heap r = { t.heap r with dirty := (t'.heap r).dirty }
  clean {r} : r ∈ t.dirty → (t'.heap r).dirty = false
  mono {r} : (t.heap r).dirty = false → (t'.heap r).dirty = false

variable {t t' : Tree R} {s : Str} {r : Ref}

theorem recompute_fold [Add R] (rt : Runtime) (l : List Ref) (t : Tree R) :
    let u := l.foldl (recompute rt) t
    u.nodes = t.nodes ∧ u.roots = t.roots ∧ u.next = t.next ∧ u.dirty = t.dirty ∧
      (∀ r, ∃ total totalRate subjects, u.heap r =
        { t.heap r with total := total, totalRate := totalRate, subjects := subjects }) ∧
      ∀ r, r ∉ l → u.heap r = t.heap r := by
  induction l generalizing t with
  | nil => exact ⟨rfl, rfl, rfl, rfl, fun r => ⟨_, _, _, rfl⟩, fun _ _ => rfl⟩
  | cons n l ih =>
    obtain ⟨nodes, roots, next, dirty, heap, same⟩ := ih (recompute rt t n)
    refine ⟨nodes, roots, next, dirty, fun r => ?_, fun r absent => ?_⟩
    · obtain ⟨total, totalRate, subjects, later⟩ := heap r
      by_cases here : r = n
      · subst here
        rw [List.foldl_cons, later, show (recompute rt t r).heap r = _ from Function.update_self ..]
        exact ⟨_, _, _, rfl⟩
      · rw [List.foldl_cons, later,
          show (recompute rt t n).heap r = _ from Function.update_of_ne here ..]
        exact ⟨_, _, _, rfl⟩
    · simp only [List.mem_cons, not_or] at absent
      rw [List.foldl_cons, same r absent.2]
      exact Function.update_of_ne absent.1 ..

theorem mem_deepestFirst (rt : Runtime) (t : Tree R) : r ∈ t.deepestFirst rt ↔ r ∈ t.dirty :=
  rt.mem_sortSlice

theorem refresh_dirty [Add R] (rt : Runtime) (t : Tree R) :
    (t.refresh rt).dirty = t.deepestFirst rt :=
  (recompute_fold rt _ _).2.2.2.1

theorem refresh_spec [Add R] (rt : Runtime) (t : Tree R) : Refreshed t (t.refresh rt) := by
  obtain ⟨nodes, roots, next, _, heap, same⟩ :=
    recompute_fold rt (t.deepestFirst rt) { t with dirty := t.deepestFirst rt }
  refine ⟨nodes, roots, next, fun r => ?_, heap, fun {r} absent => same r fun h => absent ?_⟩
  · rw [refresh_dirty]
    exact mem_deepestFirst rt t
  · exact (mem_deepestFirst rt t).mp h

theorem Refreshed.live (refreshed : Refreshed t t') : t'.Live s r ↔ t.Live s r := by
  simp only [Live, refreshed.nodes]

theorem Refreshed.linked (refreshed : Refreshed t t') (linked : Linked t) : Linked t' := by
  refine linked.transport refreshed.nodes refreshed.roots refreshed.next.ge fun s r _ => ?_
  obtain ⟨_, _, _, heap⟩ := refreshed.heap r
  rw [heap]
  exact ⟨rfl, rfl, rfl, rfl⟩

theorem Refreshed.marked (refreshed : Refreshed t t') (marked : Marked t) : Marked t' := by
  refine marked.transport refreshed.live.mp refreshed.next refreshed.dirty fun r => ?_
  obtain ⟨_, _, _, heap⟩ := refreshed.heap r
  rw [heap]
  exact ⟨rfl, rfl⟩

theorem Marked.unlisted (marked : Marked t) (linked : Linked t) (live : t.Live s r)
    (clean : (t.heap r).dirty = false) : r ∉ t.dirty := fun listed => by
  have flag := marked.flagged listed ((linked.subject live).symm ▸ live)
  rw [clean] at flag
  contradiction

/-- A refreshed tree is as out of date as before. -/
theorem Refreshed.grew (refreshed : Refreshed t t') (linked : Linked t) (marked : Marked t) :
    Grew t t' where
  keep := refreshed.live.mpr
  clean {s r} live clean := by
    have old := refreshed.live.mp live
    obtain ⟨_, _, _, heap⟩ := refreshed.heap r
    rw [heap] at clean
    exact ⟨old, refreshed.same (marked.unlisted linked old clean)⟩
  listedFrom listed := Or.inl ((refreshed.dirty _).mp listed)

theorem clear_fold (l : List Ref) (t : Tree R) :
    let u := l.foldl (fun t n => t.modify n fun node => { node with dirty := false }) t
    u.nodes = t.nodes ∧ u.roots = t.roots ∧ u.next = t.next ∧
      ∀ r, u.heap r = { t.heap r with dirty := (u.heap r).dirty } ∧
        (r ∈ l ∨ (t.heap r).dirty = false → (u.heap r).dirty = false) := by
  induction l generalizing t with
  | nil => exact ⟨rfl, rfl, rfl, fun r => ⟨rfl, fun h => h.resolve_left (by simp)⟩⟩
  | cons n l ih =>
    obtain ⟨nodes, roots, next, heap⟩ := ih (t.modify n fun node => { node with dirty := false })
    refine ⟨nodes, roots, next, fun r => ?_⟩
    obtain ⟨same, clean⟩ := heap r
    rw [List.foldl_cons]
    by_cases here : r = n
    · subst here
      have self : (t.modify r fun node => { node with dirty := false }).heap r =
        { t.heap r with dirty := false } := Function.update_self ..
      rw [self] at same clean
      exact ⟨same, fun _ => clean (Or.inr rfl)⟩
    · have other : (t.modify n fun node => { node with dirty := false }).heap r = t.heap r :=
        Function.update_of_ne here ..
      rw [other] at same clean
      exact ⟨same, fun h => clean (h.imp_left fun member =>
        (List.mem_cons.mp member).resolve_left here)⟩

theorem clearDirty_spec (t : Tree R) : Cleared t t.clearDirty := by
  obtain ⟨nodes, roots, next, heap⟩ := clear_fold t.dirty t
  exact ⟨nodes, roots, next, rfl, fun r => (heap r).1, fun listed => (heap _).2 (Or.inl listed),
    fun clean => (heap _).2 (Or.inr clean)⟩

theorem Cleared.live (cleared : Cleared t t') : t'.Live s r ↔ t.Live s r := by
  simp only [Live, cleared.nodes]

theorem Cleared.linked (cleared : Cleared t t') (linked : Linked t) : Linked t' := by
  refine linked.transport cleared.nodes cleared.roots cleared.next.ge fun s r _ => ?_
  rw [cleared.heap]
  exact ⟨rfl, rfl, rfl, rfl⟩

theorem Cleared.unflagged (cleared : Cleared t t') (marked : Marked t) (live : t'.Live s r) :
    (t'.heap r).dirty = false := by
  cases flag : (t.heap r).dirty with
  | false => exact cleared.mono flag
  | true => exact cleared.clean (marked.listed (cleared.live.mp live) flag)

theorem Cleared.marked (cleared : Cleared t t') (marked : Marked t) : Marked t' where
  fresh listed := by rw [cleared.dirty] at listed; cases listed
  cover listed := by rw [cleared.dirty] at listed; cases listed
  listed live flag := by rw [cleared.unflagged marked live] at flag; contradiction
  up live _ _ flag := by rw [cleared.unflagged marked live] at flag; contradiction

end Tree
end NatsExplorer.Subscription
