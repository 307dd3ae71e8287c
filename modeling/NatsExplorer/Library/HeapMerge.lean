import NatsExplorer.Go.Heap
import NatsExplorer.Library.Merge

/-! Merging with a heap. The sources wait in a heap by what they give next; the first gives it, and is fixed in its place,
or leaves the heap if that was its last. What comes out is in order, whatever the layout of the heap. -/
namespace Merge.Sources
open Go
variable {A C : Type} (src : Sources A C) (less : A → A → Bool) {m : ℕ}

/-- The order of the heap. -/
def sooner (c d : C) : Bool := less (src.cur c) (src.cur d)

/-- What the sources still give. -/
def remaining (h : Fin m → C) : List A := (List.ofFn h).flatMap src.left

/-- The heap after its first source gave what it has next. -/
def next (h : Fin (m + 1) → C) : (n : ℕ) × (Fin n → C) :=
  match src.back (h 0) with
  | some c => ⟨m + 1, heap.fix (src.sooner less) (Function.update h 0 c) 0⟩
  | none => ⟨m, (heap.pop (src.sooner less) h).1⟩

/-- Only what the first source gave is gone. -/
theorem next_remaining (h : Fin (m + 1) → C) :
    (src.cur (h 0) :: src.remaining (src.next less h).2).Perm (src.remaining h) := by
  have first := src.left_eq (h 0)
  have split : src.remaining h = src.left (h 0) ++ (List.ofFn fun i : Fin m => h i.succ).flatMap src.left := by
    rw [remaining, List.ofFn_succ, List.flatMap_cons]
  unfold next
  cases back : src.back (h 0) with
  | some c =>
    have moved := (heap.fix_perm (src.sooner less) h c).flatMap_right src.left
    rw [split, first, back]
    exact (moved.trans (.of_eq List.flatMap_cons)).cons _
  | none =>
    have moved := (heap.pop_perm (src.sooner less) h).1.flatMap_right src.left
    rw [List.flatMap_cons, first, back] at moved
    exact moved

theorem next_length (h : Fin (m + 1) → C) : (src.remaining (src.next less h).2).length + 1 = (src.remaining h).length :=
  (src.next_remaining less h).length_eq

/-- Takes what is kept of what the sources give, up to a limit. -/
def walkHeap (keep : A → Bool) : (m : ℕ) → (Fin m → C) → ℕ → List A
  | 0, _, _ => []
  | _ + 1, _, 0 => []
  | _ + 1, h, limit + 1 =>
    if keep (src.cur (h 0)) then src.cur (h 0) :: walkHeap keep _ (src.next less h).2 limit
    else walkHeap keep _ (src.next less h).2 (limit + 1)
termination_by _ h _ => (src.remaining h).length
decreasing_by
  all_goals
    have := src.next_length less h
    omega

/-- Everything the sources give, as it comes out. -/
def drained : (m : ℕ) → (Fin m → C) → List A
  | 0, _ => []
  | _ + 1, h => src.cur (h 0) :: drained _ (src.next less h).2
termination_by _ h => (src.remaining h).length
decreasing_by
  have := src.next_length less h
  omega

/-- A walk takes the first of what is kept. -/
theorem walkHeap_eq (keep : A → Bool) (h : Fin m → C) (limit : ℕ) :
    src.walkHeap less keep m h limit = ((src.drained less m h).filter keep).take limit := by
  fun_induction walkHeap src less keep m h limit with
  | case1 => rw [drained, List.filter_nil, List.take_nil]
  | case2 => rw [List.take_zero]
  | case3 m h limit kept ih => rw [drained, List.filter_cons_of_pos kept, List.take_succ_cons, ih]
  | case4 m h limit passed ih => rw [drained, List.filter_cons_of_neg passed, ih]

/-- Nothing is lost, whatever the layout of the heap. -/
theorem drained_perm (h : Fin m → C) : (src.drained less m h).Perm (src.remaining h) := by
  fun_induction drained src less m h with
  | case1 => exact .refl _
  | case2 m h ih => exact (ih.cons _).trans (src.next_remaining less h)

variable {src less}

theorem sooner_weak (weak : StrictWeak less) : StrictWeak (src.sooner less) where
  asymm _ _ := weak.asymm _ _
  trans _ _ _ := weak.trans _ _ _

theorem next_ordered (weak : StrictWeak less) {h : Fin (m + 1) → C} (sorted : heap.Ordered (src.sooner less) h (m + 1) 0) :
    heap.Ordered (src.sooner less) (src.next less h).2 (src.next less h).1 0 := by
  unfold next
  cases src.back (h 0) with
  | some c => exact heap.fix_ordered (sooner_weak weak) sorted c
  | none => exact heap.pop_ordered (sooner_weak weak) sorted

/-- What a source gives comes in order. -/
def InOrder (src : Sources A C) (less : A → A → Bool) (c : C) : Prop := (src.left c).Pairwise fun a b => less b a = false

theorem next_inOrder {h : Fin (m + 1) → C} (each : ∀ i, src.InOrder less (h i)) (i : Fin (src.next less h).1) :
    src.InOrder less ((src.next less h).2 i) := by
  have others (c : C) (member : c ∈ List.ofFn h) : src.InOrder less c := by
    obtain ⟨i, rfl⟩ := List.mem_ofFn.mp member
    exact each i
  have here : (src.next less h).2 i ∈ List.ofFn (src.next less h).2 := List.mem_ofFn.mpr ⟨i, rfl⟩
  generalize (src.next less h).2 i = c at here
  unfold next at here
  cases back : src.back (h 0) with
  | some d =>
    rw [back] at here
    rcases List.mem_cons.mp ((heap.fix_perm (src.sooner less) h d).mem_iff.mp here) with rfl | other
    · have first := each 0
      rw [InOrder, src.left_eq, back] at first
      exact (List.pairwise_cons.mp first).2
    · refine others c ?_
      rw [List.ofFn_succ]
      exact List.mem_cons_of_mem _ other
  | none =>
    rw [back] at here
    exact others c ((heap.pop_perm (src.sooner less) h).1.mem_iff.mp (List.mem_cons_of_mem _ here))

/-- The first source of a heap has what comes after nothing of all that is left. -/
theorem first_of_all (weak : StrictWeak less) {h : Fin (m + 1) → C} (sorted : heap.Ordered (src.sooner less) h (m + 1) 0)
    (each : ∀ i, src.InOrder less (h i)) {a : A} (given : a ∈ src.remaining h) : less a (src.cur (h 0)) = false := by
  obtain ⟨c, member, within⟩ := List.mem_flatMap.mp given
  obtain ⟨j, rfl⟩ := List.mem_ofFn.mp member
  have root : less (src.cur (h j)) (src.cur (h 0)) = false := heap.root_first (sooner_weak weak) sorted j
  have order := each j
  rw [InOrder, src.left_eq] at order
  rw [src.left_eq] at within
  rcases List.mem_cons.mp within with rfl | later
  · exact root
  · exact weak.trans _ _ _ ((List.pairwise_cons.mp order).1 a later) root

/-- From a heap of sources that are in order, everything comes out in order. -/
theorem drained_ordered (weak : StrictWeak less) {h : Fin m → C} (sorted : heap.Ordered (src.sooner less) h m 0)
    (each : ∀ i, src.InOrder less (h i)) : (src.drained less m h).Pairwise fun a b => less b a = false := by
  fun_induction drained src less m h with
  | case1 => exact .nil
  | case2 m h ih =>
    refine List.pairwise_cons.mpr ⟨fun a later => ?_, ih (next_ordered weak sorted) (next_inOrder each)⟩
    have left := (drained_perm src less (src.next less h).2).mem_iff.mp later
    exact first_of_all weak sorted each ((src.next_remaining less h).mem_iff.mp (List.mem_cons_of_mem _ left))

end Merge.Sources
