import Mathlib.Algebra.Order.Ring.Nat
import Mathlib.Data.List.Perm.Basic
import Mathlib.Data.List.Pairwise
import Mathlib.Order.Defs.Unbundled

/-! Merging sources that each give their things in order. The sources wait in a
list whose first one has the next thing; it gives it and is put back, and the list
is settled anew. A walk stops when it has kept enough. -/
namespace Merge
variable {A C : Type*}

/-- What a source gives next, the source after that and everything it still gives. -/
structure Sources (A C : Type*) where
  cur : C → A
  back : C → Option C
  left : C → List A
  left_eq (c : C) : left c = cur c :: (back c).elim [] left

namespace Sources
variable (src : Sources A C) (settle : List C → List C)

/-- The sources after the first one has given what it has next. -/
def advance (c : C) (rest : List C) : List C := settle ((src.back c).toList ++ rest)

def walk (keep : A → Bool) : Nat → Nat → List C → List A
  | 0, _, _ => []
  | _ + 1, 0, _ => []
  | _ + 1, _ + 1, [] => []
  | fuel + 1, limit + 1, c :: rest =>
    let waiting := src.advance settle c rest
    if keep (src.cur c) then src.cur c :: walk keep fuel limit waiting
    else walk keep fuel (limit + 1) waiting

def merged : Nat → List C → List A
  | 0, _ => []
  | _ + 1, [] => []
  | fuel + 1, c :: rest => src.cur c :: merged fuel (src.advance settle c rest)

/-- How much the sources still give. -/
def size (waiting : List C) : Nat := (waiting.map fun c => (src.left c).length).sum

/-- The first source has what comes before everything the others have next. -/
def First (le : A → A → Prop) (waiting : List C) : Prop :=
  ∀ c rest, waiting = c :: rest → ∀ other ∈ rest, le (src.cur c) (src.cur other)

variable {src settle} {keep : A → Bool} {fuel limit : Nat} {waiting : List C}

/-- A walk is a part of the whole merge. -/
theorem walk_eq : src.walk settle keep fuel limit waiting =
    ((src.merged settle fuel waiting).filter keep).take limit := by
  induction fuel generalizing limit waiting with
  | zero => simp only [walk, merged, List.filter_nil, List.take_nil]
  | succ fuel ih =>
    cases limit with
    | zero => simp only [walk, List.take_zero]
    | succ limit =>
      cases waiting with
      | nil => simp only [walk, merged, List.filter_nil, List.take_nil]
      | cons c rest =>
        simp only [walk, merged, List.filter_cons]
        split
        · rw [ih, List.take_succ_cons]
        · rw [ih]

theorem size_cons (c : C) (rest : List C) : src.size (c :: rest) = (src.left c).length + src.size rest := by
  simp only [size, List.map_cons, List.sum_cons]

section Settled
variable (perm : ∀ l, (settle l).Perm l)
include perm

/-- Settling only reorders: what is left is the rest of the first source and the others. -/
theorem advance_left (c : C) (rest : List C) :
    ((src.advance settle c rest).flatMap src.left).Perm
      ((src.back c).elim [] src.left ++ rest.flatMap src.left) := by
  refine ((perm _).flatMap_right src.left).trans ?_
  cases src.back c with
  | none => exact .refl _
  | some c' => exact .of_eq (by simp)

theorem advance_size (c : C) (rest : List C) :
    src.size (src.advance settle c rest) + 1 = src.size (c :: rest) := by
  have same : src.size (src.advance settle c rest) = src.size ((src.back c).toList ++ rest) :=
    ((perm _).map _).sum_nat
  rw [same, size_cons, src.left_eq c, List.length_cons]
  cases src.back c with
  | none => simp only [Option.toList, List.nil_append, Option.elim, List.length_nil]; omega
  | some c' => simp only [Option.toList, List.singleton_append, size_cons, Option.elim]; omega

/-- With enough steps the merge gives everything. -/
theorem merged_perm (enough : src.size waiting ≤ fuel) :
    (src.merged settle fuel waiting).Perm (waiting.flatMap src.left) := by
  induction fuel generalizing waiting with
  | zero =>
    cases waiting with
    | nil => exact .refl _
    | cons c rest =>
      rw [size_cons, src.left_eq c, List.length_cons] at enough
      omega
  | succ fuel ih =>
    cases waiting with
    | nil => exact .refl _
    | cons c rest =>
      have smaller := src.advance_size perm c rest
      rw [merged, List.flatMap_cons, src.left_eq c, List.cons_append]
      exact ((ih (by omega)).trans (advance_left perm c rest)).cons _

/-- The merge gives nothing that no source has. -/
theorem mem_of_merged {a : A} (given : a ∈ src.merged settle fuel waiting) : a ∈ waiting.flatMap src.left := by
  induction fuel generalizing waiting with
  | zero => cases given
  | succ fuel ih =>
    cases waiting with
    | nil => cases given
    | cons c rest =>
      rw [List.flatMap_cons, src.left_eq c, List.cons_append]
      rcases List.mem_cons.mp given with rfl | later
      · exact List.mem_cons_self
      · exact List.mem_cons_of_mem _ ((advance_left perm c rest).mem_iff.mp (ih later))

variable {le : A → A → Prop} [IsTrans A le]

omit perm in
theorem le_left {c : C} (ordered : (src.left c).Pairwise le) {a : A} (later : le a (src.cur c)) :
    ∀ b ∈ src.left c, le a b := by
  intro b member
  rw [src.left_eq] at ordered member
  rcases List.mem_cons.mp member with rfl | member
  · exact later
  · exact IsTrans.trans _ _ _ later ((List.pairwise_cons.mp ordered).1 b member)

omit [IsTrans A le] in
theorem advance_ordered {c : C} {rest : List C} (ordered : ∀ x ∈ c :: rest, (src.left x).Pairwise le) :
    ∀ x ∈ src.advance settle c rest, (src.left x).Pairwise le := by
  intro x member
  rcases List.mem_append.mp ((perm _).mem_iff.mp member) with own | other
  · have here := ordered c List.mem_cons_self
    rw [src.left_eq, Option.mem_toList.mp own] at here
    exact (List.pairwise_cons.mp here).2
  · exact ordered x (List.mem_cons_of_mem _ other)

/-- If every source gives its things in order, so does the merge. -/
theorem merged_ordered (first : ∀ l, src.First le (settle l)) (root : src.First le waiting)
    (ordered : ∀ c ∈ waiting, (src.left c).Pairwise le) :
    (src.merged settle fuel waiting).Pairwise le := by
  induction fuel generalizing waiting with
  | zero => exact List.Pairwise.nil
  | succ fuel ih =>
    cases waiting with
    | nil => exact List.Pairwise.nil
    | cons c rest =>
      refine List.pairwise_cons.mpr ⟨fun a given => ?_, ih (first _) (advance_ordered perm ordered)⟩
      have left := (advance_left perm c rest).mem_iff.mp (mem_of_merged perm given)
      rcases List.mem_append.mp left with own | other
      · have here := ordered c List.mem_cons_self
        rw [src.left_eq] at here
        exact (List.pairwise_cons.mp here).1 a own
      · obtain ⟨x, member, holds⟩ := List.mem_flatMap.mp other
        have later : le (src.cur c) (src.cur x) := root c rest rfl x member
        exact le_left (ordered x (List.mem_cons_of_mem _ member)) later a holds

end Settled
end Sources
end Merge
