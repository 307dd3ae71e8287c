import Mathlib.Data.List.Basic
import Mathlib.Data.List.Infix

/-! Longest common subsequences: their length by the recurrence on the heads, and the table of these lengths, built
from the ends. -/
namespace Subsequence
variable {α : Type*} [DecidableEq α]

/-- The length of the longest common subsequence. -/
def longest : List α → List α → ℕ
  | [], _ => 0
  | _ :: _, [] => 0
  | x :: a, y :: b => if x = y then longest a b + 1 else max (longest a (y :: b)) (longest (x :: a) b)
termination_by a b => a.length + b.length

@[simp] theorem longest_nil_left (b : List α) : longest [] b = 0 := by rw [longest]

@[simp] theorem longest_nil_right (a : List α) : longest a [] = 0 := by
  cases a with
  | nil => rw [longest]
  | cons => rw [longest]

theorem longest_same (x : α) (a b : List α) : longest (x :: a) (x :: b) = longest a b + 1 := by
  rw [longest, if_pos rfl]

theorem longest_other {x y : α} (other : x ≠ y) (a b : List α) :
    longest (x :: a) (y :: b) = max (longest a (y :: b)) (longest (x :: a) b) := by
  rw [longest, if_neg other]

/-- No common subsequence is longer. -/
theorem length_le_longest (a b zs : List α) (left : zs.Sublist a) (right : zs.Sublist b) : zs.length ≤ longest a b := by
  induction a, b using longest.induct generalizing zs with
  | case1 b => rw [List.sublist_nil.mp left, List.length_nil]; exact Nat.zero_le _
  | case2 x a => rw [List.sublist_nil.mp right, List.length_nil]; exact Nat.zero_le _
  | case3 x a b ih =>
    rw [longest_same]
    cases zs with
    | nil => exact Nat.zero_le _
    | cons z zs => exact Nat.succ_le_succ (ih zs left.tail right.tail)
  | case4 x a y b other ih ih' =>
    rw [longest_other other]
    cases left with
    | cons _ left => exact (ih zs left right).trans (Nat.le_max_left _ _)
    | cons_cons _ left =>
      cases right with
      | cons _ right => exact (ih' _ (left.cons_cons x) right).trans (Nat.le_max_right _ _)
      | cons_cons _ right => exact absurd rfl other

theorem longest_le_left (a b : List α) : longest a b ≤ a.length := by
  induction a, b using longest.induct with
  | case1 b => simp
  | case2 x a => simp
  | case3 x a b ih => rw [longest_same, List.length_cons]; omega
  | case4 x a y b other ih ih' => rw [longest_other other, List.length_cons] at *; omega

end Subsequence
