import Mathlib.Algebra.Order.Floor.Semifield
import Mathlib.Algebra.Order.BigOperators.Group.List
import Mathlib.Data.List.Flatten
import Mathlib.Data.Rat.Floor
import Mathlib.Order.Monotone.Basic

/-! A list cut into pieces at given positions. -/
namespace NatsExplorer.Cutting
variable {α : Type*}

/-- Where to cut: at the start, and each time further on. -/
structure Cuts where
  position : ℕ → ℕ
  zero : position 0 = 0
  rising : StrictMono position

/-- The part of a list between two positions. -/
def slice (l : List α) (i j : ℕ) : List α := (l.take j).drop i

section Slices
variable {l : List α} {i j : ℕ}

theorem slice_append_drop (ordered : i ≤ j) : slice l i j ++ l.drop j = l.drop i := by
  obtain ⟨k, rfl⟩ := Nat.exists_eq_add_of_le ordered
  rw [slice, List.drop_take, Nat.add_sub_cancel_left, ← List.drop_drop]
  exact List.take_append_drop k (l.drop i)

theorem slice_length : (slice l i j).length = min j l.length - i := by
  rw [slice, List.length_drop, List.length_take]

theorem slice_ne_nil (before : i < j) (within : i < l.length) : slice l i j ≠ [] :=
  List.ne_nil_of_length_pos (by rw [slice_length]; omega)

/-- Past the end there is nothing to cut off. -/
theorem slice_clipped : slice l i (min j l.length) = slice l i j := by
  rw [slice, slice]
  rcases Nat.le_total j l.length with within | past
  · rw [min_eq_left within]
  · rw [min_eq_right past, List.take_length, List.take_of_length_le past]

theorem slice_getLast? (before : i < j) (within : j ≤ l.length) : (slice l i j).getLast? = l[j - 1]? := by
  rw [List.getLast?_eq_getElem?, slice_length, min_eq_left within, slice, List.getElem?_drop, List.getElem?_take,
    if_pos (by omega)]
  congr 1
  omega

end Slices

namespace Cuts
variable (c : Cuts) (l : List α)

theorem le_position (b : ℕ) : b ≤ c.position b := c.rising.le_apply

/-- The pieces from one cut on. -/
def piecesFrom (b : ℕ) : List (List α) :=
  if c.position b < l.length then slice l (c.position b) (c.position (b + 1)) :: piecesFrom (b + 1) else []
termination_by l.length - b
decreasing_by
  have := c.le_position b
  omega

def pieces : List (List α) := c.piecesFrom l 0

variable {l}

theorem piecesFrom_of_lt {b : ℕ} (within : c.position b < l.length) :
    c.piecesFrom l b = slice l (c.position b) (c.position (b + 1)) :: c.piecesFrom l (b + 1) := by
  rw [piecesFrom, if_pos within]

theorem piecesFrom_of_le {b : ℕ} (past : l.length ≤ c.position b) : c.piecesFrom l b = [] := by
  rw [piecesFrom, if_neg (not_lt.mpr past)]

/-- Nothing is lost and nothing is there twice. -/
theorem piecesFrom_flatten (b : ℕ) : (c.piecesFrom l b).flatten = l.drop (c.position b) := by
  fun_induction piecesFrom c l b with
  | case1 b within ih =>
    rw [List.flatten_cons, ih]
    exact slice_append_drop (c.rising b.lt_succ_self).le
  | case2 b past =>
    rw [List.drop_of_length_le (not_lt.mp past)]
    rfl

theorem pieces_flatten : (c.pieces l).flatten = l := by
  rw [pieces, piecesFrom_flatten, c.zero, List.drop_zero]

theorem piecesFrom_ne_nil {b : ℕ} {piece : List α} (there : piece ∈ c.piecesFrom l b) : piece ≠ [] := by
  fun_induction piecesFrom c l b with
  | case1 b within ih =>
    rcases List.mem_cons.mp there with rfl | there
    · exact slice_ne_nil (c.rising b.lt_succ_self) within
    · exact ih there
  | case2 b past => cases there

/-- The list is used up by the first cut that is not within it. -/
theorem piecesFrom_length {n : ℕ} (enough : l.length ≤ c.position n) (b : ℕ) : (c.piecesFrom l b).length ≤ n - b := by
  fun_induction piecesFrom c l b with
  | case1 b within ih =>
    have before : b < n := c.rising.lt_iff_lt.mp (within.trans_le enough)
    rw [List.length_cons]
    omega
  | case2 b past => exact Nat.zero_le _

theorem pieces_length {n : ℕ} (enough : l.length ≤ c.position n) : (c.pieces l).length ≤ n := c.piecesFrom_length enough 0

/-- Where the list ends with a cut, every piece before it is a full one. -/
theorem piecesFrom_full {n : ℕ} (full : c.position n = l.length) (b : ℕ) :
    c.piecesFrom l b = (List.range' b (n - b)).map fun b => slice l (c.position b) (c.position (b + 1)) := by
  fun_induction piecesFrom c l b with
  | case1 b within ih =>
    have before : b < n := c.rising.lt_iff_lt.mp (full ▸ within)
    have more : n - b = (n - (b + 1)) + 1 := by omega
    rw [ih, more]
    rfl
  | case2 b past =>
    have after : n ≤ b := c.rising.le_iff_le.mp (full ▸ not_lt.mp past)
    rw [Nat.sub_eq_zero_of_le after]
    rfl

theorem pieces_full {n : ℕ} (full : c.position n = l.length) :
    c.pieces l = (List.range n).map fun b => slice l (c.position b) (c.position (b + 1)) := by
  rw [pieces, piecesFrom_full c full, List.range_eq_range']
  rfl

/-- Cuts at a fixed distance. -/
def even (n : ℕ) (positive : 0 < n) : Cuts where
  position b := b * n
  zero := Nat.zero_mul n
  rising := strictMono_nat_of_lt_succ fun b => by
    rw [Nat.succ_mul]
    exact Nat.lt_add_of_pos_right positive

theorem even_length {n : ℕ} (positive : 0 < n) {b : ℕ} {piece : List α} (there : piece ∈ (even n positive).piecesFrom l b) :
    piece.length ≤ n := by
  fun_induction piecesFrom (even n positive) l b with
  | case1 b within ih =>
    rcases List.mem_cons.mp there with rfl | there
    · rw [slice_length]
      have next : (even n positive).position (b + 1) = b * n + n := Nat.succ_mul b n
      have here : (even n positive).position b = b * n := rfl
      omega
    · exact ih there
  | case2 b past => cases there

/-- Cuts a fraction apart, but at least one element. -/
def scaled (size : ℚ) (large : 1 ≤ size) : Cuts where
  position b := ⌊(b : ℚ) * size⌋₊
  zero := by rw [Nat.cast_zero, zero_mul, Nat.floor_zero]
  rising := strictMono_nat_of_lt_succ fun b => by
    have natural : (0 : ℚ) ≤ b * size := mul_nonneg (Nat.cast_nonneg b) (zero_le_one.trans large)
    have next : (b : ℚ) * size + 1 ≤ (b + 1 : ℕ) * size := by
      rw [Nat.cast_add_one, add_mul, one_mul]
      gcongr
    calc ⌊(b : ℚ) * size⌋₊ < ⌊(b : ℚ) * size⌋₊ + 1 := Nat.lt_succ_self _
      _ = ⌊(b : ℚ) * size + 1⌋₊ := (Nat.floor_add_one natural).symm
      _ ≤ ⌊((b + 1 : ℕ) : ℚ) * size⌋₊ := Nat.floor_le_floor next

/-- A list divided by a number: the cuts are whole quotients. -/
theorem scaled_quotient {m n : ℕ} (large : 1 ≤ (m : ℚ) / n) (b : ℕ) : (scaled (m / n) large).position b = b * m / n := by
  have product : (b : ℚ) * (m / n) = ((b * m : ℕ) : ℚ) / n := by
    rw [Nat.cast_mul, mul_div_assoc]
  exact (congrArg Nat.floor product).trans (Nat.floor_div_eq_div (K := ℚ) (b * m) n)

end Cuts

section Chosen
variable {β : Type*}

/-- What is chosen from the pieces in turn is chosen from the whole. -/
theorem flatMap_sublist {pieces : List β} {part choice : β → List α} (chosen : ∀ piece ∈ pieces, (choice piece).Sublist (part piece)) :
    (pieces.flatMap choice).Sublist (pieces.map part).flatten := by
  rw [← List.flatMap_def]
  exact List.Sublist.flatMap_right pieces chosen

theorem flatMap_length {pieces : List β} {choice : β → List α} {k : ℕ} (few : ∀ piece ∈ pieces, (choice piece).length ≤ k) :
    (pieces.flatMap choice).length ≤ pieces.length * k := by
  have total := List.sum_le_card_nsmul (pieces.map fun piece => (choice piece).length) k (List.forall_mem_map.mpr few)
  rwa [List.length_flatMap, ← Nat.nsmul_eq_mul, ← List.length_map fun piece => (choice piece).length]

end Chosen

end NatsExplorer.Cutting
