import Mathlib.Algebra.BigOperators.Group.Finset.Basic
import Mathlib.Algebra.Order.Interval.Finset.SuccPred
import Mathlib.Data.Fintype.BigOperators
import Mathlib.Data.Int.ConditionallyCompleteOrder
import Mathlib.Data.Int.Interval
import Mathlib.Data.Int.ModEq
import Mathlib.Algebra.BigOperators.Ring.Finset

/-! Counting in a window of the last `m` places of a line. A cell for each place modulo `m` is enough: moving on by one
place clears the cell it comes to, and what the cells hold together is what happened in the window. -/
namespace SlidingWindow
variable {R : Type*} [AddCommMonoidWithOne R] {m : ℕ} [NeZero m]

/-- The cell of a place. -/
def cell (m : ℕ) [NeZero m] (s : ℤ) : Fin m :=
  ⟨(s % m).toNat, by
    have positive : (0 : ℤ) < m := Int.natCast_pos.mpr (Nat.pos_of_neZero m)
    have := Int.emod_lt_of_pos s positive
    have := Int.emod_nonneg s positive.ne'
    omega⟩

theorem cell_eq_iff {s t : ℤ} : cell m s = cell m t ↔ s % m = t % m := by
  have positive : (0 : ℤ) < m := Int.natCast_pos.mpr (Nat.pos_of_neZero m)
  have := Int.emod_nonneg s positive.ne'
  have := Int.emod_nonneg t positive.ne'
  rw [cell, cell, Fin.mk.injEq]
  omega

/-- Places that are less than a turn apart have different cells. -/
theorem cell_inj {s t : ℤ} (same : cell m s = cell m t) (near : s - t < m) (near' : t - s < m) : s = t := by
  have turns : (m : ℤ) ∣ s - t := Int.ModEq.dvd (cell_eq_iff.mp same).symm
  have none : s - t = 0 := Int.eq_zero_of_abs_lt_dvd turns (abs_lt.mpr ⟨by omega, near⟩)
  omega

/-- The cells count what happened at each place of the window that ends now. -/
def Counts (cells : Fin m → R) (now : ℤ) (count : ℤ → ℕ) : Prop :=
  ∀ s, now - m < s → s ≤ now → cells (cell m s) = count s

variable {cells : Fin m → R} {now : ℤ} {count : ℤ → ℕ}

theorem counts_zero (none : ∀ s, now - m < s → count s = 0) : Counts (fun _ : Fin m => (0 : R)) now count := by
  intro s first _
  rw [none s first, Nat.cast_zero]

/-- The window moves on to a place where nothing happened yet. -/
theorem Counts.next (counts : Counts cells now count) (none : count (now + 1) = 0) :
    Counts (Function.update cells (cell m (now + 1)) 0) (now + 1) count := by
  intro s first last
  rcases last.eq_or_lt with rfl | before
  · rw [Function.update_self, none, Nat.cast_zero]
  · have other : cell m s ≠ cell m (now + 1) := fun same => by
      have := cell_inj same (by omega) (by omega)
      omega
    rw [Function.update_of_ne other]
    exact counts s (by omega) (by omega)

/-- Several places on. -/
theorem Counts.forward (counts : Counts cells now count) (none : ∀ s, now < s → count s = 0) (k : ℕ) :
    Counts ((List.range k).foldl (fun cells (i : ℕ) => Function.update cells (cell m (now + 1 + i)) 0) cells) (now + k) count := by
  induction k with
  | zero => simpa using counts
  | succ k ih =>
    rw [List.range_succ, List.foldl_append]
    have next := ih.next (none _ (by omega))
    rw [show now + k + 1 = now + 1 + (k : ℤ) by omega] at next
    rw [show now + ((k + 1 : ℕ) : ℤ) = now + 1 + (k : ℤ) by push_cast; omega]
    exact next

/-- Something happens now. -/
theorem Counts.add (counts : Counts cells now count) :
    Counts (Function.update cells (cell m now) (cells (cell m now) + 1)) now (Function.update count now (count now + 1)) := by
  intro s first last
  by_cases here : s = now
  · subst here
    rw [Function.update_self, Function.update_self, counts s first last, Nat.cast_succ]
  · have other : cell m s ≠ cell m now := fun same => here (cell_inj same (by omega) (by omega))
    rw [Function.update_of_ne other, Function.update_of_ne here]
    exact counts s first last

/-- The cells together hold what happened in the window. -/
theorem Counts.sum (counts : Counts cells now count) : ∑ i, cells i = ((∑ s ∈ Finset.Ioc (now - m) now, count s : ℕ) : R) := by
  have positive : (0 : ℤ) < m := Int.natCast_pos.mpr (Nat.pos_of_neZero m)
  rw [Nat.cast_sum]
  refine (Finset.sum_nbij (cell m) (fun _ _ => Finset.mem_univ _) ?_ ?_ ?_).symm
  · intro s first t second same
    rw [Finset.mem_coe, Finset.mem_Ioc] at first second
    exact cell_inj same (by omega) (by omega)
  · intro i _
    have small := Int.emod_lt_of_pos (now - i) positive
    have natural := Int.emod_nonneg (now - i) positive.ne'
    refine ⟨now - (now - i) % m, ?_, ?_⟩
    · rw [Finset.mem_coe, Finset.mem_Ioc]
      omega
    · have turn : (now - (now - i) % m) % m = i % m := by
        rw [Int.sub_emod, Int.emod_emod, ← Int.sub_emod, sub_sub_cancel]
      have inside : ((i : ℕ) : ℤ) % m = i := Int.emod_eq_of_lt (Int.natCast_nonneg _) (by exact_mod_cast i.isLt)
      apply Fin.ext
      change ((now - (now - i) % m) % m).toNat = i
      rw [turn, inside, Int.toNat_natCast]
  · intro s inside
    rw [Finset.mem_Ioc] at inside
    exact (counts s inside.1 inside.2).symm

/-- Things by their places: those in an interval are those of each place in it. -/
theorem sum_countP {α : Type*} (p : α → Bool) (place : α → ℤ) (l : List α) (a b : ℤ) :
    ∑ s ∈ Finset.Ioc a b, l.countP (fun x => p x ∧ place x = s) = l.countP fun x => p x ∧ a < place x ∧ place x ≤ b := by
  induction l with
  | nil => simp
  | cons x l ih =>
    simp only [List.countP_cons, Finset.sum_add_distrib, ih, decide_eq_true_eq]
    congr 1
    cases p x with
    | false => simp
    | true => simp only [true_and, Finset.sum_ite_eq, Finset.mem_Ioc]

end SlidingWindow
