import Mathlib.Data.List.Basic
import Mathlib.Data.List.Range
import Mathlib.Data.List.Rotate
import Mathlib.Data.Nat.ModEq

/-! Reading a circular buffer as a list. -/
namespace Circular
variable {α : Type}

/-- Reading positions `0 .. m - 1`, all of which hold something. -/
theorem filterMap_range {f : Nat → Option α} (m : Nat) (filled : ∀ i < m, (f i).isSome = true) :
    ((List.range m).filterMap f).length = m ∧ ∀ i < m, ((List.range m).filterMap f)[i]? = f i := by
  induction m with
  | zero => simp
  | succ m ih =>
    obtain ⟨length, each⟩ := ih fun i below => filled i (by omega)
    obtain ⟨a, last⟩ := Option.isSome_iff_exists.mp (filled m (by omega))
    rw [List.range_succ, List.filterMap_append]
    simp only [List.filterMap_cons, last, List.filterMap_nil]
    refine ⟨by simp [length], fun i below => ?_⟩
    by_cases here : i < m
    · rw [List.getElem?_append_left (by omega)]
      exact each i here
    · have same : i = m := by omega
      subst same
      rw [List.getElem?_append_right (by omega), length, Nat.sub_self, last]
      rfl

theorem filterMap_range_eq {f : Nat → Option α} {l : List α} (each : ∀ i < l.length, f i = l[i]?) :
    (List.range l.length).filterMap f = l := by
  have filled : ∀ i < l.length, (f i).isSome = true := by
    intro i below
    rw [each i below, List.getElem?_eq_getElem below]
    rfl
  obtain ⟨length, reads⟩ := filterMap_range l.length filled
  refine List.ext_getElem? fun i => ?_
  by_cases below : i < l.length
  · rw [reads i below, each i below]
  · rw [List.getElem?_eq_none (by omega), List.getElem?_eq_none (by omega)]

/-- Two positions of a full turn are different cells. -/
theorem cell_inj {capacity head i j : Nat} (hi : i < capacity) (hj : j < capacity)
    (same : (head + i) % capacity = (head + j) % capacity) : i = j := by
  have cancel : i % capacity = j % capacity := Nat.ModEq.add_left_cancel' head same
  rwa [Nat.mod_eq_of_lt hi, Nat.mod_eq_of_lt hj] at cancel

/-- Moving the head on by one cell shifts every position. -/
theorem cell_advance (capacity head i : Nat) :
    ((head + 1) % capacity + i) % capacity = (head + (i + 1)) % capacity := by
  rw [Nat.mod_add_mod]
  congr 1
  omega

/-- A ring of `w` cells, written one after the other, has the latest of what was written. -/
structure Latest (w : Nat) (ring l : List α) : Prop where
  size : ring.length = w
  holds : ∀ i < l.length, l.length ≤ i + w → ring[i % w]? = l[i]?

namespace Latest
variable {w : Nat} {ring l : List α}

theorem fresh (size : ring.length = w) : Latest w ring [] := ⟨size, fun i none => absurd none (Nat.not_lt_zero i)⟩

/-- The next one takes the place of the oldest. -/
theorem write (latest : Latest w ring l) (cells : 0 < w) (a : α) : Latest w (ring.set (l.length % w) a) (l ++ [a]) where
  size := by rw [List.length_set, latest.size]
  holds i below recent := by
    rw [List.length_append, List.length_singleton] at below recent
    have cell : l.length % w < ring.length := by
      rw [latest.size]
      exact Nat.mod_lt _ cells
    rcases Nat.lt_succ_iff_lt_or_eq.mp below with earlier | rfl
    · have apart : l.length % w ≠ i % w := fun same => by
        have turn : (i + (l.length - i)) % w = (i + 0) % w := by rwa [Nat.add_sub_cancel' earlier.le, Nat.add_zero]
        have := cell_inj (by omega) cells turn
        omega
      rw [List.getElem?_set_ne apart, List.getElem?_append_left earlier]
      exact latest.holds i earlier (by omega)
    · rw [List.getElem?_set_self cell, List.getElem?_append_right le_rfl, Nat.sub_self]
      rfl

/-- What is in use are the latest, in some order. -/
theorem perm (latest : Latest w ring l) : (ring.take (min l.length w)).Perm (l.drop (l.length - w)) := by
  have size := latest.size
  rcases Nat.le_total l.length w with short | long
  · have same : ring.take l.length = l := by
      refine List.ext_getElem? fun i => ?_
      by_cases below : i < l.length
      · have read := latest.holds i below (by omega)
        rwa [Nat.mod_eq_of_lt (by omega), ← List.getElem?_take_of_lt below] at read
      · rw [List.getElem?_eq_none (by simp; omega), List.getElem?_eq_none (by omega)]
    rw [Nat.min_eq_left short, same, Nat.sub_eq_zero_of_le short, List.drop_zero]
  · have turned : l.drop (l.length - w) = ring.rotate (l.length - w) := by
      refine List.ext_getElem? fun i => ?_
      by_cases below : i < w
      · have read := latest.holds (l.length - w + i) (by omega) (by omega)
        rw [List.getElem?_drop, ← read, List.getElem?_rotate (by omega), size, Nat.add_comm i]
      · rw [List.getElem?_eq_none (by simp; omega), List.getElem?_eq_none (by simp; omega)]
    rw [Nat.min_eq_right long, List.take_of_length_le size.le, turned]
    exact (List.rotate_perm ring _).symm

end Latest

end Circular
