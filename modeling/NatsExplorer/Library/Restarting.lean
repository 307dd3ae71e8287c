import Mathlib.Data.List.Basic
import Mathlib.Data.List.Pairwise
import Mathlib.Order.Lattice

/-! A reader of a numbered list that may start over. What it hands over are runs of the list, each from where it was
or from the start again; whoever reads keeps the number that comes next, and takes what is at or above it. -/
namespace Restarting

/-- One answer of the reader: whether it starts over, and how much it hands over. -/
structure Answer where
  again : Bool
  count : ℕ

variable {A : Type*} {seq : A → ℕ} {l : List A}

/-- Numbered upwards. -/
def Ascending (seq : A → ℕ) (l : List A) : Prop := l.Pairwise fun a b => seq a < seq b

/-- What has a number in `[lo, hi)`. -/
def between (seq : A → ℕ) (l : List A) (lo hi : ℕ) : List A := l.filter fun a => lo ≤ seq a ∧ seq a < hi

/-- The first `n` from a number on. -/
def run (seq : A → ℕ) (l : List A) (lo n : ℕ) : List A := (l.filter fun a => lo ≤ seq a).take n

/-- The number after a batch. -/
def bound (seq : A → ℕ) (lo : ℕ) (batch : List A) : ℕ :=
  match batch.getLast? with
  | none => lo
  | some a => seq a + 1

@[simp] theorem bound_nil (lo : ℕ) : bound seq lo [] = lo := rfl

@[simp] theorem bound_append (lo : ℕ) (batch : List A) (a : A) : bound seq lo (batch ++ [a]) = seq a + 1 := by
  simp [bound]

theorem bound_cons (lo : ℕ) (a : A) (batch : List A) : bound seq lo (a :: batch) = bound seq (seq a + 1) batch := by
  rcases List.eq_nil_or_concat batch with rfl | ⟨rest, last, rfl⟩
  · rfl
  · rw [List.concat_eq_append, ← List.cons_append, bound_append, bound_append]

theorem mem_between {a : A} {lo hi : ℕ} : a ∈ between seq l lo hi ↔ a ∈ l ∧ lo ≤ seq a ∧ seq a < hi := by
  simp [between]

theorem between_empty {lo hi : ℕ} (empty : hi ≤ lo) : between seq l lo hi = [] := by
  apply List.filter_eq_nil_iff.mpr
  intro a _
  simp only [decide_eq_true_eq, not_and, not_lt]
  omega

theorem Ascending.filter (asc : Ascending seq l) (p : A → Bool) : Ascending seq (l.filter p) := List.Pairwise.filter p asc

theorem Ascending.between (asc : Ascending seq l) (lo hi : ℕ) : Ascending seq (between seq l lo hi) := asc.filter _

theorem between_append (asc : Ascending seq l) {lo mid hi : ℕ} (below : lo ≤ mid) (above : mid ≤ hi) :
    between seq l lo mid ++ between seq l mid hi = between seq l lo hi := by
  induction l with
  | nil => rfl
  | cons a l ih =>
    obtain ⟨first, rest⟩ := List.pairwise_cons.mp asc
    have ih := ih rest
    by_cases left : seq a < mid
    · simp only [between, List.filter_cons] at ih ⊢
      have outside : ¬ (mid ≤ seq a ∧ seq a < hi) := by omega
      have same : (lo ≤ seq a ∧ seq a < mid) ↔ (lo ≤ seq a ∧ seq a < hi) := by omega
      simp only [same, outside, decide_false, Bool.false_eq_true, if_false]
      split
      · rw [List.cons_append, ih]
      · exact ih
    · -- nothing after `a` is below `mid`
      have none : Restarting.between seq (a :: l) lo mid = [] := by
        apply List.filter_eq_nil_iff.mpr
        intro b member
        have : seq a ≤ seq b := by
          rcases List.mem_cons.mp member with rfl | later
          · exact le_refl _
          · exact (first b later).le
        simp only [decide_eq_true_eq, not_and, not_lt]
        omega
      rw [none, List.nil_append]
      refine List.filter_congr fun b member => ?_
      have : seq a ≤ seq b := by
        rcases List.mem_cons.mp member with rfl | later
        · exact le_refl _
        · exact (first b later).le
      rw [decide_eq_decide]
      omega

theorem between_from (lo mid hi : ℕ) :
    (between seq l lo hi).filter (fun a => mid ≤ seq a) = between seq l (max lo mid) hi := by
  rw [between, List.filter_filter]
  refine List.filter_congr fun a _ => ?_
  rw [← Bool.decide_and, decide_eq_decide]
  omega

theorem Ascending.lt_bound {batch : List A} (asc : Ascending seq batch) (lo : ℕ) {a : A} (member : a ∈ batch) :
    seq a < bound seq lo batch := by
  rcases List.eq_nil_or_concat batch with rfl | ⟨rest, last, rfl⟩
  · exact absurd member List.not_mem_nil
  · rw [List.concat_eq_append] at asc member ⊢
    rw [bound_append]
    rcases List.mem_append.mp member with earlier | same
    · have := (List.pairwise_append.mp asc).2.2 a earlier last (by simp)
      omega
    · rw [List.mem_singleton.mp same]
      omega

theorem bound_le {batch : List A} {lo hi : ℕ} (first : lo ≤ hi) (all : ∀ a ∈ batch, seq a < hi) : bound seq lo batch ≤ hi := by
  rcases List.eq_nil_or_concat batch with rfl | ⟨rest, last, rfl⟩
  · exact first
  · rw [List.concat_eq_append, bound_append]
    exact all last (by simp)

theorem le_bound {batch : List A} {lo : ℕ} (all : ∀ a ∈ batch, lo ≤ seq a) : lo ≤ bound seq lo batch := by
  rcases List.eq_nil_or_concat batch with rfl | ⟨rest, last, rfl⟩
  · exact le_rfl
  · have := all last (by simp)
    rw [List.concat_eq_append, bound_append]
    omega

theorem between_bound (asc : Ascending seq l) (lo hi : ℕ) :
    between seq l lo (bound seq lo (between seq l lo hi)) = between seq l lo hi := by
  refine List.filter_congr fun a member => ?_
  rw [decide_eq_decide]
  constructor
  · rintro ⟨above, below⟩
    by_contra outside
    have short : hi ≤ seq a := by omega
    rcases Nat.le_total lo hi with ordered | empty
    · have := bound_le ordered fun b (member : b ∈ between seq l lo hi) => (mem_between.mp member).2.2
      omega
    · rw [between_empty empty, bound_nil] at below
      omega
  · intro inside
    exact ⟨inside.1, (asc.between lo hi).lt_bound lo (mem_between.mpr ⟨member, inside⟩)⟩

/-- A run has everything up to its last. -/
theorem run_eq (asc : Ascending seq l) (lo n : ℕ) : ∃ hi, run seq l lo n = between seq l lo hi := by
  have split := List.take_append_drop n (l.filter fun a => lo ≤ seq a)
  have asc' : Ascending seq (run seq l lo n ++ (l.filter fun a => lo ≤ seq a).drop n) := by
    rw [run, split]
    exact asc.filter _
  obtain ⟨first, -, later⟩ := List.pairwise_append.mp asc'
  refine ⟨bound seq lo (run seq l lo n), ?_⟩
  have whole (hi : ℕ) : between seq l lo hi = (l.filter fun a => lo ≤ seq a).filter fun a => seq a < hi := by
    rw [between, List.filter_filter]
    exact List.filter_congr fun a _ => by rw [← Bool.decide_and, decide_eq_decide, and_comm]
  rw [whole]
  conv_rhs => rw [← split, List.filter_append, ← run]
  have kept : (run seq l lo n).filter (fun a => seq a < bound seq lo (run seq l lo n)) = run seq l lo n := by
    apply List.filter_eq_self.mpr
    intro a member
    exact decide_eq_true (Ascending.lt_bound first lo member)
  have dropped : ((l.filter fun a => lo ≤ seq a).drop n).filter (fun a => seq a < bound seq lo (run seq l lo n)) = [] := by
    apply List.filter_eq_nil_iff.mpr
    intro b member
    have above := (List.mem_filter.mp (List.mem_of_mem_drop member)).2
    simp only [decide_eq_true_eq, not_lt] at above ⊢
    exact bound_le above fun a taken => later a taken b member
  rw [kept, dropped, List.append_nil]

/-- What is at or above the number after a run follows the run. -/
theorem filter_bound (asc : Ascending seq l) (lo n : ℕ) :
    l.filter (fun a => bound seq lo (run seq l lo n) ≤ seq a) = (l.filter fun a => lo ≤ seq a).drop n := by
  have split := List.take_append_drop n (l.filter fun a => lo ≤ seq a)
  have asc' : Ascending seq (run seq l lo n ++ (l.filter fun a => lo ≤ seq a).drop n) := by
    rw [run, split]
    exact asc.filter _
  obtain ⟨first, -, later⟩ := List.pairwise_append.mp asc'
  have above : lo ≤ bound seq lo (run seq l lo n) :=
    le_bound fun a member => of_decide_eq_true (List.mem_filter.mp (List.mem_of_mem_take member)).2
  have same : l.filter (fun a => bound seq lo (run seq l lo n) ≤ seq a) =
      (l.filter fun a => lo ≤ seq a).filter fun a => bound seq lo (run seq l lo n) ≤ seq a := by
    rw [List.filter_filter]
    refine List.filter_congr fun a _ => ?_
    rw [← Bool.decide_and, decide_eq_decide]
    omega
  have taken : (run seq l lo n).filter (fun a => bound seq lo (run seq l lo n) ≤ seq a) = [] := by
    apply List.filter_eq_nil_iff.mpr
    intro a member
    rw [decide_eq_true_eq, not_le]
    exact Ascending.lt_bound first lo member
  have left : ((l.filter fun a => lo ≤ seq a).drop n).filter (fun a => bound seq lo (run seq l lo n) ≤ seq a) =
      (l.filter fun a => lo ≤ seq a).drop n := by
    refine List.filter_eq_self.mpr fun b member => decide_eq_true ?_
    have above := of_decide_eq_true (List.mem_filter.mp (List.mem_of_mem_drop member)).2
    exact bound_le above fun a taken => later a taken b member
  rw [same]
  conv_lhs => rw [← split, List.filter_append]
  exact (congrArg₂ _ taken left).trans (List.nil_append _)

/-- Taking what is at or above the next number continues what was taken, wherever the run starts. -/
theorem between_take (asc : Ascending seq l) {start lo next : ℕ} (below : start ≤ next) (reached : lo ≤ next) (n : ℕ) :
    let fresh := (run seq l lo n).filter fun a => next ≤ seq a
    between seq l start next ++ fresh = between seq l start (bound seq next fresh) := by
  intro fresh
  obtain ⟨hi, whole⟩ := run_eq asc lo n
  have freshEq : fresh = between seq l next hi := by
    change (run seq l lo n).filter _ = _
    rw [whole, between_from, max_eq_right reached]
  have further : next ≤ bound seq next fresh := le_bound fun a member => by
    rw [freshEq] at member
    exact (mem_between.mp member).2.1
  rw [← between_append asc below further, freshEq, between_bound asc]

/-- A run that goes past a number has everything up to it. -/
theorem between_past (asc : Ascending seq l) {lo next hi n : ℕ} (reached : lo ≤ next)
    (past : ∃ a ∈ run seq l lo n, hi ≤ seq a) :
    (run seq l lo n).filter (fun a => next ≤ seq a ∧ seq a < hi) = between seq l next hi := by
  obtain ⟨top, whole⟩ := run_eq asc lo n
  obtain ⟨a, member, above⟩ := past
  rw [whole] at member ⊢
  have := (mem_between.mp member).2.2
  rw [between, List.filter_filter]
  refine List.filter_congr fun b _ => ?_
  rw [← Bool.decide_and, decide_eq_decide]
  omega

theorem run_sublist (lo n : ℕ) : (run seq l lo n).Sublist l := (List.take_sublist _ _).trans List.filter_sublist

theorem Ascending.run (asc : Ascending seq l) (lo n : ℕ) : Ascending seq (run seq l lo n) := List.Pairwise.sublist (run_sublist lo n) asc

section Reader
variable (seq l) (start : ℕ) (answers : ℕ → Answer)

/-- The number that comes next for the reader, before an answer. -/
def position : ℕ → ℕ
  | 0 => start
  | i + 1 =>
    let lo := if (answers i).again then start else position i
    bound seq (position i) (run seq l lo (answers i).count)

/-- Where an answer starts. -/
def origin (i : ℕ) : ℕ := if (answers i).again then start else position seq l start answers i

/-- What an answer hands over. -/
def batch (i : ℕ) : List A := run seq l (origin seq l start answers i) (answers i).count

end Reader

end Restarting
