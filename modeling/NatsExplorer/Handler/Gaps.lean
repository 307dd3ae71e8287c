import Mathlib.Data.List.Sort

/-! Where a stream has no messages (`internal/handler/gaps.go`): single sequences as runs. -/
namespace NatsExplorer.Handler

/-- Both ends are in it. -/
@[ext]
structure GapRange where
  From : UInt64
  To : UInt64
  deriving DecidableEq

/-- The loop of `gapRanges`: the last range of `out`, and what comes after it. -/
def gapsFrom (last : GapRange) : List UInt64 → List GapRange
  | [] => [last]
  | s :: seqs =>
    if s = last.To + 1 then gapsFrom { last with To := s } seqs
    else if s = last.To then gapsFrom last seqs
    else last :: gapsFrom ⟨s, s⟩ seqs

def gapRanges (deleted : List UInt64) : List GapRange :=
  match deleted.mergeSort fun a b => decide (a ≤ b) with
  | [] => []
  | s :: seqs => gapsFrom ⟨s, s⟩ seqs

def GapRange.Has (r : GapRange) (s : UInt64) : Prop := r.From ≤ s ∧ s ≤ r.To

/-- The ranges are what there is of the sequences: in order, and none next to another. -/
structure Runs (there : UInt64 → Prop) (ranges : List GapRange) : Prop where
  covers : ∀ s, there s ↔ ∃ r ∈ ranges, r.Has s
  nonempty : ∀ r ∈ ranges, r.From ≤ r.To
  apart : ranges.Pairwise fun a b => a.To.toNat + 1 < b.From.toNat

theorem GapRange.has_iff {r : GapRange} {s : UInt64} : r.Has s ↔ r.From.toNat ≤ s.toNat ∧ s.toNat ≤ r.To.toNat := by
  rw [Has, UInt64.le_iff_toNat_le, UInt64.le_iff_toNat_le]

theorem gapsFrom_runs {last : GapRange} {seqs : List UInt64} (nonempty : last.From ≤ last.To) (sorted : (last.To :: seqs).Pairwise (· ≤ ·)) :
    Runs (fun s => last.Has s ∨ s ∈ seqs) (gapsFrom last seqs) ∧ ∀ r ∈ gapsFrom last seqs, last.From ≤ r.From := by
  induction seqs generalizing last with
  | nil =>
    rw [gapsFrom]
    exact ⟨⟨fun s => by simp, by simpa using nonempty, List.pairwise_singleton ..⟩, by simp⟩
  | cons s seqs ih =>
    obtain ⟨first, later⟩ := List.pairwise_cons.mp sorted
    have late := first s List.mem_cons_self
    have order := UInt64.le_iff_toNat_le.mp nonempty
    have behind := UInt64.le_iff_toNat_le.mp late
    -- The successor of the last sequence there is would be 0, and nothing sorted behind it is.
    have value : (last.To + 1).toNat = (last.To.toNat + 1) % 2 ^ 64 := UInt64.toNat_add ..
    have below := s.toNat_lt
    have same (t : UInt64) : t = s ↔ t.toNat = s.toNat := UInt64.toNat_inj.symm
    unfold gapsFrom
    split_ifs with next again
    · obtain ⟨runs, from_⟩ := @ih { last with To := s } (UInt64.le_trans nonempty late) later
      have last_ := congrArg UInt64.toNat next
      refine ⟨⟨fun t => ?_, runs.nonempty, runs.apart⟩, from_⟩
      rw [← runs.covers, List.mem_cons, ← or_assoc, GapRange.has_iff, GapRange.has_iff, same]
      exact or_congr_left (by dsimp only; omega)
    · obtain ⟨runs, from_⟩ := ih nonempty (again ▸ later)
      refine ⟨⟨fun t => ?_, runs.nonempty, runs.apart⟩, from_⟩
      rw [← runs.covers, List.mem_cons, ← or_assoc, GapRange.has_iff, same, again]
      exact or_congr_left (by omega)
    · obtain ⟨runs, from_⟩ := @ih ⟨s, s⟩ (UInt64.le_refl s) later
      have far : last.To.toNat + 1 < s.toNat := by
        rw [← UInt64.toNat_inj] at next again
        omega
      refine ⟨⟨fun t => ?_, ?_, ?_⟩, ?_⟩
      · rw [List.exists_mem_cons_iff, ← runs.covers, List.mem_cons, GapRange.has_iff, GapRange.has_iff, same]
        exact or_congr_right (or_congr_left (by dsimp only; omega))
      · exact List.forall_mem_cons.mpr ⟨nonempty, runs.nonempty⟩
      · exact List.pairwise_cons.mpr ⟨fun r member => far.trans_le (UInt64.le_iff_toNat_le.mp (from_ r member)), runs.apart⟩
      · exact List.forall_mem_cons.mpr ⟨UInt64.le_refl _, fun r member => UInt64.le_trans (UInt64.le_trans nonempty late) (from_ r member)⟩

theorem gapRanges_runs (deleted : List UInt64) : Runs (· ∈ deleted) (gapRanges deleted) := by
  have sorted := @List.pairwise_mergeSort _ (fun a b : UInt64 => decide (a ≤ b)) (fun a b c => by simpa using UInt64.le_trans)
    (fun a b => by simpa using UInt64.le_total a b) deleted
  have same (s : UInt64) : s ∈ deleted ↔ s ∈ deleted.mergeSort fun a b => decide (a ≤ b) := List.mem_mergeSort.symm
  simp only [same]
  unfold gapRanges
  generalize (deleted.mergeSort fun a b => decide (a ≤ b)) = seqs at sorted
  cases seqs with
  | nil => exact ⟨fun s => by simp, by simp, .nil⟩
  | cons s seqs =>
    have runs := (@gapsFrom_runs ⟨s, s⟩ seqs (UInt64.le_refl s) (sorted.imp of_decide_eq_true)).1
    refine ⟨fun t => ?_, runs.nonempty, runs.apart⟩
    rw [← runs.covers, List.mem_cons, GapRange.has_iff, ← UInt64.toNat_inj]
    exact or_congr_left (by dsimp only; omega)

section Unique
variable {there : UInt64 → Prop} {a b : GapRange} {l m : List GapRange}

theorem Runs.tail (runs : Runs there (a :: l)) : Runs (fun s => there s ∧ a.To < s) l := by
  obtain ⟨far, apart⟩ := List.pairwise_cons.mp runs.apart
  refine ⟨fun s => ?_, fun r member => runs.nonempty r (List.mem_cons_of_mem a member), apart⟩
  rw [runs.covers, List.exists_mem_cons_iff, GapRange.has_iff, UInt64.lt_iff_toNat_lt]
  constructor
  · rintro ⟨⟨-, early⟩ | here, late⟩
    · exact absurd early (Nat.not_le.mpr late)
    · exact here
  · rintro ⟨r, member, has⟩
    have := far r member
    have := (GapRange.has_iff.mp has).1
    exact ⟨.inr ⟨r, member, has⟩, by omega⟩

/-- A second way to tell the ranges starts no later, and where it starts alike goes as far. -/
theorem Runs.first (one : Runs there (a :: l)) (other : Runs there (b :: m)) :
    b.From.toNat ≤ a.From.toNat ∧ (a.From = b.From → a.To.toNat ≤ b.To.toNat) := by
  have far := (List.pairwise_cons.mp other.apart).1
  have some_ := UInt64.le_iff_toNat_le.mp (one.nonempty a List.mem_cons_self)
  have whole := UInt64.le_iff_toNat_le.mp (other.nonempty b List.mem_cons_self)
  have found (s : UInt64) (has : a.Has s) : b.Has s ∨ ∃ r ∈ m, r.Has s :=
    (List.exists_mem_cons_iff ..).mp ((other.covers s).mp ((one.covers s).mpr ⟨a, List.mem_cons_self, has⟩))
  constructor
  · rcases found a.From (GapRange.has_iff.mpr ⟨le_rfl, some_⟩) with has | ⟨r, member, has⟩
    · exact (GapRange.has_iff.mp has).1
    · have := far r member
      have := (GapRange.has_iff.mp has).1
      omega
  · intro same
    by_contra longer
    have below := a.To.toNat_lt
    have value : (b.To + 1).toNat = b.To.toNat + 1 := (UInt64.toNat_add ..).trans (Nat.mod_eq_of_lt (by simp; omega))
    rw [same] at some_
    rcases found (b.To + 1) (GapRange.has_iff.mpr (by rw [same]; omega)) with has | ⟨r, member, has⟩
    · have := (GapRange.has_iff.mp has).2
      omega
    · have := far r member
      have := (GapRange.has_iff.mp has).1
      omega

/-- There is one way to tell the ranges. -/
theorem Runs.unique (one : Runs there l) (other : Runs there m) : l = m := by
  have empty {there : UInt64 → Prop} {r : GapRange} {l : List GapRange} (none_ : Runs there []) (runs : Runs there (r :: l)) : False := by
    have here := (runs.covers r.From).mpr ⟨r, List.mem_cons_self, UInt64.le_refl _, runs.nonempty r List.mem_cons_self⟩
    obtain ⟨_, member, -⟩ := (none_.covers r.From).mp here
    cases member
  induction l generalizing there m with
  | nil =>
    cases m with
    | nil => rfl
    | cons b m => exact (empty one other).elim
  | cons a l ih =>
    cases m with
    | nil => exact (empty other one).elim
    | cons b m =>
      have from_ : a.From = b.From := UInt64.toNat_inj.mp (Nat.le_antisymm (other.first one).1 (one.first other).1)
      have to_ : a.To = b.To := UInt64.toNat_inj.mp (Nat.le_antisymm ((one.first other).2 from_) ((other.first one).2 from_.symm))
      obtain rfl : a = b := GapRange.ext from_ to_
      rw [ih one.tail other.tail]

end Unique

/-- The ranges cover the deleted sequences and nothing else, and no others do without two that meet. -/
theorem gapRanges_iff {deleted : List UInt64} {ranges : List GapRange} : Runs (· ∈ deleted) ranges ↔ ranges = gapRanges deleted :=
  ⟨fun runs => runs.unique (gapRanges_runs deleted), fun same => same ▸ gapRanges_runs deleted⟩

end NatsExplorer.Handler
