import Mathlib.Algebra.BigOperators.Group.Finset.Piecewise
import Mathlib.Data.List.Dedup

/-! A ring of places, each for the things of one slot at a time. A thing goes to the place of its
slot and puts out what is there of another slot; what stays of a list of things is what nothing
later put out. -/
namespace Slots
variable {M : Type*} (slot : M → Nat) (places : Nat)

/-- They have one place, but not one slot. -/
def Clash (m m' : M) : Prop := slot m % places = slot m' % places ∧ slot m ≠ slot m'

instance (m m' : M) : Decidable (Clash slot places m m') := inferInstanceAs (Decidable (_ ∧ _))

/-- What nothing later puts out. -/
def kept : List M → List M
  | [] => []
  | m :: rest => if ∃ m' ∈ rest, Clash slot places m m' then kept rest else m :: kept rest

/-- What is in a place. -/
def held (l : List M) (i : Nat) : List M := (kept slot places l).filter (slot · % places = i)

variable {slot places} {l : List M} {m m' : M}

theorem kept_subset : kept slot places l ⊆ l := by
  induction l with
  | nil => exact List.Subset.refl []
  | cons m rest ih =>
    unfold kept
    split_ifs
    · exact fun x member => List.mem_cons_of_mem m (ih member)
    · exact List.cons_subset_cons m ih

theorem kept_append (l : List M) (m : M) :
    kept slot places (l ++ [m]) = (kept slot places l).filter (¬ Clash slot places · m) ++ [m] := by
  induction l with
  | nil => simp [kept]
  | cons first rest ih =>
    have later : (∃ m' ∈ rest ++ [m], Clash slot places first m') ↔
        (∃ m' ∈ rest, Clash slot places first m') ∨ Clash slot places first m := by
      simp only [List.mem_append, List.mem_singleton, or_and_right, exists_or, exists_eq_left]
    rw [List.cons_append, kept, kept, ih]
    by_cases put : ∃ m' ∈ rest, Clash slot places first m'
    · rw [if_pos put, if_pos (later.mpr (.inl put))]
    · rw [if_neg put]
      by_cases last : Clash slot places first m
      · rw [if_pos (later.mpr (.inr last)), List.filter_cons_of_neg (by simpa using last)]
      · rw [if_neg fun out => (later.mp out).elim put last, List.filter_cons_of_pos (by simpa using last)]
        rfl

/-- In one place there is one slot. -/
theorem slot_eq {i : Nat} (here : m ∈ held slot places l i) (there : m' ∈ held slot places l i) : slot m = slot m' := by
  have pairs : (kept slot places l).Pairwise fun m m' => ¬ Clash slot places m m' := by
    clear here there
    induction l with
    | nil => exact .nil
    | cons first rest ih =>
      unfold kept
      split_ifs with put
      · exact ih
      · exact .cons (fun m' member out => put ⟨m', kept_subset member, out⟩) ih
  obtain ⟨here, place⟩ := List.mem_filter.mp here
  obtain ⟨there, place'⟩ := List.mem_filter.mp there
  have same : slot m % places = slot m' % places := (of_decide_eq_true place).trans (of_decide_eq_true place').symm
  by_contra other
  have symmetric : Std.Symm fun m m' : M => ¬ Clash slot places m m' :=
    ⟨fun m m' apart out => apart ⟨out.1.symm, out.2.symm⟩⟩
  exact pairs.forall_of_forall (fun m _ out => out.2 rfl) here there ⟨same, other⟩

theorem held_other {i : Nat} (other : slot m % places ≠ i) : held slot places (l ++ [m]) i = held slot places l i := by
  have stays : ∀ m' ∈ kept slot places l, slot m' % places = i → ¬ Clash slot places m' m :=
    fun m' _ place out => other (out.1.symm.trans place)
  rw [held, held, kept_append, List.filter_append, List.filter_cons_of_neg (by simpa using other), List.filter_nil,
    List.append_nil, List.filter_filter]
  refine List.filter_congr fun m' member => ?_
  rw [Bool.and_eq_left_iff_imp]
  intro place
  exact decide_eq_true (stays m' member (of_decide_eq_true place))

/-- A thing joins those of its slot. -/
theorem held_same (same : ∀ m' ∈ held slot places l (slot m % places), slot m' = slot m) :
    held slot places (l ++ [m]) (slot m % places) = held slot places l (slot m % places) ++ [m] := by
  rw [held, kept_append, List.filter_append, List.filter_filter]
  refine congrArg₂ (· ++ ·) (List.filter_congr fun m' member => ?_) (List.filter_cons_of_pos (decide_eq_true rfl))
  rw [Bool.and_eq_left_iff_imp]
  intro place
  exact decide_eq_true fun out => out.2 (same m' (List.mem_filter.mpr ⟨member, place⟩))

/-- A thing puts out those of another slot. -/
theorem held_new (other : ∀ m' ∈ held slot places l (slot m % places), slot m' ≠ slot m) :
    held slot places (l ++ [m]) (slot m % places) = [m] := by
  have none : ((kept slot places l).filter (¬ Clash slot places · m)).filter (slot · % places = slot m % places) = [] := by
    refine List.filter_eq_nil_iff.mpr fun m' member place => ?_
    obtain ⟨member, stays⟩ := List.mem_filter.mp member
    have out : Clash slot places m' m := ⟨of_decide_eq_true place, other m' (List.mem_filter.mpr ⟨member, place⟩)⟩
    exact of_decide_eq_true stays out
  rw [held, kept_append, List.filter_append, none, List.nil_append]
  exact List.filter_cons_of_pos (decide_eq_true rfl)

/-- The places together hold what was kept. -/
theorem sum_held (positive : 0 < places) (l : List M) :
    (∑ i ∈ Finset.range places, (held slot places l i : Multiset M)) = (kept slot places l : Multiset M) := by
  unfold held
  generalize kept slot places l = ms
  induction ms with
  | nil => simp
  | cons m ms ih =>
    have parts (i : Nat) : (((m :: ms).filter (slot · % places = i) : List M) : Multiset M) =
        (if slot m % places = i then {m} else 0) + ((ms.filter (slot · % places = i) : List M) : Multiset M) := by
      by_cases place : slot m % places = i
      · rw [List.filter_cons_of_pos (by simpa using place), if_pos place]
        rfl
      · rw [List.filter_cons_of_neg (by simpa using place), if_neg place, zero_add]
    have its : slot m % places ∈ Finset.range places := Finset.mem_range.mpr (Nat.mod_lt _ positive)
    simp only [parts]
    rw [Finset.sum_add_distrib, ih, Finset.sum_ite_eq, if_pos its]
    rfl

/-- Of a sorted list there stays what nothing after it puts out. -/
theorem mem_kept [LinearOrder M] (sorted : l.Pairwise (· < ·)) :
    m ∈ kept slot places l ↔ m ∈ l ∧ ∀ m' ∈ l, m < m' → ¬ Clash slot places m m' := by
  induction l with
  | nil => simp [kept]
  | cons first rest ih =>
    obtain ⟨least, sorted⟩ := List.pairwise_cons.mp sorted
    unfold kept
    split_ifs with put
    · rw [ih sorted]
      constructor
      · rintro ⟨member, stays⟩
        refine ⟨List.mem_cons_of_mem _ member, fun m' member' after => ?_⟩
        rcases List.mem_cons.mp member' with rfl | member'
        · exact absurd after (least m member).not_gt
        · exact stays m' member' after
      · rintro ⟨member, stays⟩
        rcases List.mem_cons.mp member with rfl | member
        · obtain ⟨m', member', out⟩ := put
          exact absurd out (stays m' (List.mem_cons_of_mem _ member') (least m' member'))
        · exact ⟨member, fun m' member' after => stays m' (List.mem_cons_of_mem _ member') after⟩
    · rw [List.mem_cons, ih sorted]
      constructor
      · rintro (rfl | ⟨member, stays⟩)
        · refine ⟨List.mem_cons_self, fun m' member' after out => ?_⟩
          rcases List.mem_cons.mp member' with rfl | member'
          · exact after.false
          · exact put ⟨m', member', out⟩
        · refine ⟨List.mem_cons_of_mem _ member, fun m' member' after => ?_⟩
          rcases List.mem_cons.mp member' with rfl | member'
          · exact absurd after (least m member).not_gt
          · exact stays m' member' after
      · rintro ⟨member, stays⟩
        rcases List.mem_cons.mp member with rfl | member
        · exact .inl rfl
        · exact .inr ⟨member, fun m' member' after => stays m' (List.mem_cons_of_mem _ member') after⟩

theorem kept_sublist (l : List M) : (kept slot places l).Sublist l := by
  induction l with
  | nil => exact .slnil
  | cons m rest ih =>
    unfold kept
    split_ifs
    · exact ih.cons m
    · exact ih.cons_cons m

end Slots
