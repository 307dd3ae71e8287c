import NatsExplorer.Go.Runtime
import Mathlib.Data.List.TakeDrop

/-! `sort.Search`: bisection for the first index at which a condition holds. Where
the condition stays true once it is, it is met from that index on and not before. -/
namespace Go.sort

def bisect (f : Nat → Bool) : Nat → Nat → Nat → Nat
  | 0, i, _ => i
  | fuel + 1, i, j =>
    if i < j then
      let h := (i + j) / 2
      if f h then bisect f fuel i h else bisect f fuel (h + 1) j
    else i

def search (n : Nat) (f : Nat → Bool) : Nat := bisect f n 0 n

variable {f : Nat → Bool}

theorem bisect_spec {fuel i j n : Nat} (mono : ∀ a b, a ≤ b → b < n → f a = true → f b = true)
    (enough : j - i ≤ fuel) (order : i ≤ j) (inside : j ≤ n) (below : ∀ a < i, f a = false)
    (above : ∀ a, j ≤ a → a < n → f a = true) :
    bisect f fuel i j ≤ n ∧ ∀ a < n, f a = true ↔ bisect f fuel i j ≤ a := by
  induction fuel generalizing i j with
  | zero =>
    have met : i = j := by omega
    subst met
    refine ⟨inside, fun a here => ⟨fun holds => ?_, fun late => above a late here⟩⟩
    by_contra early
    rw [bisect, not_le] at early
    rw [below a early] at holds
    cases holds
  | succ fuel ih =>
    rw [bisect]
    split
    · rename_i apart
      cases middle : f ((i + j) / 2) with
      | true =>
        simp only [middle, if_true]
        exact ih (by omega) (by omega) (by omega) below fun a late here => mono _ a late here middle
      | false =>
        simp only [middle, Bool.false_eq_true, if_false]
        refine ih (by omega) (by omega) inside (fun a early => ?_) above
        cases first : f a with
        | false => rfl
        | true =>
          have later := mono a ((i + j) / 2) (by omega) (by omega) first
          rw [middle] at later
          cases later
    · rename_i met
      have same : i = j := by omega
      subst same
      refine ⟨inside, fun a here => ⟨fun holds => ?_, fun late => above a late here⟩⟩
      by_contra early
      rw [not_le] at early
      rw [below a early] at holds
      cases holds

theorem search_spec {n : Nat} (mono : ∀ a b, a ≤ b → b < n → f a = true → f b = true) :
    search n f ≤ n ∧ ∀ a < n, f a = true ↔ search n f ≤ a :=
  bisect_spec mono le_rfl (Nat.zero_le n) le_rfl (fun a none => absurd none a.not_lt_zero)
    fun _ late here => absurd here late.not_gt

/-- In a list on which `later` stays true, what `search` cuts off is what is not yet `later`. -/
theorem take_search {A : Type} {later : A → Bool} {l : List A}
    (mono : l.Pairwise fun a b => later a = true → later b = true) :
    l.take (search l.length fun i => (l[i]?).any later) = l.filter fun a => !later a := by
  have holds (i : Nat) (inside : i < l.length) : (l[i]?).any later = later l[i] := by
    rw [List.getElem?_eq_getElem inside, Option.any_some]
  obtain ⟨bound, cut⟩ := search_spec (f := fun i => (l[i]?).any later) (n := l.length) fun a b order inside first => by
    rcases order.eq_or_lt with rfl | before
    · exact first
    · simp only [holds a (by omega), holds b inside] at first ⊢
      exact List.pairwise_iff_getElem.mp mono a b (by omega) inside before first
  generalize search l.length (fun i => (l[i]?).any later) = k at bound cut ⊢
  have front : (l.take k).filter (fun a => !later a) = l.take k := by
    refine List.filter_eq_self.mpr fun a member => ?_
    obtain ⟨i, inside, rfl⟩ := List.mem_iff_getElem.mp member
    rw [List.length_take] at inside
    rw [List.getElem_take, Bool.not_eq_true']
    have early := (cut i (by omega)).not.mpr (by omega)
    rwa [holds i (by omega), Bool.not_eq_true] at early
  have back : (l.drop k).filter (fun a => !later a) = [] := by
    refine List.filter_eq_nil_iff.mpr fun a member => ?_
    obtain ⟨i, inside, rfl⟩ := List.mem_iff_getElem.mp member
    rw [List.length_drop] at inside
    rw [List.getElem_drop, Bool.not_eq_true', Bool.not_eq_false]
    have late := (cut (k + i) (by omega)).mpr (by omega)
    rwa [holds (k + i) (by omega)] at late
  rw [← List.take_append_drop k l, List.filter_append, List.take_append_drop, front, back, List.append_nil]

end Go.sort
