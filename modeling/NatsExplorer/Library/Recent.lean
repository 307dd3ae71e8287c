import Mathlib.Data.List.Basic
import Mathlib.Data.List.Infix

/-! The end of a list that keeps growing, and what a second list that takes only some of the elements keeps of it. -/
namespace Recent
variable {A : Type*} {n m : ℕ} {l l' w : List A} {a : A}

/-- The last `n`. -/
def last (n : ℕ) (l : List A) : List A := l.drop (l.length - n)

@[simp] theorem last_nil : last n ([] : List A) = [] := List.drop_nil

theorem last_zero : last 0 l = [] := List.drop_length

theorem last_all (short : l.length ≤ n) : last n l = l := by
  rw [last, Nat.sub_eq_zero_of_le short, List.drop_zero]

theorem length_last : (last n l).length = min n l.length := by
  rw [last, List.length_drop]
  omega

theorem last_suffix : last n l <:+ l := List.drop_suffix _ _

theorem last_append : last (n + 1) (l ++ [a]) = last n l ++ [a] := by
  rw [last, List.length_append, List.length_singleton, Nat.add_sub_add_right, List.drop_append_of_le_length (by omega), last]

theorem last_last (within : n ≤ m) : last n (last m l) = last n l := by
  rw [last, length_last, last, last, List.drop_drop]
  congr 1
  omega

theorem last_mono (within : n ≤ m) : last n l <:+ last m l := by
  rw [← last_last within]
  exact last_suffix

theorem last_of_suffix (part : w <:+ l) : last n w <:+ last n l := by
  obtain ⟨rest, rfl⟩ := part
  have length : (rest ++ w).length = rest.length + w.length := List.length_append
  by_cases short : n ≤ w.length
  · have same : last n (rest ++ w) = last n w := by
      rw [last, last, length, show rest.length + w.length - n = rest.length + (w.length - n) by omega, List.drop_append]
      simp
    rw [same]
  · rw [last_all (by omega : w.length ≤ n), last, List.drop_append_of_le_length (by omega)]
    exact List.suffix_append _ _

/-- A list with room for `n + 1` that gives up its first when it is full. -/
theorem push (kept : l' = last (n + 1) l) : (if l'.length = n + 1 then l'.tail else l') ++ [a] = last (n + 1) (l ++ [a]) := by
  subst kept
  rw [last_append]
  congr 1
  have length := length_last (n := n + 1) (l := l)
  split
  · rw [last, List.tail_drop, last]
    congr 1
    omega
  · have short : l.length ≤ n := by omega
    rw [last_all (by omega : l.length ≤ n + 1), last_all short]

/-- The second list gets every element that is marked, and perhaps others. -/
inductive Fed : List (Bool × A) → List A → Prop where
  | nil : Fed [] []
  | taken {l : List (Bool × A)} {w : List A} (b : Bool) (a : A) : Fed l w → Fed (l ++ [(b, a)]) (w ++ [a])
  | passed {l : List (Bool × A)} {w : List A} (a : A) : Fed l w → Fed (l ++ [(false, a)]) w

/-- What is marked in a list. -/
def marked (l : List (Bool × A)) : List A := (l.filter Prod.fst).map Prod.snd

theorem marked_append {l l' : List (Bool × A)} : marked (l ++ l') = marked l ++ marked l' := by
  rw [marked, List.filter_append, List.map_append, marked, marked]

theorem Fed.last {l : List (Bool × A)} (fed : Fed l w) (n : ℕ) : ∃ w', w' <:+ w ∧ Fed (Recent.last n l) w' := by
  induction fed generalizing n with
  | nil =>
    rw [last_nil]
    exact ⟨[], List.suffix_refl _, .nil⟩
  | @taken l w b a fed ih =>
    cases n with
    | zero =>
      rw [last_zero]
      exact ⟨[], List.nil_suffix, .nil⟩
    | succ n =>
      obtain ⟨w', part, fed⟩ := ih n
      rw [last_append]
      exact ⟨w' ++ [a], List.suffix_append_self_iff.mpr part, .taken b a fed⟩
  | @passed l w a fed ih =>
    cases n with
    | zero =>
      rw [last_zero]
      exact ⟨[], List.nil_suffix, .nil⟩
    | succ n =>
      obtain ⟨w', part, fed⟩ := ih n
      rw [last_append]
      exact ⟨w', part, .passed a fed⟩

/-- What is marked among the last is among the last taken, in its order. -/
theorem Fed.marked {l : List (Bool × A)} (fed : Fed l w) (n : ℕ) : (Recent.marked (Recent.last n l)).Sublist (Recent.last n w) := by
  induction fed generalizing n with
  | nil =>
    rw [last_nil, last_nil]
    exact .slnil
  | @taken l w b a fed ih =>
    cases n with
    | zero =>
      rw [last_zero, last_zero]
      exact .slnil
    | succ n =>
      rw [last_append, last_append, marked_append]
      refine (ih n).append ?_
      cases b
      · exact List.nil_sublist _
      · exact List.Sublist.refl _
  | @passed l w a fed ih =>
    cases n with
    | zero =>
      rw [last_zero]
      exact List.nil_sublist _
    | succ n =>
      have unmarked : Recent.marked [(false, a)] = [] := rfl
      rw [last_append, marked_append, unmarked, List.append_nil]
      exact (ih n).trans (last_mono (Nat.le_succ n)).sublist

theorem fed_unmarked {l : List (Bool × A)} (none : marked l = []) : Fed l [] := by
  induction l using List.reverseRecOn with
  | nil => exact .nil
  | append_singleton l x ih =>
    rw [marked_append, List.append_eq_nil_iff] at none
    obtain ⟨b, a⟩ := x
    cases b with
    | false => exact .passed a (ih none.1)
    | true => cases none.2

end Recent
