import Mathlib.Data.List.Pairwise
import Mathlib.Order.Defs.Unbundled

/-! Insertion into a list that is sorted by a total preorder, at the place a binary search finds. -/
namespace Insertion
variable {α : Type*} (le : α → α → Prop) [DecidableRel le]

/-- The first place from `lo` on, and `hi` at the latest, whose element is not before `a`. -/
def search (l : List α) (a : α) (lo hi : Nat) : Nat :=
  if lo < hi then
    let mid := (lo + hi) / 2
    if ∃ b ∈ l[mid]?, ¬ le a b then search l a (mid + 1) hi else search l a lo mid
  else lo
termination_by hi - lo

def index (l : List α) (a : α) : Nat := search le l a 0 l.length

def insert (l : List α) (a : α) : List α := l.take (index le l a) ++ a :: l.drop (index le l a)

variable {le} in
theorem insert_perm (l : List α) (a : α) : (insert le l a).Perm (a :: l) := by
  have split : (insert le l a).Perm (a :: (l.take (index le l a) ++ l.drop (index le l a))) := List.perm_middle
  rwa [List.take_append_drop] at split

variable {le} [Std.Total le] [IsTrans α le] {l : List α} {a : α}

omit [DecidableRel le] [IsTrans α le] in
theorem pairwise_le {i j : Nat} {b c : α} (sorted : l.Pairwise le) (order : i ≤ j) (here : l[i]? = some b)
    (there : l[j]? = some c) : le b c := by
  rcases Nat.lt_or_eq_of_le order with less | rfl
  · obtain ⟨_, rfl⟩ := List.getElem?_eq_some_iff.mp here
    obtain ⟨_, rfl⟩ := List.getElem?_eq_some_iff.mp there
    exact List.pairwise_iff_getElem.mp sorted _ _ _ _ less
  · obtain rfl : b = c := Option.some.inj (here.symm.trans there)
    exact (Std.Total.total b b).elim id id

theorem search_spec (sorted : l.Pairwise le) (lo hi : Nat) (within : lo ≤ hi)
    (below : ∀ (j : Nat) (b : α), l[j]? = some b → j < lo → ¬ le a b)
    (above : ∀ (j : Nat) (b : α), l[j]? = some b → hi ≤ j → le a b) :
    (∀ (j : Nat) (b : α), l[j]? = some b → j < search le l a lo hi → ¬ le a b) ∧
      ∀ (j : Nat) (b : α), l[j]? = some b → search le l a lo hi ≤ j → le a b := by
  induction lo, hi using search.induct le l a with
  | case1 lo hi less mid found ih =>
    obtain ⟨b, here, before⟩ := found
    unfold search
    rw [if_pos less, if_pos ⟨b, here, before⟩]
    refine ih (by omega) (fun j c there smaller after => before ?_) above
    exact IsTrans.trans _ _ _ after (pairwise_le sorted (Nat.le_of_lt_succ smaller) there here)
  | case2 lo hi less mid missing ih =>
    unfold search
    rw [if_pos less, if_neg missing]
    refine ih (by omega) below fun j c there larger => ?_
    have inside : mid < l.length := Nat.lt_of_le_of_lt larger (List.getElem?_eq_some_iff.mp there).1
    have here : l[mid]? = some l[mid] := List.getElem?_eq_getElem inside
    have after : le a l[mid] := by
      by_contra before
      exact missing ⟨l[mid], here, before⟩
    exact IsTrans.trans _ _ _ after (pairwise_le sorted larger here there)
  | case3 lo hi done =>
    unfold search
    rw [if_neg done]
    obtain rfl : lo = hi := by omega
    exact ⟨below, above⟩

theorem insert_sorted (sorted : l.Pairwise le) : (insert le l a).Pairwise le := by
  have spec := search_spec (a := a) sorted 0 l.length (Nat.zero_le _) (fun _ _ _ none => absurd none (Nat.not_lt_zero _))
    fun j b here beyond => by simp [List.getElem?_eq_none beyond] at here
  have before : ∀ b ∈ l.take (index le l a), le b a := by
    intro b member
    obtain ⟨j, inside, rfl⟩ := List.getElem_of_mem member
    rw [List.length_take] at inside
    have here : l[j]? = some l[j] := List.getElem?_eq_getElem (by omega)
    rw [List.getElem_take]
    exact (Std.Total.total l[j] a).resolve_right (spec.1 j _ here (by unfold index at inside; omega))
  have after : ∀ b ∈ l.drop (index le l a), le a b := by
    intro b member
    obtain ⟨j, inside, rfl⟩ := List.getElem_of_mem member
    rw [List.length_drop] at inside
    rw [List.getElem_drop]
    exact spec.2 _ _ (List.getElem?_eq_getElem (by omega)) (Nat.le_add_right _ _)
  rw [← List.take_append_drop (index le l a) l, List.pairwise_append] at sorted
  refine List.pairwise_append.mpr ⟨sorted.1, List.pairwise_cons.mpr ⟨after, sorted.2.1⟩, fun b first c second => ?_⟩
  rcases List.mem_cons.mp second with rfl | second
  · exact before b first
  · exact sorted.2.2 b first c second

end Insertion
