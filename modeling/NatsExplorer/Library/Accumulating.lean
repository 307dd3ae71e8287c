import Mathlib.Algebra.BigOperators.Group.List.Basic
import Mathlib.Algebra.Group.WithOne.Defs
import NatsExplorer.Library.OrderedMap

/-! Amounts added up under their keys. What is under a key is the sum of the amounts that were added to it, in whatever order
they were added and whether one by one or summed up before; a key to which none was added has nothing, the zero of the sum. -/
namespace OrderedMap
variable {K P : Type*} {m : OrderedMap K P} {k : K}

/-- The sum under a key. -/
def total (m : OrderedMap K P) (k : K) : WithZero P := m.get k

variable [DecidableEq K]

/-- The amounts of a list that go to a key. -/
def amounts (k : K) (l : List (K × P)) : List (WithZero P) := (l.filter (·.1 = k)).map fun a => (a.2 : WithZero P)

theorem amounts_append (l l' : List (K × P)) : amounts k (l ++ l') = amounts k l ++ amounts k l' := by
  rw [amounts, List.filter_append, List.map_append, amounts, amounts]

variable [AddCommSemigroup P]

def accumulate (m : OrderedMap K P) (k : K) (p : P) : OrderedMap K P :=
  m.set k (match m.get k with
    | none => p
    | some q => q + p)

def accumulateAll (m : OrderedMap K P) (l : List (K × P)) : OrderedMap K P := l.foldl (fun m a => m.accumulate a.1 a.2) m

theorem total_accumulate (m : OrderedMap K P) (k' : K) (p : P) :
    (m.accumulate k' p).total k = m.total k + (amounts k [(k', p)]).sum := by
  unfold total accumulate amounts
  rw [get_set]
  by_cases same : k = k'
  · subst same
    simp only [if_true, List.filter_cons, decide_true, List.filter_nil, List.map_cons, List.map_nil, List.sum_singleton]
    cases m.get k with
    | none => exact (zero_add (p : WithZero P)).symm
    | some q => rfl
  · simp only [same, Ne.symm same, if_false, List.filter_cons, decide_false, Bool.false_eq_true, List.filter_nil, List.map_nil, List.sum_nil]
    exact (add_zero _).symm

theorem total_accumulateAll (m : OrderedMap K P) (l : List (K × P)) :
    (m.accumulateAll l).total k = m.total k + (amounts k l).sum := by
  induction l generalizing m with
  | nil => exact (add_zero _).symm
  | cons a l ih =>
    have split : amounts k (a :: l) = amounts k [a] ++ amounts k l := amounts_append [a] l
    rw [accumulateAll, List.foldl_cons, ← accumulateAll, ih, total_accumulate, split, List.sum_append, add_assoc]

/-- The entries of a map are its sums. -/
theorem amounts_entries (m : OrderedMap K P) : (amounts k m.entries).sum = m.total k := by
  rw [amounts, entries_filter, total]
  cases m.get k with
  | none => rfl
  | some p => exact List.sum_singleton

theorem amounts_perm {l l' : List (K × P)} (perm : l.Perm l') : (amounts k l).sum = (amounts k l').sum :=
  ((perm.filter _).map _).sum_eq

/-- Adding the sums of a map, in any order, adds what the map was made of. -/
theorem total_accumulate_entries {sums : List (K × P)} {m' : OrderedMap K P} (perm : sums.Perm m'.entries) :
    (m.accumulateAll sums).total k = m.total k + m'.total k := by
  rw [total_accumulateAll, amounts_perm perm, amounts_entries]

end OrderedMap
