import Mathlib.Algebra.Order.Ring.Int
import Mathlib.Algebra.Order.Ring.Nat
import Mathlib.Data.Char
import Mathlib.Data.List.AList
import Mathlib.Data.List.Infix
import Mathlib.Data.List.Lex
import Mathlib.Data.List.Sort

/-! What the Go language leaves open: the order in which `range` visits a map,
the order `sort.Slice` gives elements it finds equal, and the layout
`container/heap` keeps below its root. A `Runtime` is one way of settling them;
statements about every `Runtime` hold on every execution. -/
namespace Go

/-- Strings are the runes they encode. -/
abbrev Str := List Char

instance (priority := high) Str.lawful : LawfulBEq Str := inferInstance

abbrev Map (K V : Type) := AList (fun _ : K => V)

/-- `map[K]struct{}` -/
abbrev KeySet (K : Type) := Map K Unit

def Map.values {K V : Type} (m : Map K V) : List V := m.entries.map (·.snd)

theorem Map.mem_values {K V : Type} [DecidableEq K] {m : Map K V} {v : V} :
    v ∈ m.values ↔ ∃ k, m.lookup k = some v := by
  constructor
  · intro member
    obtain ⟨⟨k, v⟩, listed, rfl⟩ := List.mem_map.mp member
    exact ⟨k, AList.mem_lookup_iff.mpr listed⟩
  · rintro ⟨k, found⟩
    exact List.mem_map.mpr ⟨⟨k, v⟩, AList.mem_lookup_iff.mp found, rfl⟩

/-- A value put in the place of another, among all values. -/
theorem Map.sum_values_insert {K V : Type} [DecidableEq K] (measure : V → ℕ) (m : Map K V) (k : K) (v : V) :
    ((values (m.insert k v)).map measure).sum + (m.lookup k).elim 0 measure = ((values m).map measure).sum + measure v := by
  unfold Map.values
  rw [AList.entries_insert, List.map_cons, List.map_cons, List.sum_cons]
  by_cases known : k ∈ m
  · obtain ⟨old, before, after, absent, whole, rest⟩ := List.exists_of_kerase known
    have found : m.lookup k = some old := by
      refine AList.mem_lookup_iff.mpr ?_
      rw [whole]
      exact List.mem_append_right _ List.mem_cons_self
    rw [found, rest, whole, Option.elim_some]
    simp only [List.map_append, List.map_cons, List.sum_append, List.sum_cons]
    omega
  · rw [AList.lookup_eq_none.mpr known, List.kerase_of_notMem_keys known, Option.elim_none]
    rw [Nat.add_zero, Nat.add_comm]

/-- What `sort` and `container/heap` ask of a `less` function. -/
structure StrictWeak {α : Type} (less : α → α → Bool) : Prop where
  asymm : ∀ a b, less a b = true → less b a = false
  trans : ∀ a b c, less a b = false → less b c = false → less a c = false

structure Runtime where
  range {α : Type} : List α → List α
  range_perm {α : Type} (l : List α) : (range l).Perm l
  sortSlice {α : Type} (less : α → α → Bool) : List α → List α
  sortSlice_perm {α : Type} (less : α → α → Bool) (l : List α) : (sortSlice less l).Perm l
  sortSlice_sorted {α : Type} {less : α → α → Bool} (l : List α) : StrictWeak less →
    (sortSlice less l).Pairwise (fun a b => less b a = false)
  heapify {α : Type} (less : α → α → Bool) : List α → List α
  heapify_perm {α : Type} (less : α → α → Bool) (l : List α) : (heapify less l).Perm l
  heapify_root {α : Type} {less : α → α → Bool} {l rest : List α} {root : α} : StrictWeak less →
    heapify less l = root :: rest → ∀ x ∈ rest, less x root = false

namespace Runtime

theorem mem_range (rt : Runtime) {α : Type} {l : List α} {a : α} : a ∈ rt.range l ↔ a ∈ l :=
  (rt.range_perm l).mem_iff

theorem mem_sortSlice (rt : Runtime) {α : Type} {less : α → α → Bool} {l : List α} {a : α} :
    a ∈ rt.sortSlice less l ↔ a ∈ l :=
  (rt.sortSlice_perm less l).mem_iff

/-- Insertion sort: what `sort.Slice` runs on a dozen elements, and the
documented behaviour of the stable sorts. -/
def insertion {α : Type} (less : α → α → Bool) (l : List α) : List α :=
  l.insertionSort (fun a b => less b a = false)

theorem insertion_perm {α : Type} (less : α → α → Bool) (l : List α) :
    (insertion less l).Perm l :=
  List.perm_insertionSort _ l

theorem insertion_sorted {α : Type} {less : α → α → Bool} (weak : StrictWeak less) (l : List α) :
    (insertion less l).Pairwise (fun a b => less b a = false) := by
  have : Std.Total (fun a b : α => less b a = false) := ⟨fun a b => by
    cases first : less b a with
    | false => exact Or.inl rfl
    | true => exact Or.inr (weak.asymm _ _ first)⟩
  have : IsTrans α (fun a b : α => less b a = false) :=
    ⟨fun a b c first second => weak.trans _ _ _ second first⟩
  exact List.pairwise_insertionSort _ l

theorem insertion_root {α : Type} {less : α → α → Bool} {l rest : List α} {root : α}
    (weak : StrictWeak less) (sorted : insertion less l = root :: rest) :
    ∀ x ∈ rest, less x root = false :=
  (List.pairwise_cons.mp (sorted ▸ insertion_sorted weak l)).1

/-- Maps in insertion order and stable sorts. -/
def plain : Runtime where
  range l := l
  range_perm l := .refl l
  sortSlice := insertion
  sortSlice_perm := insertion_perm
  sortSlice_sorted l weak := insertion_sorted weak l
  heapify := insertion
  heapify_perm := insertion_perm
  heapify_root weak sorted := insertion_root weak sorted

/-- A `sort.Slice` that turns the elements it finds equal around. -/
def turned : Runtime where
  range l := l
  range_perm l := .refl l
  sortSlice less l := insertion less l.reverse
  sortSlice_perm less l := (insertion_perm less _).trans l.reverse_perm
  sortSlice_sorted l weak := insertion_sorted weak l.reverse
  heapify := insertion
  heapify_perm := insertion_perm
  heapify_root weak sorted := insertion_root weak sorted

end Runtime
end Go
