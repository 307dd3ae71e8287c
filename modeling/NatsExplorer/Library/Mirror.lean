import Mathlib.Data.List.Basic
import Mathlib.Logic.Function.Basic

/-! A mirror kept up by deltas: a full update clears it, removed keys are
deleted, entries overwrite in list order. -/
namespace Mirror
variable {K V : Type} [DecidableEq K]

structure Update (K V : Type) where
  full : Bool
  entries : List V
  removed : List K

def overwrite (key : V → K) (tab : K → Option V) (entry : V) : K → Option V :=
  Function.update tab (key entry) (some entry)

def apply (key : V → K) (tab : K → Option V) (up : Update K V) : K → Option V :=
  up.entries.foldl (overwrite key) fun s =>
    if up.full = true ∨ s ∈ up.removed then none else tab s

variable {key : V → K} {tab : K → Option V} {entries : List V} {s : K} {v : V}

theorem fold_absent (absent : ∀ e ∈ entries, key e ≠ s) :
    entries.foldl (overwrite key) tab s = tab s := by
  induction entries generalizing tab with
  | nil => rfl
  | cons e rest ih =>
    rw [List.foldl_cons, ih fun e' member => absent e' (List.mem_cons_of_mem _ member)]
    exact Function.update_of_ne (absent e List.mem_cons_self).symm ..

theorem fold_agree (member : v ∈ entries) (keyed : key v = s)
    (agree : ∀ e ∈ entries, key e = s → e = v) :
    entries.foldl (overwrite key) tab s = some v := by
  induction entries generalizing tab with
  | nil => cases member
  | cons e rest ih =>
    rw [List.foldl_cons]
    by_cases later : v ∈ rest
    · exact ih later fun e' member' => agree e' (List.mem_cons_of_mem _ member')
    · have same : v = e := (List.mem_cons.mp member).resolve_right later
      have absent : ∀ e' ∈ rest, key e' ≠ s := fun e' member' keyed' =>
        later (agree e' (List.mem_cons_of_mem _ member') keyed' ▸ member')
      rw [fold_absent absent, ← same, overwrite, keyed, Function.update_self]

/-- From an entry on, what is said of its key agrees with it. -/
theorem fold_from (head : List V) {tail : List V} (keyed : key v = s)
    (agree : ∀ e ∈ tail, key e = s → e = v) :
    (head ++ v :: tail).foldl (overwrite key) tab s = some v := by
  rw [List.foldl_append]
  refine fold_agree List.mem_cons_self keyed fun e member keyed' => ?_
  rcases List.mem_cons.mp member with same | member
  · exact same
  · exact agree e member keyed'

/-- What a tab has after an update that may not have been worth sending. -/
def receive (key : V → K) (tab : K → Option V) : Option (Update K V) → K → Option V
  | none => tab
  | some up => apply key tab up

/-- Whether an update that says nothing is sent makes no difference. -/
theorem receive_worth {up : Update K V} {idle : Prop} [Decidable idle]
    (nothing : idle → up.full = false ∧ up.entries = [] ∧ up.removed = []) :
    receive key tab (if idle then none else some up) = receive key tab (some up) := by
  split
  · obtain ⟨full, entries, removed⟩ := nothing ‹_›
    funext s
    simp [receive, apply, full, entries, removed]
  · rfl

end Mirror
