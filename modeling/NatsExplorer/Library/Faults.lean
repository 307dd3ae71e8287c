import Mathlib.Data.List.Basic

/-! Operations on a state that may fail. A run is given what the operations to come
fail with, so that a statement about every run covers every failing step. -/
namespace Faults
variable {S E O : Type}

/-- `none` stands for an operation that does not fail; neither does one past the end. -/
structure World (S E : Type) where
  state : S
  faults : List (Option E)

abbrev Run (S E α : Type) := EStateM E (World S E) α

/-- An operation that fails leaves the state as it was. -/
def update (f : S → S) : Run S E Unit
  | ⟨s, some e :: faults⟩ => .error e ⟨s, faults⟩
  | ⟨s, none :: faults⟩ => .ok () ⟨f s, faults⟩
  | ⟨s, []⟩ => .ok () ⟨f s, []⟩

/-- What is done of a list of operations before one fails, and which does, with what. -/
def passed : List O → List (Option E) → List O × Option (O × E)
  | [], _ => ([], none)
  | ops, [] => (ops, none)
  | op :: _, some e :: _ => ([], some (op, e))
  | op :: ops, none :: faults => (op :: (passed ops faults).1, (passed ops faults).2)

theorem passed_nofaults (ops : List O) : passed ops ([] : List (Option E)) = (ops, none) := by
  cases ops <;> rfl

section Sequence
variable (act : O → S → S) (wrap : O → E → E)

/-- What a list of operations does to the state. -/
def after (ops : List O) (s : S) : S := ops.foldl (fun s op => act op s) s

def sequence (ops : List O) : Run S E Unit :=
  forM ops fun op => EStateM.adaptExcept (wrap op) (update (act op))

variable {act wrap}

/-- A sequence stops at the operation that fails, with what was done before it. -/
theorem sequence_failed {ops : List O} {s : S} {faults : List (Option E)} {op : O} {e : E}
    (failed : (passed ops faults).2 = some (op, e)) : ∃ faults', sequence act wrap ops ⟨s, faults⟩ =
      .error (wrap op e) ⟨after act (passed ops faults).1 s, faults'⟩ := by
  induction ops generalizing s faults with
  | nil => cases failed
  | cons first ops ih =>
    match faults with
    | [] => cases failed
    | some _ :: faults =>
      cases failed
      exact ⟨faults, rfl⟩
    | none :: faults => exact ih failed

theorem sequence_done {ops : List O} {s : S} {faults : List (Option E)}
    (done : (passed ops faults).2 = none) : ∃ faults', sequence act wrap ops ⟨s, faults⟩ =
      .ok () ⟨after act ops s, faults'⟩ := by
  induction ops generalizing s faults with
  | nil => exact ⟨faults, rfl⟩
  | cons first ops ih =>
    match faults with
    | [] => exact ih (by rw [passed_nofaults])
    | some _ :: _ => cases done
    | none :: faults => exact ih done

theorem sequence_append (before ops : List O) : sequence act wrap (before ++ ops) =
    (do sequence (E := E) act wrap before; sequence act wrap ops) :=
  List.forM_append

end Sequence

section After
variable {act : O → S → S} {ops : List O} {s : S}

theorem after_append (before ops : List O) (s : S) : after act (before ++ ops) s = after act ops (after act before s) :=
  List.foldl_append ..

/-- What no operation changes stays. -/
theorem after_unchanged {β : Type} (view : S → β) (frame : ∀ op ∈ ops, ∀ s, view (act op s) = view s) :
    view (after act ops s) = view s := by
  induction ops generalizing s with
  | nil => rfl
  | cons op ops ih =>
    have rest : ∀ later ∈ ops, ∀ s, view (act later s) = view s := fun later member =>
      frame later (List.mem_cons_of_mem op member)
    exact (ih rest).trans (frame op List.mem_cons_self s)

end After
end Faults
