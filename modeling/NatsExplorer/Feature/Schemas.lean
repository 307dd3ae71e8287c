import NatsExplorer.Go.Text
import NatsExplorer.Library.Overwriting

/-! Pinned schemas (`feature_schemas.go`): PUT and DELETE copy the list, edit the copy, put
it in force and store what is in force then. -/
namespace NatsExplorer.Feature
open Go Overwriting

structure ExpectedField where
  path : Str
  types : List Str := []
  required : Bool := false
  enum : List Str := []
  deriving DecidableEq

structure PinnedSchema where
  id : Str
  pattern : Str
  note : Str := []
  pinnedAt : Int
  samples : Int
  fields : List ExpectedField
  strict : Bool := false
  deriving DecidableEq

def maxPinned : ℕ := 200

/-- `now` is when the request came to be worked on. -/
inductive SchemaRequest where
  | put (body : PinnedSchema) (now : Int)
  | delete (pattern : Str)

/-- A pinned schema as PUT takes it. -/
def PinnedSchema.taken (body : PinnedSchema) (now : Int) : PinnedSchema :=
  { body with pinnedAt := now, id := if body.id = [] then body.pattern else body.id }

namespace SchemaRequest

/-- What a request makes of its copy, or why it is turned down. -/
def edit : SchemaRequest → List PinnedSchema → Except String (List PinnedSchema)
  | .put body now, list =>
    if body.pattern = [] then .error "pattern is required"
    else if body.fields = [] then .error "a schema without fields would accept everything"
    else
      let kept := list.filter (·.pattern ≠ body.pattern)
      if maxPinned ≤ kept.length then .error "too many pinned schemas"
      else .ok (kept ++ [body.taken now])
  | .delete pattern, list => .ok (list.filter (·.pattern ≠ pattern))

/-- `set` keeps the list in the order of the patterns. -/
def sorted (list : List PinnedSchema) : List PinnedSchema := list.mergeSort fun a b => a.pattern ≤ b.pattern

/-- What is stored is read again. -/
def save (r : SchemaRequest) (list : List PinnedSchema) : Option (List PinnedSchema × Option (List PinnedSchema)) :=
  (r.edit list).toOption.map fun edited => (sorted edited, none)

def change : SchemaRequest → Change Str PinnedSchema
  | .put body now => .put (body.taken now)
  | .delete pattern => .delete pattern

variable {r : SchemaRequest} {list list' : List PinnedSchema} {own : Option (List PinnedSchema)}

theorem mem_edit (edited : r.edit list = .ok list') (e : PinnedSchema) :
    e ∈ list' ↔ (e ∈ list ∧ r.change.target PinnedSchema.pattern ≠ e.pattern) ∨ r.change = .put e := by
  cases r with
  | delete pattern =>
    cases edited
    rw [List.mem_filter, decide_eq_true_eq]
    simp [change, Change.target, eq_comm]
  | put body now =>
    unfold edit at edited
    dsimp only at edited
    split_ifs at edited
    cases edited
    rw [List.mem_append, List.mem_filter, List.mem_singleton, decide_eq_true_eq]
    simp only [change, Change.target, Change.put.injEq]
    refine or_congr (and_congr_right fun _ => ?_) eq_comm
    exact ne_comm

theorem mem_save (saved : r.save list = some (list', own)) (e : PinnedSchema) :
    e ∈ list' ↔ (e ∈ list ∧ r.change.target PinnedSchema.pattern ≠ e.pattern) ∨ r.change = .put e := by
  unfold save at saved
  cases edited : r.edit list with
  | error e =>
    rw [edited] at saved
    cases saved
  | ok kept =>
    rw [edited] at saved
    cases saved
    unfold sorted
    rw [List.mem_mergeSort]
    exact mem_edit edited e

end SchemaRequest
end NatsExplorer.Feature
