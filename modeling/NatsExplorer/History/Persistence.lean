import NatsExplorer.Filter
import NatsExplorer.History.Database
import NatsExplorer.Library.Transition

/-! The setting that switches the database on and off while the server runs
(`internal/history/persistence.go`), and what an installation goes through: starts
and closes, changes of the setting, batches of the writer and deletions. -/
namespace NatsExplorer.History
open Go

def minute : Int := 60 * 10 ^ 9
def minRetention : Int := minute
def maxRetention : Int := 365 * 24 * 60 * minute
def forever : Int := 0
def minQueueBytes : Int := 2 ^ 20
def maxQueueBytes : Int := 2 * 2 ^ 30
def minMaxBytes : Int := 16 * 2 ^ 20
def defaultWriteBuffer : Int := 64 * 2 ^ 20

def validRetention (d : Int) : Bool := d = forever || (minRetention ≤ d && d ≤ maxRetention)
def validMaxBytes (n : Int) : Bool := n = 0 || minMaxBytes ≤ n

/-- The state to start in; a stored choice is applied by the caller first. -/
structure PersistenceOptions where
  path : Str
  managed : Bool
  enabled : Bool
  fullText : Bool
  filter : Str
  queueBytes : Int
  maxBytes : Int

/-- One change to the setting. -/
structure PersistenceRequest where
  enabled : Bool
  retention : Int
  fullText : Bool
  filter : Str
  /-- Zero keeps the current one. -/
  queueBytes : Int
  /-- `none` keeps the current one, zero removes the cap. -/
  maxBytes : Option Int
  purge : Bool

/-- `db` is the database the tee copies to, with the file it has open; `file` is
what lies at `path` while none is open. -/
structure Persistence where
  path : Str
  managed : Bool
  fullText : Bool
  queueBytes : Int
  maxBytes : Int
  persist : Option Filter.Program
  db : Option DB
  file : File

def errManaged : String :=
  "the persistent history is configured by HISTORY_DB and cannot be changed from the UI"
def errUnsupported : String := "this installation has no place for a history database"

variable [Tables] [Filter.Compiler]

/-- An empty expression removes the filter. -/
def applyFilter (expr : Str) : Except String (Option Filter.Program) :=
  if strings.trimSpace expr = [] then .ok none
  else
    match Filter.Compiler.compile expr with
    | .error e => .error ("persist filter: " ++ String.ofList e)
    | .ok p => .ok (some p)

namespace Persistence

/-- What `Set` refuses before it changes anything. -/
def check (p : Persistence) (req : PersistenceRequest) : Except String (Option Filter.Program) :=
  let queueBytes := if req.queueBytes = 0 then p.queueBytes else req.queueBytes
  if p.managed then .error errManaged
  else if p.path = [] then .error errUnsupported
  else if !validRetention req.retention then
    .error "retention must be between 1m0s and 8760h0m0s, or zero to keep everything"
  else if queueBytes < minQueueBytes ∨ maxQueueBytes < queueBytes then
    .error "the write buffer must be between 1 MB and 2 GB"
  else if !validMaxBytes (req.maxBytes.getD p.maxBytes) then
    .error "the disk limit must be at least 16 MB, or zero for none"
  else applyFilter req.filter

variable [Tokenizer]

def set (p : Persistence) (req : PersistenceRequest) : Except String Persistence :=
  match p.check req with
  | .error e => .error e
  | .ok persist =>
    let p := { p with
      fullText := req.fullText
      queueBytes := if req.queueBytes = 0 then p.queueBytes else req.queueBytes
      maxBytes := req.maxBytes.getD p.maxBytes
      persist := persist }
    let p :=
      match req.enabled, p.db with
      | true, none => { p with db := some ((DB.openDB p.file).setFullText req.fullText) }
      | true, some d => { p with db := some (d.setFullText req.fullText) }
      | false, some d => { p with db := none, file := d.file }
      | false, none => p
    .ok (if req.purge ∧ !req.enabled then { p with file := .fresh } else p)

/-- `NewPersistence` over the file it finds; a filter that does not compile leaves
the history memory-only. -/
def newPersistence (o : PersistenceOptions) (file : File) : Persistence :=
  let p : Persistence := {
    path := o.path
    managed := o.managed
    fullText := o.fullText
    queueBytes := if o.queueBytes < minQueueBytes ∨ maxQueueBytes < o.queueBytes then defaultWriteBuffer
      else o.queueBytes
    maxBytes := if validMaxBytes o.maxBytes then o.maxBytes else 0
    persist := none
    db := none
    file := file }
  match applyFilter o.filter with
  | .error _ => p
  | .ok persist =>
    if o.enabled = false ∨ o.path = [] then { p with persist := persist }
    else { p with
      persist := persist
      db := some ((DB.openDB file).setFullText o.fullText) }

def close (p : Persistence) : Persistence :=
  match p.db with
  | none => p
  | some d => { p with db := none, file := d.file }

/-- An operation on the open database. -/
def withDB (p : Persistence) (f : DB → DB) : Persistence := { p with db := p.db.map f }

omit [Tables] [Filter.Compiler] [Tokenizer] in
theorem withDB_none {p : Persistence} (closed : p.db = none) (f : DB → DB) : p.withDB f = p := by
  cases p
  cases closed
  rfl

end Persistence

inductive Deletion where
  | expire (before : Int)
  | trim (count : Nat)
  | connection (connID : Str)
  | subject (connID subject : Str) (branch : Bool)

variable [Tokenizer]

def File.delete (f : File) : Deletion → File
  | .expire before => f.expire before
  | .trim count => f.trim count
  | .connection connID => f.deleteConnection connID
  | .subject connID subject branch => f.deleteSubject connID subject branch

omit [Tables] [Filter.Compiler] in
/-- Each of them deletes what some condition on the rows says. -/
theorem File.delete_eq (f : File) (d : Deletion) : ∃ gone, f.delete d = f.deleteWhere gone := by
  cases d <;> exact ⟨_, rfl⟩

namespace Persistence

inductive Op where
  /-- The server stops and starts again. -/
  | restart (o : PersistenceOptions)
  | set (req : PersistenceRequest)
  | setFullText (on : Bool)
  | insert (batch : List (Str × Record))
  | delete (d : Deletion)
  | close

def step (p : Persistence) : Op → Persistence
  | .restart o => newPersistence o p.close.file
  | .set req =>
    match p.set req with
    | .error _ => p
    | .ok p => p
  | .setFullText on => p.withDB fun d => d.setFullText on
  | .insert batch => p.withDB fun d => { d with file := d.file.insert batch }
  | .delete del => p.withDB fun d => { d with file := d.file.delete del }
  | .close => p.close

/-- The file an operation opens, and the flag it opens it with. -/
def opens (p : Persistence) : Op → Option (File × Bool)
  | .restart o =>
    match applyFilter o.filter with
    | .error _ => none
    | .ok _ => if o.enabled = false ∨ o.path = [] then none else some (p.close.file, o.fullText)
  | .set req =>
    match p.check req, req.enabled, p.db with
    | .ok _, true, none => some (p.file, req.fullText)
    | _, _, _ => none
  | _ => none

/-- What an operation does, seen from the database: nothing, it opens the file,
works on the open one, or leaves it closed, purged or not. -/
inductive Moves (p q : Persistence) (op : Op) : Prop where
  | same : p.opens op = none → q = p → Moves p q op
  | opened (f : File) (flag : Bool) : p.opens op = some (f, flag) → f = p.close.file →
      q.db = some ((DB.openDB f).setFullText flag) → Moves p q op
  | flagged (d : DB) (on : Bool) : p.opens op = none → p.db = some d →
      q.db = some (d.setFullText on) → Moves p q op
  | inserted (d : DB) (batch : List (Str × Record)) : op = .insert batch → p.opens op = none →
      p.db = some d → q.db = some { d with file := d.file.insert batch } → Moves p q op
  | deleted (d : DB) (gone : Row → Bool) : p.opens op = none → p.db = some d →
      q.db = some { d with file := d.file.deleteWhere gone } → Moves p q op
  | closed : p.opens op = none → q.db = none → q.file = p.close.file ∨ q.file = .fresh →
      Moves p q op

theorem step_moves (p : Persistence) (op : Op) : Moves p (p.step op) op := by
  cases op with
  | restart o =>
    simp only [step, newPersistence]
    cases filter : applyFilter o.filter with
    | error e => exact .closed (by simp only [opens, filter]) rfl (Or.inl rfl)
    | ok persist =>
      simp only
      split
      · rename_i off
        exact .closed (by simp only [opens, filter, if_pos off]) rfl (Or.inl rfl)
      · rename_i on
        exact .opened _ _ (by simp only [opens, filter, if_neg on]) rfl rfl
  | set req =>
    simp only [step, set]
    cases checked : p.check req with
    | error e => exact .same (by simp only [opens, checked]) rfl
    | ok persist =>
      simp only
      cases enabled : req.enabled with
      | true =>
        cases current : p.db with
        | none =>
          refine .opened p.file req.fullText ?_ ?_ ?_
          · simp only [opens, checked, enabled, current]
          · simp only [close, current]
          · simp
        | some d =>
          refine .flagged d req.fullText ?_ current ?_
          · simp only [opens, checked, enabled, current]
          · simp
      | false =>
        refine .closed ?_ ?_ ?_
        · simp only [opens, checked, enabled]
        · cases current : p.db <;> split_ifs <;> simp
        · cases current : p.db <;> split_ifs <;> simp [close, current]
  | setFullText on =>
    cases current : p.db with
    | none => exact .same rfl (withDB_none current _)
    | some d => exact .flagged d on rfl current (by simp [step, withDB, current])
  | insert batch =>
    cases current : p.db with
    | none => exact .same rfl (withDB_none current _)
    | some d => exact .inserted d batch rfl rfl current (by simp [step, withDB, current])
  | delete del =>
    cases current : p.db with
    | none => exact .same rfl (withDB_none current _)
    | some d =>
      obtain ⟨gone, same⟩ := d.file.delete_eq del
      exact .deleted d gone rfl current (by simp [step, withDB, current, same])
  | close =>
    refine .closed rfl ?_ (Or.inl ?_)
    · simp only [step, close]
      cases current : p.db with
      | none => exact current
      | some d => rfl
    · rfl

end Persistence
end NatsExplorer.History

namespace NatsExplorer.History.Persistence
open Go

/-! A small installation, for concrete runs. -/

@[reducible] def sampleCompiler : Filter.Compiler := ⟨fun _ => .error []⟩
@[reducible] def oneToken : Tokenizer := ⟨fun s => if s = [] then [] else [s]⟩

def sampleStart (fullText : Bool) : PersistenceOptions where
  path := ['d']
  managed := false
  enabled := true
  fullText := fullText
  filter := []
  queueBytes := 0
  maxBytes := 0

def sampleInstall : Persistence where
  path := []
  managed := false
  fullText := false
  queueBytes := 0
  maxBytes := 0
  persist := none
  db := none
  file := .fresh

def recorded (payload : Str) (seq : Nat) : Str × Record :=
  (['c'], { subject := ['s'], data := .text payload, timestamp := seq, sequence := seq })

end NatsExplorer.History.Persistence
