import NatsExplorer.History.Persistence

/-! A change of the setting of the persistent history with every step that may fail
(`Persistence.Set` in `internal/history/persistence.go`): what it leaves behind when it
returns an error, and what is in force when it does not. -/
namespace NatsExplorer.History
open Go

/-- What an open database works with. -/
structure Limits where
  retention : Int
  queueBytes : Int
  maxBytes : Int
  deriving DecidableEq

/-- The stored choice. -/
structure PersistenceConfig where
  enabled : Bool
  retention : Int
  fullText : Bool
  filter : Str
  queueBytes : Int
  maxBytes : Int
  deriving DecidableEq

/-- What the UI shows and edits. -/
structure PersistenceStatus where
  supported : Bool
  reason : String
  managed : Bool
  enabled : Bool
  path : Str
  retention : Int
  fullText : Bool
  filter : Str
  queueBytes : Int
  maxQueueBytes : Int
  maxBytes : Int
  deriving DecidableEq

/-- The controller with all its fields; `limits` are those of the open database, and
`stored` is what `save` was last given, where there is one. -/
structure Controller extends Persistence where
  retention : Int
  filterExpr : Str
  limits : Limits
  saves : Bool
  stored : Option PersistenceConfig

/-- The steps of a change that fail: with what, and what they leave of the file, or of the
triggers, all the same. -/
structure Failures where
  openDB : Option (String × File) := none
  setFullText : Option (String × Bool) := none
  close : Option String := none
  removeDB : Option (String × File) := none
  save : Option String := none

namespace Controller

def unsupportedReason : String :=
  "this installation keeps its state in the browser; start the server with STORAGE_DIR or HISTORY_DB to persist the history"

def status (p : Controller) : PersistenceStatus :=
  let st : PersistenceStatus := {
    supported := p.path ≠ []
    reason := if p.path ≠ [] then "" else unsupportedReason
    managed := p.managed
    enabled := false
    path := p.path
    retention := p.retention
    fullText := p.fullText
    filter := p.filterExpr
    queueBytes := p.queueBytes
    maxQueueBytes := maxQueueBytes
    maxBytes := p.maxBytes }
  match p.db with
  | none => st
  | some d => { st with
      enabled := true
      retention := p.limits.retention
      fullText := d.fullText
      queueBytes := p.limits.queueBytes
      maxBytes := p.limits.maxBytes }

/-- A request that leaves the buffer at zero or the cap out keeps what there is. -/
def queueBytesOf (p : Controller) (req : PersistenceRequest) : Int :=
  if req.queueBytes = 0 then p.queueBytes else req.queueBytes

def maxBytesOf (p : Controller) (req : PersistenceRequest) : Int := req.maxBytes.getD p.maxBytes

variable [Tables] [Filter.Compiler]

/-- The fields a valid request sets before anything is opened or closed. -/
def assign (p : Controller) (req : PersistenceRequest) (persist : Option Filter.Program) : Controller :=
  { p with
    persist := persist
    retention := req.retention
    fullText := req.fullText
    filterExpr := strings.trimSpace req.filter
    queueBytes := p.queueBytesOf req
    maxBytes := p.maxBytesOf req }

/-- What `save` is given. -/
def config (p : Controller) (req : PersistenceRequest) : PersistenceConfig where
  enabled := req.enabled
  retention := req.retention
  fullText := req.fullText
  filter := strings.trimSpace req.filter
  queueBytes := p.queueBytesOf req
  maxBytes := p.maxBytesOf req

omit [Tables] [Filter.Compiler] in
/-- Without a `save` the choice is for this run only. -/
def save (p : Controller) (failure : Option String) (config : PersistenceConfig) : Option String × Controller :=
  match p.saves, failure with
  | false, _ => (none, p)
  | true, some e => (some e, p)
  | true, none => (none, { p with stored := some config })

omit [Tables] [Filter.Compiler] in
/-- Deletes the file and stores the choice. -/
def finish (p : Controller) (f : Failures) (req : PersistenceRequest) (config : PersistenceConfig) :
    Option String × Controller :=
  if req.purge ∧ !req.enabled then
    match f.removeDB with
    | some (e, file) => (some e, { p with file := file })
    | none => save { p with file := .fresh } f.save config
  else p.save f.save config

variable [Tokenizer]

/-- Nothing happens where the flag is set already. -/
def trySetFullText (failure : Option (String × Bool)) (d : DB) (on : Bool) : Option String × DB :=
  if d.fullText = on then (none, d)
  else
    match failure with
    | some (e, triggers) => (some e, { d with file := { d.file with triggers := triggers } })
    | none => (none, d.setFullText on)

/-- Opens the database, changes what it works with, or closes it. -/
def switch (p : Controller) (f : Failures) (req : PersistenceRequest) (limits : Limits) : Option String × Controller :=
  match req.enabled, p.db with
  | true, none =>
    match f.openDB with
    | some (e, file) => (some ("history db " ++ String.ofList p.path ++ ": " ++ e), { p with file := file })
    | none =>
      match trySetFullText f.setFullText (DB.openDB p.file) req.fullText with
      | (some e, d) => (some e, { p with file := d.file })
      | (none, d) => (none, { p with db := some d, limits := limits })
  | true, some d =>
    match trySetFullText f.setFullText d req.fullText with
    | (some e, d) => (some e, { p with db := some d, limits := limits })
    | (none, d) => (none, { p with db := some d, limits := limits })
  | false, some d =>
    match f.close with
    | some e => (some e, { p with db := none, file := d.file })
    | none => (none, { p with db := none, file := d.file })
  | false, none => (none, p)

def set (p : Controller) (f : Failures) (req : PersistenceRequest) : Option String × Controller :=
  match p.check req with
  | .error e => (some e, p)
  | .ok persist =>
    match (p.assign req persist).switch f req ⟨req.retention, p.queueBytesOf req, p.maxBytesOf req⟩ with
    | (some e, q) => (some e, q)
    | (none, q) => q.finish f req (p.config req)

/-- What the caller can see is as it was. -/
structure Untouched (p q : Controller) : Prop where
  status : q.status = p.status
  filter : q.persist = p.persist
  db : q.db = p.db
  limits : q.db.isSome = true → q.limits = p.limits
  stored : q.stored = p.stored

omit [Tokenizer] in
/-- The status of a request that was met. -/
def requested (p : Controller) (req : PersistenceRequest) : PersistenceStatus := { p.status with
  enabled := req.enabled
  retention := req.retention
  fullText := req.fullText
  filter := strings.trimSpace req.filter
  queueBytes := p.queueBytesOf req
  maxBytes := p.maxBytesOf req }

/-- What is in force is what was asked for. -/
structure Describes (p q : Controller) (req : PersistenceRequest) : Prop where
  status : q.status = p.requested req
  filter : applyFilter req.filter = .ok q.persist
  stored : p.saves = true → q.stored = some (p.config req)

def AllOrNothing (p : Controller) (f : Failures) (req : PersistenceRequest) : Prop :=
  match p.set f req with
  | (some _, q) => Untouched p q
  | (none, q) => Describes p q req

/-- The request asks for what the status shows, but for the word index. -/
structure InForce (p : Controller) (req : PersistenceRequest) (persist : Option Filter.Program) : Prop where
  program : persist = p.persist
  filter : strings.trimSpace req.filter = p.status.filter
  retention : req.retention = p.status.retention
  queueBytes : p.queueBytesOf req = p.status.queueBytes
  maxBytes : p.maxBytesOf req = p.status.maxBytes

/-- The file cannot be deleted or the choice cannot be saved. -/
def FinishFails (p : Controller) (f : Failures) (req : PersistenceRequest) : Prop :=
  (req.purge = true ∧ req.enabled = false ∧ f.removeDB.isSome = true) ∨ (p.saves = true ∧ f.save.isSome = true)

/-- A step that fails, if any, fails with nothing changed yet: the request is what is in
force, and the database is not opened or closed by it. -/
def Harmless (p : Controller) (f : Failures) (req : PersistenceRequest) (persist : Option Filter.Program) : Prop :=
  match req.enabled, p.db with
  | true, none =>
    if f.openDB.isSome = true ∨ (f.setFullText.isSome = true ∧ req.fullText = false) then
      InForce p req persist ∧ req.fullText = p.status.fullText
    else ¬ FinishFails p f req
  | true, some d =>
    if d.fullText = req.fullText then FinishFails p f req → InForce p req persist
    else
      match f.setFullText with
      | some (_, triggers) => InForce p req persist ∧ triggers = d.file.triggers
      | none => ¬ FinishFails p f req
  | false, some _ => f.close = none ∧ ¬ FinishFails p f req
  | false, none => FinishFails p f req → InForce p req persist ∧ req.fullText = p.status.fullText

section Finish
variable {p : Controller} {f : Failures} {req : PersistenceRequest} {c : PersistenceConfig}

omit [Tables] [Filter.Compiler] [Tokenizer]

theorem save_failed (fails : p.saves = true ∧ f.save.isSome = true) : ∃ e, p.save f.save c = (some e, p) := by
  obtain ⟨e, failure⟩ := Option.isSome_iff_exists.mp fails.2
  refine ⟨e, ?_⟩
  unfold save
  rw [fails.1, failure]

theorem save_done (done : ¬ (p.saves = true ∧ f.save.isSome = true)) :
    p.save f.save c = (none, { p with stored := if p.saves then some c else p.stored }) := by
  obtain ⟨inner, retention, filterExpr, limits, saves, stored⟩ := p
  unfold save
  cases saves with
  | false => rfl
  | true =>
    cases failure : f.save with
    | some e => exact absurd ⟨rfl, by rw [failure]; rfl⟩ done
    | none => rfl

theorem finish_failed (fails : FinishFails p f req) : ∃ e file, p.finish f req c = (some e, { p with file := file }) := by
  unfold finish
  by_cases purges : req.purge = true ∧ (!req.enabled) = true
  · rw [if_pos purges]
    cases removed : f.removeDB with
    | some failure => exact ⟨_, _, rfl⟩
    | none =>
      have saving := fails.resolve_left fun ⟨_, _, failed⟩ => by
        rw [removed] at failed
        cases failed
      obtain ⟨e, failed⟩ := save_failed (p := { p with file := .fresh }) (c := c) saving
      exact ⟨e, .fresh, failed⟩
  · rw [if_neg purges]
    have saving := fails.resolve_left fun ⟨wanted, off, _⟩ => purges ⟨wanted, by rw [off]; rfl⟩
    obtain ⟨e, failed⟩ := save_failed (c := c) saving
    exact ⟨e, p.file, failed⟩

theorem finish_done (done : ¬ FinishFails p f req) : ∃ file,
    p.finish f req c = (none, { p with file := file, stored := if p.saves then some c else p.stored }) := by
  obtain ⟨deletes, stores⟩ := not_or.mp done
  unfold finish
  by_cases purges : req.purge = true ∧ (!req.enabled) = true
  · rw [if_pos purges]
    cases removed : f.removeDB with
    | some failure => exact absurd ⟨purges.1, by simpa using purges.2, by rw [removed]; rfl⟩ deletes
    | none => exact ⟨.fresh, save_done (p := { p with file := .fresh }) stores⟩
  · rw [if_neg purges]
    exact ⟨p.file, save_done stores⟩

end Finish

section Cases
variable {p q : Controller} {req : PersistenceRequest} {persist : Option Filter.Program} {d d' : DB} {file : File}

omit [Tables] [Filter.Compiler] [Tokenizer] in
/-- Without a database the status shows the fields. -/
theorem status_closed (closed : p.db = none) : p.status = {
    supported := p.path ≠ []
    reason := if p.path ≠ [] then "" else unsupportedReason
    managed := p.managed
    enabled := false
    path := p.path
    retention := p.retention
    fullText := p.fullText
    filter := p.filterExpr
    queueBytes := p.queueBytes
    maxQueueBytes := maxQueueBytes
    maxBytes := p.maxBytes } := by
  unfold status
  rw [closed]

omit [Tables] [Filter.Compiler] [Tokenizer] in
/-- With one it shows what that works with. -/
theorem status_open (opened : p.db = some d) : p.status = {
    supported := p.path ≠ []
    reason := if p.path ≠ [] then "" else unsupportedReason
    managed := p.managed
    enabled := true
    path := p.path
    retention := p.limits.retention
    fullText := d.fullText
    filter := p.filterExpr
    queueBytes := p.limits.queueBytes
    maxQueueBytes := maxQueueBytes
    maxBytes := p.limits.maxBytes } := by
  unfold status
  rw [opened]

omit [Filter.Compiler] [Tokenizer] in
theorem untouched_closed_iff (closed : p.db = none) : Untouched p { p.assign req persist with file := file } ↔
    InForce p req persist ∧ req.fullText = p.status.fullText := by
  have shown := status_closed (p := { p.assign req persist with file := file }) closed
  have before := status_closed closed
  constructor
  · intro same
    have status := same.status
    rw [shown, before, PersistenceStatus.mk.injEq] at status
    obtain ⟨-, -, -, -, -, retention, fullText, filter, queueBytes, -, maxBytes⟩ := status
    refine ⟨⟨same.filter, ?_, ?_, ?_, ?_⟩, ?_⟩ <;> rw [before] <;> assumption
  · rintro ⟨⟨program, filter, retention, queueBytes, maxBytes⟩, fullText⟩
    rw [before] at filter retention queueBytes maxBytes fullText
    refine ⟨?_, program, rfl, fun _ => rfl, rfl⟩
    rw [shown, before, PersistenceStatus.mk.injEq]
    exact ⟨rfl, rfl, rfl, rfl, rfl, retention, fullText, filter, queueBytes, rfl, maxBytes⟩

omit [Filter.Compiler] [Tokenizer] in
theorem untouched_open_iff (opened : p.db = some d) : Untouched p { p.assign req persist with
      file := file
      db := some d'
      limits := ⟨req.retention, p.queueBytesOf req, p.maxBytesOf req⟩ } ↔ InForce p req persist ∧ d' = d := by
  have shown := status_open (p := { p.assign req persist with
      file := file
      db := some d'
      limits := ⟨req.retention, p.queueBytesOf req, p.maxBytesOf req⟩ }) rfl
  have before := status_open opened
  constructor
  · intro same
    have status := same.status
    rw [shown, before, PersistenceStatus.mk.injEq] at status
    obtain ⟨-, -, -, -, -, retention, -, filter, queueBytes, -, maxBytes⟩ := status
    refine ⟨⟨same.filter, ?_, ?_, ?_, ?_⟩, Option.some.inj (same.db.trans opened)⟩ <;> rw [before] <;> assumption
  · rintro ⟨⟨program, filter, retention, queueBytes, maxBytes⟩, rfl⟩
    rw [before] at filter retention queueBytes maxBytes
    refine ⟨?_, program, opened.symm, fun _ => ?_, rfl⟩
    · rw [shown, before, PersistenceStatus.mk.injEq]
      exact ⟨rfl, rfl, rfl, rfl, rfl, retention, rfl, filter, queueBytes, rfl, maxBytes⟩
    · dsimp only at retention queueBytes maxBytes ⊢
      rw [retention, queueBytes, maxBytes]

end Cases

section Set
variable {p : Controller} {f : Failures} {req : PersistenceRequest} {persist : Option Filter.Program}

theorem set_checked (checked : p.check req = .ok persist) : p.set f req =
    match (p.assign req persist).switch f req ⟨req.retention, p.queueBytesOf req, p.maxBytesOf req⟩ with
    | (some e, q) => (some e, q)
    | (none, q) => q.finish f req (p.config req) := by
  unfold set
  rw [checked]

omit [Tokenizer] in
/-- What passes the validation has a filter that compiles. -/
theorem filter_of_check (checked : p.check req = .ok persist) : applyFilter req.filter = .ok persist := by
  unfold Persistence.check at checked
  dsimp only at checked
  split_ifs at checked <;> exact checked

end Set

section Steps
variable {p q : Controller} {f : Failures} {req : PersistenceRequest} {persist : Option Filter.Program} {d : DB}

theorem failed_iff {e : String} (result : p.set f req = (some e, q)) : p.AllOrNothing f req ↔ Untouched p q := by
  unfold AllOrNothing
  rw [result]

/-- What comes after the switch undoes nothing. -/
theorem finish_iff (checked : p.check req = .ok persist) (result : p.set f req = q.finish f req (p.config req))
    (saves : q.saves = p.saves) (shown : q.status = p.requested req) (program : q.persist = persist) :
    p.AllOrNothing f req ↔ (FinishFails p f req → Untouched p q) := by
  have fails_iff : FinishFails q f req ↔ FinishFails p f req := by
    unfold FinishFails
    rw [saves]
  rw [← fails_iff]
  by_cases fails : FinishFails q f req
  · obtain ⟨e, file, finished⟩ := finish_failed (c := p.config req) fails
    rw [finished] at result
    rw [failed_iff result]
    exact ⟨fun ⟨status, filter, db, limits, stored⟩ _ => ⟨status, filter, db, limits, stored⟩,
      fun same => ⟨(same fails).status, (same fails).filter, (same fails).db, (same fails).limits, (same fails).stored⟩⟩
  · obtain ⟨file, finished⟩ := finish_done (c := p.config req) fails
    rw [finished] at result
    refine iff_of_true ?_ fun failed => absurd failed fails
    unfold AllOrNothing
    rw [result]
    exact ⟨shown, program ▸ filter_of_check checked, fun on => if_pos (saves.trans on)⟩

omit [Filter.Compiler] [Tokenizer] in
theorem requested_eq (p : Controller) (req : PersistenceRequest) : p.requested req = {
    supported := p.path ≠ []
    reason := if p.path ≠ [] then "" else unsupportedReason
    managed := p.managed
    enabled := req.enabled
    path := p.path
    retention := req.retention
    fullText := req.fullText
    filter := strings.trimSpace req.filter
    queueBytes := p.queueBytesOf req
    maxQueueBytes := maxQueueBytes
    maxBytes := p.maxBytesOf req } := by
  unfold requested status
  cases p.db <;> rfl

omit [Filter.Compiler] [Tokenizer] in
theorem status_working (enabled : req.enabled = true) (indexed : d.fullText = req.fullText) :
    status { p.assign req persist with
      db := some d
      limits := ⟨req.retention, p.queueBytesOf req, p.maxBytesOf req⟩ } = p.requested req := by
  rw [requested_eq, enabled, ← indexed]
  exact status_open rfl

/-- A switch that opened or closed the database is seen. -/
theorem switched_iff (checked : p.check req = .ok persist) (result : p.set f req = q.finish f req (p.config req))
    (saves : q.saves = p.saves) (shown : q.status = p.requested req) (program : q.persist = persist) (other : q.db ≠ p.db) :
    p.AllOrNothing f req ↔ ¬ FinishFails p f req :=
  (finish_iff checked result saves shown program).trans
    ⟨fun same fails => other (same fails).db, fun done fails => absurd fails done⟩

variable (checked : p.check req = .ok persist)
include checked

/-- A change that opens the database. -/
theorem opening_iff (enabled : req.enabled = true) (closed : p.db = none) :
    p.AllOrNothing f req ↔ Harmless p f req persist := by
  have current : (p.assign req persist).db = none := closed
  have result := set_checked (f := f) checked
  unfold switch at result
  rw [enabled, current] at result
  dsimp only at result
  have opened {d : DB} (indexed : d.fullText = req.fullText)
      (result : p.set f req = finish { p.assign req persist with
        db := some d
        limits := ⟨req.retention, p.queueBytesOf req, p.maxBytesOf req⟩ } f req (p.config req)) :
      p.AllOrNothing f req ↔ ¬ FinishFails p f req := by
    refine switched_iff checked result rfl (status_working enabled indexed) rfl ?_
    rw [closed]
    nofun
  unfold Harmless
  rw [enabled, closed]
  dsimp only
  cases opens : f.openDB with
  | some failure =>
    rw [opens] at result
    rw [if_pos (Or.inl (Option.isSome_some (a := failure))), failed_iff result, ← current]
    exact untouched_closed_iff closed
  | none =>
    rw [opens] at result
    dsimp only at result
    unfold trySetFullText at result
    -- A database is opened with its index on.
    by_cases indexed : (DB.openDB (p.assign req persist).file).fullText = req.fullText
    · rw [if_pos indexed] at result
      rw [opened indexed result, if_neg]
      rintro (failed | ⟨-, off⟩)
      · cases failed
      · rw [off] at indexed
        cases indexed
    · rw [if_neg indexed] at result
      have off : req.fullText = false := Bool.eq_false_iff.mpr fun on => indexed on.symm
      cases index : f.setFullText with
      | some failure =>
        rw [index] at result
        rw [if_pos (Or.inr ⟨rfl, off⟩), failed_iff result, ← current]
        exact untouched_closed_iff closed
      | none =>
        rw [index] at result
        rw [opened (DB.setFullText_fullText _ _) result, if_neg]
        rintro (failed | ⟨failed, -⟩) <;> cases failed

/-- A change of what the open database works with. -/
theorem changing_iff (enabled : req.enabled = true) (opened : p.db = some d) :
    p.AllOrNothing f req ↔ Harmless p f req persist := by
  have current : (p.assign req persist).db = some d := opened
  have result := set_checked (f := f) checked
  unfold switch trySetFullText at result
  rw [enabled, current] at result
  unfold Harmless
  rw [enabled, opened]
  dsimp only at result ⊢
  by_cases same : d.fullText = req.fullText
  · rw [if_pos same] at result ⊢
    rw [finish_iff checked result rfl (status_working enabled same) rfl]
    refine forall_congr' fun _ => ?_
    rw [untouched_open_iff opened]
    exact ⟨fun both => both.1, fun asked => ⟨asked, rfl⟩⟩
  · rw [if_neg same] at result ⊢
    cases index : f.setFullText with
    | some failure =>
      obtain ⟨e, triggers⟩ := failure
      rw [index] at result
      rw [failed_iff result, untouched_open_iff opened]
      refine and_congr_right fun _ => ⟨fun kept => ?_, fun kept => by rw [kept]⟩
      exact congrArg (fun d : DB => d.file.triggers) kept
    | none =>
      rw [index] at result
      have indexed := DB.setFullText_fullText d req.fullText
      rw [finish_iff checked result rfl (status_working enabled indexed) rfl]
      refine forall_congr' fun _ => iff_false_intro fun untouched => same ?_
      have kept := ((untouched_open_iff opened).mp untouched).2
      rw [kept] at indexed
      exact indexed

/-- A change that closes it. -/
theorem closing_iff (disabled : req.enabled = false) (opened : p.db = some d) :
    p.AllOrNothing f req ↔ Harmless p f req persist := by
  have current : (p.assign req persist).db = some d := opened
  have result := set_checked (f := f) checked
  unfold switch at result
  rw [disabled, current] at result
  unfold Harmless
  rw [disabled, opened]
  dsimp only at result ⊢
  have lost : (none : Option DB) ≠ p.db := by
    rw [opened]
    nofun
  cases closes : f.close with
  | some e =>
    rw [closes] at result
    rw [failed_iff result]
    exact iff_of_false (fun same => lost same.db) nofun
  | none =>
    rw [closes] at result
    rw [switched_iff checked result rfl ?_ rfl lost]
    · exact ⟨fun done => ⟨rfl, done⟩, fun both => both.2⟩
    · rw [requested_eq, disabled]
      exact status_closed rfl

/-- A change while there is none. -/
theorem staying_iff (disabled : req.enabled = false) (closed : p.db = none) :
    p.AllOrNothing f req ↔ Harmless p f req persist := by
  have current : (p.assign req persist).db = none := closed
  have result := set_checked (f := f) checked
  unfold switch at result
  rw [disabled, current] at result
  unfold Harmless
  rw [disabled, closed]
  dsimp only at result ⊢
  rw [finish_iff checked result rfl ?_ rfl]
  · refine forall_congr' fun _ => ?_
    exact untouched_closed_iff closed
  · rw [requested_eq, disabled]
    exact status_closed current

end Steps

section Refines
variable {p q : Controller} {f : Failures} {req : PersistenceRequest} {c : PersistenceConfig} {l : Limits} {d d' : DB}

omit [Tables] [Filter.Compiler] in
theorem trySetFullText_none {failure : Option (String × Bool)} {on : Bool} (done : trySetFullText failure d on = (none, d')) :
    d' = d.setFullText on := by
  unfold trySetFullText at done
  by_cases same : d.fullText = on
  · rw [if_pos same] at done
    obtain rfl : d = d' := congrArg Prod.snd done
    exact (if_pos same).symm
  · rw [if_neg same] at done
    cases failure with
    | some e => cases congrArg Prod.fst done
    | none => exact (congrArg Prod.snd done).symm

omit [Tables] [Filter.Compiler] [Tokenizer] in
theorem save_toPersistence (failure : Option String) : (p.save failure c).2.toPersistence = p.toPersistence := by
  unfold save
  split <;> rfl

omit [Tables] [Filter.Compiler] [Tokenizer] in
theorem finish_none (done : p.finish f req c = (none, q)) : q.toPersistence =
    if req.purge ∧ !req.enabled then { p.toPersistence with file := .fresh } else p.toPersistence := by
  unfold finish at done
  split_ifs at done ⊢ with purges
  · cases removed : f.removeDB with
    | some failure =>
      rw [removed] at done
      cases congrArg Prod.fst done
    | none =>
      rw [removed] at done
      obtain rfl : (save _ f.save c).2 = q := congrArg Prod.snd done
      exact save_toPersistence f.save
  · obtain rfl : (save _ f.save c).2 = q := congrArg Prod.snd done
    exact save_toPersistence f.save

omit [Tables] [Filter.Compiler] in
theorem switch_none (done : p.switch f req l = (none, q)) : q.toPersistence =
    match req.enabled, p.db with
    | true, none => { p.toPersistence with db := some ((DB.openDB p.file).setFullText req.fullText) }
    | true, some d => { p.toPersistence with db := some (d.setFullText req.fullText) }
    | false, some d => { p.toPersistence with db := none, file := d.file }
    | false, none => p.toPersistence := by
  unfold switch at done
  cases enabled : req.enabled with
  | true =>
    cases current : p.db with
    | none =>
      rw [enabled, current] at done
      dsimp only at done ⊢
      cases opens : f.openDB with
      | some failure =>
        rw [opens] at done
        cases congrArg Prod.fst done
      | none =>
        rw [opens] at done
        dsimp only at done
        cases index : trySetFullText f.setFullText (DB.openDB p.file) req.fullText with
        | mk failure d =>
          rw [index] at done
          cases failure with
          | some e => cases congrArg Prod.fst done
          | none =>
            obtain rfl : _ = q := congrArg Prod.snd done
            rw [← trySetFullText_none index]
    | some d =>
      rw [enabled, current] at done
      dsimp only at done ⊢
      cases index : trySetFullText f.setFullText d req.fullText with
      | mk failure d' =>
        rw [index] at done
        cases failure with
        | some e => cases congrArg Prod.fst done
        | none =>
          obtain rfl : _ = q := congrArg Prod.snd done
          rw [← trySetFullText_none index]
  | false =>
    cases current : p.db with
    | none =>
      rw [enabled, current] at done
      exact congrArg toPersistence (congrArg Prod.snd done).symm
    | some d =>
      rw [enabled, current] at done
      dsimp only at done ⊢
      cases closes : f.close with
      | some e =>
        rw [closes] at done
        cases congrArg Prod.fst done
      | none =>
        rw [closes] at done
        exact congrArg toPersistence (congrArg Prod.snd done).symm

end Refines

/-- A change that fails leaves everything as it was, and one that goes through is in force,
exactly when no step fails once something has changed. -/
theorem switch_allOrNothing_iff (p : Controller) (f : Failures) (req : PersistenceRequest) :
    p.AllOrNothing f req ↔ ∀ persist, p.check req = .ok persist → Harmless p f req persist := by
  cases checked : p.check req with
  | error e =>
    have same : p.set f req = (some e, p) := by
      unfold set
      rw [checked]
    unfold AllOrNothing
    rw [same]
    exact iff_of_true ⟨rfl, rfl, rfl, fun _ => rfl, rfl⟩ nofun
  | ok persist =>
    have one : p.AllOrNothing f req ↔ Harmless p f req persist := by
      cases enabled : req.enabled with
      | true =>
        cases current : p.db with
        | none => exact opening_iff checked enabled current
        | some d => exact changing_iff checked enabled current
      | false =>
        cases current : p.db with
        | none => exact staying_iff checked enabled current
        | some d => exact closing_iff checked enabled current
    rw [one]
    refine ⟨fun harmless persist' same => ?_, fun harmless => harmless persist rfl⟩
    cases same
    exact harmless

end Controller
end NatsExplorer.History

namespace NatsExplorer.History.Controller
open Go

/-- Switched off, with a day of history set, and a choice stored. -/
def switchedOff : Controller where
  path := ['h']
  managed := false
  fullText := true
  queueBytes := defaultWriteBuffer
  maxBytes := 0
  persist := none
  db := none
  file := .fresh
  retention := 24 * 60 * minute
  filterExpr := []
  limits := ⟨24 * 60 * minute, defaultWriteBuffer, 0⟩
  saves := true
  stored := none

def twoHours : PersistenceRequest where
  enabled := true
  retention := 2 * 60 * minute
  fullText := true
  filter := []
  queueBytes := 0
  maxBytes := none
  purge := false

/-- The database cannot be opened, and the status shows the new retention. -/
theorem failed_open_seen :
    let _ := asciiTables
    let _ := Persistence.sampleCompiler
    let _ : Tokenizer := ⟨fun s => [s]⟩
    ¬ switchedOff.AllOrNothing { openDB := some ("unable to open database file", .fresh) } twoHours := by
  intro tables compiler words whole
  have same : Untouched switchedOff { switchedOff.assign twoHours none with file := .fresh } := whole
  exact absurd (congrArg PersistenceStatus.retention same.status) (by decide)

end NatsExplorer.History.Controller
