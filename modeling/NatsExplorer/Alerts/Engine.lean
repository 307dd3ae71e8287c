import NatsExplorer.Alerts.SubjectState

/-! The alert engine (`internal/alerts/alerts.go`), one call after the other. The
clock a call reads is an argument, and `notified` is what `notify` was called with. -/
namespace NatsExplorer.Alerts
open Go

structure Alert where
  key : Str
  ruleID : Str
  ruleName : Str
  connID : Str
  subject : Str
  state : State
  severity : Str
  since : Int
  preview : Str
  seen : Int
  muted : Bool
  ackedAt : Int := 0
  ackedBy : Str := []

structure Event where
  time : Int
  ruleID : Str
  ruleName : Str
  connID : Str
  subject : Str
  state : State
  severity : Str
  preview : Str
  muted : Bool := false

structure Engine (F : Type) where
  rules : List (Compiled F)
  byID : Map Str (Compiled F)
  states : Map Str (SubjectState F)
  active : Map Str Alert
  maintenance : List Maintenance
  notified : List Event

def key (ruleID connID subject : Str) : Str :=
  ruleID ++ Char.ofNat 0 :: connID ++ Char.ofNat 0 :: subject

section Active
variable {F : Type}

/-- What a change of a subject's state does to the active alerts. -/
def Effect.apply (c : Compiled F) (connID subject : Str) (now : Int) (muted : Bool)
    (active : Map Str Alert) : Effect → Map Str Alert
  | .change state preview seen =>
    let k := key c.id connID subject
    if state = .resolved then active.erase k
    else active.insert k {
      key := k, ruleID := c.id, ruleName := c.name, connID := connID, subject := subject
      state := state, severity := c.severity, since := now, preview := preview, seen := seen
      muted := muted }
  | .left state preview =>
    let k := key c.id connID subject
    match active.lookup k with
    | none => active
    | some a => active.insert k { a with state := state, preview := preview }
  | .update state preview =>
    let k := key c.id connID subject
    match active.lookup k with
    | none => active
    | some a => if a.state = state then active.insert k { a with preview := preview } else active

def Effect.event (c : Compiled F) (connID subject : Str) (now : Int) (muted : Bool) :
    Effect → Option Event
  | .change state preview _ => some {
      time := now, ruleID := c.id, ruleName := c.name, connID := connID, subject := subject
      state := state, severity := c.severity, preview := preview, muted := muted }
  | _ => none

end Active

namespace Engine
variable {F : Type}

def new : Engine F where
  rules := []
  byID := ∅
  states := ∅
  active := ∅
  maintenance := []
  notified := []

/-- The rule or a maintenance window keeps a change out of the channels. -/
def muted (e : Engine F) (c : Compiled F) (subject : Str) (now : Int) : Bool :=
  now < c.mutedUntil || e.maintenance.any fun m => m.covers subject now

def act (c : Compiled F) (connID subject : Str) (now : Int) (e : Engine F) (effect : Effect) :
    Engine F :=
  let muted := e.muted c subject now
  { e with
    active := effect.apply c connID subject now muted e.active
    notified := e.notified ++ (effect.event c connID subject now muted).toList }

/-- A turn that changes the state under a key and then does what it asks for. -/
def turn (c : Compiled F) (k : Str) (st : SubjectState F) (now : Int)
    (turned : SubjectState F × List Effect) (e : Engine F) : Engine F :=
  turned.2.foldl (act c st.connID st.subject now) { e with states := e.states.insert k turned.1 }

section Observe
variable [Numbers F] [Payloads F]

def observe (e : Engine F) (connID : Str) (r : Record) (now : Int) : Engine F :=
  e.rules.foldl (fun e c =>
    if ¬ c.enabled ∨ ¬ matchSubject c.pattern r.subject then e
    else
      let k := key c.id connID r.subject
      let st := (e.states.lookup k).getD { ruleID := c.id, connID := connID, subject := r.subject }
      e.turn c k st now (st.observe c r now)) e

end Observe

/-- An alert that came out of a mute and is still true is sent now. -/
def refreshMuted (e : Engine F) (rt : Runtime) (now : Int) : Engine F :=
  (rt.range e.active.keys).foldl (fun e k =>
    match e.active.lookup k with
    | none => e
    | some a =>
      match e.byID.lookup a.ruleID with
      | none => e
      | some c =>
        let muted := e.muted c a.subject now
        { e with
          active := e.active.insert k { a with muted := muted }
          notified := e.notified ++
            if a.muted && !muted then
              [{ time := now, ruleID := c.id, ruleName := c.name, connID := a.connID, subject := a.subject,
                 state := a.state, severity := c.severity, preview := a.preview }]
            else [] }) e

section Tick
variable [Numbers F]

/-- The turn of one key. -/
def tickAt (now : Int) (e : Engine F) (k : Str) : Engine F :=
  match e.states.lookup k with
  | none => e
  | some st =>
    match e.byID.lookup st.ruleID with
    | none => e
    | some c => if ¬ c.enabled then e else e.turn c k st now (st.tick c now)

def tick (e : Engine F) (rt : Runtime) (now : Int) : Engine F :=
  ((rt.range e.states.keys).foldl (tickAt now) e).refreshMuted rt now

end Tick

/-- A state and its alert go. -/
def drop (e : Engine F) (k : Str) : Engine F :=
  { e with states := e.states.erase k, active := e.active.erase k }

section SetRules
variable [Tables] [Filter.Compiler] [Payloads F]

/-- The rules as they are stored, and the table of them by id. -/
def compile : List (Rule F) → Map Str (Compiled F) → Except Str (List (Compiled F) × Map Str (Compiled F))
  | [], byID => .ok ([], byID)
  | rule :: rules, byID =>
    match rule.validate with
    | .error err => .error ("rule ".toList ++ Payloads.quote F (strings.trimSpace rule.name) ++ ": ".toList ++ err)
    | .ok r =>
      if r.id = [] then
        .error ("rule ".toList ++ Payloads.quote F r.name ++ ": missing id".toList)
      else if (byID.lookup r.id).isSome then
        .error ("rule id ".toList ++ Payloads.quote F r.id ++ " listed twice".toList)
      else do
        let prog := if r.expr = [] then none else (Filter.Compiler.compile r.expr).toOption
        let c : Compiled F := { toRule := r, prog := prog }
        let (cs, byID) ← compile rules (byID.insert r.id c)
        pure (c :: cs, byID)

variable [DecidableEq F]

/-- The state of a rule that is gone or changed in what it watches. -/
def outdated (old byID : Map Str (Compiled F)) (st : SubjectState F) : Bool :=
  match byID.lookup st.ruleID, old.lookup st.ruleID with
  | some n, some o => !n.enabled || decide (n.watch ≠ o.watch)
  | _, _ => true

def setRules (e : Engine F) (rules : List (Rule F)) (rt : Runtime) (now : Int) : Except Str (Engine F) := do
  let (cs, byID) ← compile rules ∅
  let old := e.byID
  let e := { e with rules := cs, byID := byID }
  let e := (rt.range e.states.keys).foldl (fun e k =>
    match e.states.lookup k with
    | none => e
    | some st => if outdated old byID st then e.drop k else e) e
  pure (e.refreshMuted rt now)

end SetRules

/-- A window as it is stored. -/
def accept [Tables] [Payloads F] (m : Maintenance) : Except Str Maintenance := do
  let quote := Payloads.quote F
  let m := { m with name := strings.trimSpace m.name }
  if m.id = [] then throw "a maintenance window needs an id".toList
  if m.to_ ≤ m.from_ then
    throw ("maintenance window ".toList ++ quote m.name ++ " ends before it starts".toList)
  let patterns ← m.patterns.mapM fun p => do
    let p := strings.trimSpace p
    if p = [] ∨ spaced p then
      throw ("maintenance window ".toList ++ quote m.name ++ ": pattern ".toList ++ quote p ++
        " is not a subject pattern".toList)
    pure p
  pure { m with patterns := patterns }

def setMaintenance [Tables] [Payloads F] (e : Engine F) (list : List Maintenance) (rt : Runtime) (now : Int) :
    Except Str (Engine F) := do
  let out ← list.mapM (accept (F := F))
  pure ({ e with maintenance := out }.refreshMuted rt now)

def ack (e : Engine F) (k by_ : Str) (acked : Bool) (now : Int) : Engine F × Bool :=
  match e.active.lookup k with
  | none => (e, false)
  | some a =>
    let a := if acked then { a with ackedAt := now, ackedBy := by_ } else { a with ackedAt := 0, ackedBy := [] }
    ({ e with active := e.active.insert k a }, true)

/-- A connection is closed. -/
def forget (e : Engine F) (connID : Str) (rt : Runtime) : Engine F :=
  (rt.range e.states.keys).foldl (fun e k =>
    match e.states.lookup k with
    | none => e
    | some st => if st.connID = connID then e.drop k else e) e

end Engine
end NatsExplorer.Alerts
