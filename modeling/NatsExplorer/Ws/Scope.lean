import NatsExplorer.Alerts.Engine
import NatsExplorer.Go.Json
import NatsExplorer.Ws.Tab

/-! What a tab is sent, and what a narrowed one is (`internal/ws/hub.go`, `events.go`,
`feature_alerts.go`, the wiring in `server.go`, `internal/handler/live.go`). `D` is what an event
carries besides. -/
namespace NatsExplorer.Ws
open Go

/-! ### Events -/

section Event
variable {D : Type}

structure Status (D : Type) where
  id : Str
  name : Str
  color : Str
  detail : D

/-- Of the figures of `history`, those of the connection are in `own`; `db` is the database's. -/
structure Stats (D : Type) where
  own : D
  db : Option D

/-- `filterErrorEvent`, `connectionsEvent` and so on. -/
inductive Event (D : Type) where
  | filterError (error : Str)
  | connections (data : List (Status D))
  | messageBatch (connID : Str) (data : D)
  | stats (connID : Str) (data : Stats D)
  | subjectTree (connID : Str) (data : D)
  | alerts (active : List Alerts.Alert) (events : List Alerts.Event)
  | liveError (connID bucket stream error : Str)
  | kvUpdate (connID bucket : Str) (entry : D)
  | streamMsg (connID stream : Str) (message : D)

namespace Event

/-- `ConnScope`, of the events that have it. -/
def connScope : Event D → Option Str
  | .messageBatch connID _ => some connID
  | .stats connID _ => some connID
  | .subjectTree connID _ => some connID
  | _ => none

/-- `ScopeFor`, of the events that have it. -/
def scopeFor (allow : Str → Bool) : Event D → Option (Event D)
  | .connections data => some (.connections (data.filter fun st => allow st.id))
  | .alerts active events =>
    some (.alerts (active.filter fun a => allow a.connID) (events.filter fun ev => allow ev.connID))
  | _ => none

/-- What a client receives of an event; `none` for nothing. -/
def scopedFor (allow : Option (Str → Bool)) (event : Event D) : Option (Event D) :=
  match allow with
  | none => some event
  | some allow =>
    match event.connScope with
    | some connID => if allow connID then some event else none
    | none => (event.scopeFor allow).or (some event)

/-- The connections an event carries data of. -/
def about : Event D → List Str
  | .filterError _ => []
  | .connections data => data.map (·.id)
  | .messageBatch connID _ => [connID]
  | .stats connID _ => [connID]
  | .subjectTree connID _ => [connID]
  | .alerts active events => active.map (·.connID) ++ events.map (·.connID)
  | .liveError connID _ _ _ => [connID]
  | .kvUpdate connID _ _ => [connID]
  | .streamMsg connID _ _ => [connID]

end Event
end Event

/-! ### A frame -/

deriving instance DecidableEq for LiveCommand

section Frame
variable [json.Recognizer]

/-- A string field of the struct a frame is decoded into. -/
def structField (name : String) (v : json.Value) : Option Str :=
  if (json.stringField name.toList v).2 then some (json.stringField name.toList v).1 else none

/-- The gate's own struct. -/
def gateTarget (data : List UInt8) : Option Str := do
  let v ← json.unmarshal data
  structField "connId" v

/-- `liveCommand`. -/
def liveCommand (data : List UInt8) : Option LiveCommand := do
  let v ← json.unmarshal data
  let type ← structField "type" v
  let connID ← structField "connId" v
  let bucket ← structField "bucket" v
  let stream ← structField "stream" v
  let _domain ← structField "domain" v
  return { type, connID, bucket, stream }

/-- A frame as the handlers of the server see it; `cmd` is what the first of them decodes. -/
def frameOf (cmd : Option Command) (data : List UInt8) : Frame where
  cmd := cmd
  target := gateTarget data
  live := liveCommand data

end Frame

/-- Whether `OnMessage` takes the frame for itself. -/
def Frame.taken (data : Frame) : Bool :=
  data.cmd.any fun cmd => cmd.type = "focus".toList || cmd.type = "view".toList

def LiveCommand.starts (cmd : LiveCommand) : Bool := cmd.type = "kv-watch".toList || cmd.type = "stream-tail".toList

/-- The command whose watch or tail a frame starts. -/
def watched (allow : Option (Str → Bool)) (data : Frame) : Option LiveCommand :=
  if data.taken || refused allow data.target then none else data.live.filter LiveCommand.starts

/-- The answer to a view. -/
def filterReply [Tables] [Filter.Compiler] (data : Frame) : Option Str := do
  let cmd ← data.cmd
  if cmd.type ≠ "view".toList then none
  else
    let expr := strings.trimSpace cmd.view.expr
    if expr = [] then some []
    else
      match Filter.Compiler.compile expr with
      | .ok _ => some []
      | .error text => some text

/-! ### The server, as far as one client hears of it -/

section Server
variable {D : Type}

structure Managed (D : Type) where
  name : Str
  color : Str
  detail : D

/-- `active` and `pending` are the alert engine's, `db` is what the database says of itself, `started`
are the watches and tails the client's frames started, and `told` is what it was sent. -/
structure Server (D : Type) where
  connections : Map Str (Managed D)
  virtual : Map Str (Managed D)
  colorIdx : Nat
  db : Option D
  active : Map Str (List Alerts.Alert)
  pending : List Alerts.Event
  started : List LiveCommand
  told : List (Event D)

/-- The colour of an imported bundle. -/
def virtualColor : Str := "#8b8fa3".toList

def colors : List Str :=
  ["#2ec4a5", "#5aa9ff", "#e8a06b", "#a7d68b", "#c99cff", "#f5b53f", "#7fd3e6", "#f28fb1"].map String.toList

/-- What a watch or a tail comes up with. -/
inductive Heard (D : Type) where
  | error (text : Str)
  | entry (data : D)
  | message (data : D)

def Heard.event (cmd : LiveCommand) : Heard D → Event D
  | .error text => .liveError cmd.connID cmd.bucket cmd.stream text
  | .entry data => .kvUpdate cmd.connID cmd.bucket data
  | .message data => .streamMsg cmd.connID cmd.stream data

/-- What happens to a connection, what is sent on account of it, a frame of the client, and the two
pushes that tell of what changed before, the goroutine of a `notify` and `Flush`. -/
inductive Input (D : Type) where
  | connect (connID name : Str) (detail : D)
  | disconnect (connID : Str)
  | changed (connID : Str) (detail : D)
  | addVirtual (connID name : Str) (detail : D)
  | removeVirtual (connID : Str)
  | alerted (connID : Str) (active : List Alerts.Alert) (events : List Alerts.Event)
  | recorded (connID : Str) (db : Option D)
  | batch (connID : Str) (data : D)
  | stats (connID : Str) (own : D)
  | tree (connID : Str) (data : D)
  | frame (cmd : Option Command) (data : List UInt8)
  | heard (cmd : LiveCommand) (heard : Heard D)
  | notify (rt : Runtime)
  | flush (rt : Runtime)

namespace Server

def status (connID : Str) (m : Managed D) : Status D := ⟨connID, m.name, m.color, m.detail⟩

/-- `connectionsOf(store.AllStatuses())` -/
def connectionsOf (s : Server D) (rt : Runtime) : Event D :=
  .connections (rt.range (s.connections.entries.map fun c => status c.1 c.2) ++
    rt.range (s.virtual.entries.map fun c => status c.1 c.2))

def newestFirst (a b : Alerts.Alert) : Bool := decide (a.since > b.since ∨ a.since = b.since ∧ a.key < b.key)

def activeAlerts (s : Server D) (rt : Runtime) : List Alerts.Alert :=
  rt.sortSlice newestFirst (s.active.entries.flatMap fun c => c.2.map fun a => { a with connID := c.1 })

/-- `SendToClient` and `Broadcast`, as the client gets it. -/
def send (s : Server D) (allow : Option (Str → Bool)) (event : Event D) : Server D :=
  { s with told := s.told ++ (event.scopedFor allow).toList }

variable [json.Recognizer] [Tables] [Filter.Compiler]

def step (allow : Option (Str → Bool)) (s : Server D) : Input D → Server D
  | .connect connID name detail =>
    { s with
      connections := s.connections.insert connID ⟨name, colors.getD (s.colorIdx % colors.length) [], detail⟩
      colorIdx := s.colorIdx + 1 }
  | .disconnect connID => { s with connections := s.connections.erase connID }
  | .changed connID detail =>
    match s.connections.lookup connID with
    | none => s
    | some m => { s with connections := s.connections.insert connID { m with detail := detail } }
  | .addVirtual connID name detail =>
    { s with virtual := s.virtual.insert connID ⟨name, virtualColor, detail⟩ }
  | .removeVirtual connID => { s with virtual := s.virtual.erase connID }
  | .alerted connID active events =>
    { s with
      active := s.active.insert connID active
      pending := s.pending ++ events.map fun ev => { ev with connID := connID } }
  | .recorded _ db => { s with db := db }
  | .batch connID data => s.send allow (.messageBatch connID data)
  | .stats connID own => s.send allow (.stats connID ⟨own, s.db⟩)
  | .tree connID data => s.send allow (.subjectTree connID data)
  | .frame cmd data =>
    let replied := match filterReply (frameOf cmd data) with
      | some error => s.send allow (.filterError error)
      | none => s
    { replied with started := replied.started ++ (watched allow (frameOf cmd data)).toList }
  | .heard cmd heard => if cmd ∈ s.started then s.send allow (heard.event cmd) else s
  | .notify rt => s.send allow (s.connectionsOf rt)
  | .flush rt => { s.send allow (.alerts (s.activeAlerts rt) s.pending) with pending := [] }

end Server
end Server
end NatsExplorer.Ws
