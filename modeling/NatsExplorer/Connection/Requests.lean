import NatsExplorer.Go.Runtime
import NatsExplorer.Library.Calls
import Mathlib.Logic.Function.Basic

/-! The connections of the server and the managers of their subscriptions (`internal/connection/store.go`,
`live.go`, `internal/handler/connection.go`, `server.go`) under requests handled side by side. An
operation is what a request does under one lock, with the dial or the `Subscribe` calls that lead to it. -/
namespace NatsExplorer.Connection.Requests
open Go

/-- `nc`, `live` and `system` say which of its NATS connections are open; `live` names the one
of the live connections dialled so far. -/
structure Managed where
  id : Str
  subscriptions : List Str
  nc : Bool
  live : Option Nat
  dials : Nat
  system : Bool
  liveError : Bool
  deriving DecidableEq

/-- A `*nats.Conn`: the API's connection or a live one. -/
inductive Conn where
  | nc (r : Nat)
  | live (r n : Nat)
  deriving DecidableEq

/-- `subs` are the subscriptions it holds on `nc`. -/
structure Manager where
  connID : Str
  running : Bool
  subs : List Str
  nc : Conn
  deriving DecidableEq

/-- The two maps, and what their pointers point to. -/
structure State where
  connections : Str → Option Nat
  managed : List Managed
  subManagers : Str → Option Nat
  managers : List Manager

/-- What a connection is asked for, by `GetLiveNC` or `GetNC`. -/
inductive Use where
  | start (subs : List Str)
  | change (m : Option Nat) (subs : List Str)
  | clear (m : Nat)
  | move (m : Nat)
  deriving DecidableEq

/-- Who calls `SetSubjects`, and so what a failure leads to. -/
inductive Cause where
  | change
  | clear
  | move
  deriving DecidableEq

/-- Why the live connection is closed. -/
inductive Why where
  | released
  | moved
  deriving DecidableEq

inductive Op where
  | connect (id : Str) (subs : List Str)
  | stopReplaced (id : Str) (subs : List Str)
  | replace (id : Str) (subs : List Str)
  | dial (id : Str) (subs : List Str)
  | dialSystem (x : Managed)
  | dialLive (x : Managed)
  | register (x : Managed)
  | disconnect (id : Str)
  | remove (id : Str)
  | close (r : Nat)
  | disconnectAll
  | all
  | setSubscriptions (id : Str) (subs : List Str)
  | changed (id : Str) (subs : List Str)
  | restart (id : Str) (subs : List Str)
  | stopManager (id : Str)
  | stop (m : Nat)
  | getLiveNC (id : Str) (use : Use)
  | openLive (id : Str) (r : Nat) (use : Use)
  | redial (id : Str) (r : Nat) (use : Use)
  | getNC (id : Str) (use : Use)
  | start (id : Str) (nc : Conn) (subs : List Str)
  | addManager (id : Str) (mgr : Manager)
  | setSubjects (id : Str) (m : Nat) (nc : Conn) (subs : List Str) (cause : Cause)
  | subscribe (id : Str) (m : Nat) (nc : Conn) (subs : List Str) (cause : Cause)
  | releaseLive (id : Str)
  | closeLive (id : Str) (r : Nat) (why : Why)
  | moveLive (r : Nat)
  | moved (id : Str)
  | status (id : Str) (m : Nat) (nc : Conn)
  deriving DecidableEq

/-- `openLive` returned a connection, or `GetNC` did. -/
def Use.on (id : Str) (nc : Conn) : Use → List Op
  | .start subs => [.start id nc subs]
  | .change none subs => [.restart id subs]
  | .change (some m) subs => [.setSubjects id m nc subs .change]
  | .clear m => [.setSubjects id m nc [] .clear]
  | .move m => [.status id m nc]

/-- There is no connection to use. -/
def Use.failed (id : Str) : Use → List Op
  | .change _ subs => [.restart id subs]
  | _ => []

def Cause.failed (id : Str) (subs : List Str) : Cause → List Op
  | .change => [.restart id subs]
  | .clear => [.stopManager id]
  | .move => []

/-- No patterns are the catch-all to `startManager` and `SetOnLiveMoved`. -/
def orAll (subs : List Str) : List Str := if subs = [] then [">".toList] else subs

def Managed.close (x : Managed) : Managed := { x with nc := false, live := none, system := false }

def Manager.stop (mgr : Manager) : Manager := { mgr with running := false, subs := [] }

namespace State

def start : State where
  connections := fun _ => none
  managed := []
  subManagers := fun _ => none
  managers := []

def Open (s : State) : Conn → Prop
  | .nc r => ∃ x ∈ s.managed[r]?, x.nc = true
  | .live r n => ∃ x ∈ s.managed[r]?, x.live = some n

instance (s : State) (nc : Conn) : Decidable (s.Open nc) := by
  cases nc <;> exact inferInstanceAs (Decidable (∃ x ∈ (_ : Option Managed), _))

/-- Whether `Subscribe` succeeds for each pattern: NATS takes it (`ok`) and the connection is not closed. -/
def subscribes (s : State) (nc : Conn) (subs : List Str) (ok : Bool) : Bool :=
  subs = [] ∨ (s.Open nc ∧ ok = true)

def runs (s : State) (m : Nat) : Bool := s.managers[m]?.any Manager.running

def update (s : State) (r : Nat) (f : Managed → Managed) : State := { s with managed := s.managed.modify r f }

def updateManager (s : State) (m : Nat) (f : Manager → Manager) : State := { s with managers := s.managers.modify m f }

/-- The entries there are, in some order. -/
def registered (s : State) : List Str :=
  (List.range s.managed.length).filterMap fun r =>
    s.managed[r]?.bind fun x => if s.connections x.id = some r then some x.id else none

def registeredManagers (s : State) : List Nat :=
  (List.range s.managers.length).filter fun m => s.managers[m]?.any fun mgr => s.subManagers mgr.connID = some m

/-- `stopManager` takes the manager out of the map under the lock and stops it after. -/
def stopManager (s : State) (id : Str) : State × List Op :=
  ({ s with subManagers := Function.update s.subManagers id none }, (s.subManagers id).toList.map .stop)

def register (s : State) (x : Managed) : State := { s with
  managed := s.managed ++ [x]
  connections := Function.update s.connections x.id (some s.managed.length) }

def addManager (s : State) (id : Str) (mgr : Manager) : State := { s with
  managers := s.managers ++ [mgr]
  subManagers := Function.update s.subManagers id (some s.managers.length) }

/-- The recorded list, which is empty where there is no entry. -/
def subscriptions (s : State) (id : Str) : List Str :=
  ((s.connections id).bind fun r => s.managed[r]?).elim [] Managed.subscriptions

/-- One operation. `ok` is what is not settled here: the configuration names a server (`replace`), the
dial succeeds, the API's connection is connected (`getNC`), or NATS takes the subscriptions. -/
def exec (s : State) : Op → Bool → State × List Op
  | .connect id subs, _ => (s, if s.connections id = none then [.replace id subs] else [.stopReplaced id subs])
  | .stopReplaced id subs, _ => ((s.stopManager id).1, (s.stopManager id).2 ++ [.replace id subs])
  | .replace id subs, ok =>
      (s, if ok = false then [] else if s.connections id = none then [.dial id subs] else [.remove id, .dial id subs])
  | .dial id subs, ok => (s, if ok then [.dialSystem ⟨id, subs, true, none, 0, false, false⟩] else [])
  | .dialSystem x, ok => (s, [.dialLive { x with system := ok }])
  | .dialLive x, ok =>
      (s, [.register (if ok then { x with live := some x.dials, dials := x.dials + 1 } else { x with liveError := true })])
  | .register x, _ => (s.register x, [.getLiveNC x.id (.start x.subscriptions)])
  | .disconnect id, _ => ((s.stopManager id).1, (s.stopManager id).2 ++ [.remove id])
  | .remove id, _ =>
      ({ s with connections := Function.update s.connections id none }, (s.connections id).toList.map .close)
  | .close r, _ => (s.update r Managed.close, [])
  | .disconnectAll, _ => ({ s with subManagers := fun _ => none }, s.registeredManagers.map .stop ++ [.all])
  | .all, _ => (s, s.registered.map .remove)
  | .setSubscriptions id subs, _ =>
      match s.connections id with
      | none => (s, [])
      | some r => (s.update r fun x => { x with subscriptions := subs }, [.changed id subs])
  | .changed id subs, _ =>
      if subs = [] then (s, (s.subManagers id).toList.map (fun m => .getNC id (.clear m)) ++ [.releaseLive id])
      else (s, [.getLiveNC id (.change (s.subManagers id) subs)])
  | .restart id subs, _ => ((s.stopManager id).1, (s.stopManager id).2 ++ [.getLiveNC id (.start subs)])
  | .stopManager id, _ => s.stopManager id
  | .stop m, _ => (s.updateManager m Manager.stop, [])
  | .getLiveNC id use, _ =>
      match s.connections id with
      | none => (s, [.getNC id use])
      | some r => (s, [.openLive id r use])
  | .openLive id r use, _ =>
      match s.managed[r]? with
      | none => (s, [])
      | some x =>
          match x.live with
          | some n => (s, use.on id (.live r n))
          | none => if x.liveError then (s, [.getNC id use]) else (s, [.redial id r use])
  | .redial id r use, ok =>
      match s.managed[r]? with
      | none => (s, [])
      | some x =>
          match x.live with
          -- Someone else was quicker.
          | some n => (s, use.on id (.live r n))
          | none =>
              if ok then
                (s.update r fun x => { x with live := some x.dials, dials := x.dials + 1 }, use.on id (.live r x.dials))
              else (s.update r fun x => { x with liveError := true }, [.getNC id use])
  | .getNC id use, ok =>
      match s.connections id with
      | none => (s, use.failed id)
      | some r => (s, if s.Open (.nc r) ∧ ok = true then use.on id (.nc r) else use.failed id)
  | .start id nc subs, ok =>
      (s, if s.subscribes nc (orAll subs) ok then [.addManager id ⟨id, true, orAll subs, nc⟩] else [])
  | .addManager id mgr, _ => (s.addManager id mgr, [])
  | .setSubjects id m nc subs cause, ok =>
      if s.runs m then
        (s.updateManager m fun mgr => { mgr with subs := [] }, [.subscribe id m nc subs cause])
      -- A manager that is not running is started instead.
      else if s.subscribes nc subs ok then
        (s.updateManager m fun mgr => { mgr with running := true, subs := subs, nc := nc }, [])
      else (s.updateManager m Manager.stop, cause.failed id subs)
  | .subscribe id m nc subs cause, ok =>
      if s.subscribes nc subs ok then (s.updateManager m fun mgr => { mgr with subs := subs, nc := nc }, [])
      else (s, cause.failed id subs)
  | .releaseLive id, _ => (s, (s.connections id).toList.map (.closeLive id · .released))
  | .closeLive id r why, _ =>
      (s.update r fun x => { x with live := none }, if why = .moved then [.moved id] else [])
  | .moveLive r, _ =>
      (s.update r fun x => { x with liveError := true },
        s.managed[r]?.toList.map fun x => .closeLive x.id r .moved)
  | .moved id, _ => (s, (s.subManagers id).toList.map fun m => .getNC id (.move m))
  | .status id m nc, _ => (s, [.setSubjects id m nc (orAll (s.subscriptions id)) .move])

end State

/-- What arrives: the requests, and a live connection that is given up. That of a connection that is
not registered yet counts as refused, and only what it moves is left. -/
inductive Request : List Op → Prop where
  | connect (id subs) : Request [.connect id subs]
  | disconnect (id) : Request [.disconnect id]
  | disconnectAll : Request [.disconnectAll]
  | setSubscriptions (id subs) : Request [.setSubscriptions id subs]
  | moveLive (r) : Request [.moveLive r]
  | moved (id) : Request [.moved id]

abbrev Server := Calls.System State Op

def Server.new : Server := ⟨State.start, 0⟩

abbrev Server.Step : Server → Calls.Act Op Bool → Server → Prop := Calls.System.Step State.exec Request

end NatsExplorer.Connection.Requests
