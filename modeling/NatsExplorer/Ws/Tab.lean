import NatsExplorer.Library.Transition
import NatsExplorer.Subscription.Clients

/-! One browser tab from its first message to its end (`internal/ws/hub.go`, the wiring in
`server.go`, `internal/handler/live.go`). The tab's two pumps, the managers and those who
start and stop them run at the same time; a step is what one of them does between two locks. -/
namespace NatsExplorer.Ws
open Go Subscription Subscription.Clients

section OnMessage

structure Command where
  type : Str
  subject : Str
  subjects : List Str
  view : View

structure LiveCommand where
  type : Str
  connID : Str
  bucket : Str
  stream : Str

/-- A text frame as `OnMessage` and `HandleCommand` decode it, each for itself. -/
structure Frame where
  cmd : Option Command
  target : Option Str
  live : Option LiveCommand

/-- What a message does under one lock each. -/
inductive Call where
  | focus (subjects : List Str)
  | view (view : View)
  | setView (m : Ref) (view : View)
  | start (key : Str)
  | stop (key : Str)

def LiveCommand.kv (cmd : LiveCommand) : Str := "kv:".toList ++ cmd.connID ++ ':' :: cmd.bucket
def LiveCommand.tail (cmd : LiveCommand) : Str := "stream:".toList ++ cmd.connID ++ ':' :: cmd.stream

def handleCommand (cmd : LiveCommand) : List Call :=
  if cmd.type = "kv-watch".toList then [.start cmd.kv]
  else if cmd.type = "kv-unwatch".toList then [.stop cmd.kv]
  else if cmd.type = "stream-tail".toList then [.start cmd.tail]
  else if cmd.type = "stream-untail".toList then [.stop cmd.tail]
  else []

/-- Whether the tab may not see the connection a command names. -/
def refused (allow : Option (Str → Bool)) (target : Option Str) : Bool :=
  match allow, target with
  | some allow, some connID => decide (connID ≠ []) && !allow connID
  | _, _ => false

def liveCalls (allow : Option (Str → Bool)) (data : Frame) : List Call :=
  if refused allow data.target then []
  else
    match data.live with
    | none => []
    | some cmd => handleCommand cmd

variable [Tables] [Filter.Compiler]

/-- A broken expression is answered, and changes nothing. -/
def broken (expr : Str) : Bool :=
  decide (strings.trimSpace expr ≠ []) && !(Filter.Compiler.compile (strings.trimSpace expr)).isOk

def onMessage (allow : Option (Str → Bool)) (data : Frame) : List Call :=
  match data.cmd with
  | none => liveCalls allow data
  | some cmd =>
    if cmd.type = "focus".toList then
      [.focus (if cmd.subjects.length = 0 ∧ cmd.subject ≠ [] then [cmd.subject] else cmd.subjects)]
    else if cmd.type = "view".toList then if broken cmd.view.expr then [] else [.view cmd.view]
    else liveCalls allow data

end OnMessage

/-- What `hub.remove` does next; `OnDisconnect` is its last two. -/
inductive Removal where
  | unregister
  | close (present : Bool)
  | stopAll
  | forget

inductive Phase where
  | waiting
  | handling (calls : List Call)
  | removing (next : Removal)
  | ended

inductive Pump where
  | reader
  | writer
  deriving DecidableEq

/-- What the server has of the tab: its place in the hub, `clientFocus`, `clientView`, its
watches by key with their ids, and its part of every manager there is or was. -/
structure Tab where
  registered : Bool
  closed : Bool
  clientFocus : Option (List Str)
  clientView : Option View
  watchers : Option (Map Str Nat)
  seq : Nat
  subManagers : Map Str Ref
  heap : Ref → Manager
  next : Ref
  phase : Pump → Phase

/-- Messages come in and fail, `hub.remove` gets on, a watch of this tab ends, another tab
starts one, and managers are started, replaced and stopped. -/
inductive Act where
  | receive (allow : Option (Str → Bool)) (data : Frame)
  | handle (rt : Runtime)
  | handled
  | readFails
  | writeFails
  | done
  | remove (p : Pump)
  | watchEnds (key : Str) (id : Nat)
  | watchElsewhere
  | addManager (connID : Str)
  | takeManager (connID : Str)
  | takeManagers
  | manager (m : Ref) (e : Event)

namespace Tab

def goto (s : Tab) (p : Pump) (phase : Phase) : Tab :=
  { s with phase := Function.update s.phase p phase }

def update (s : Tab) (m : Ref) (f : Manager → Manager) : Tab :=
  { s with heap := Function.update s.heap m (f (s.heap m)) }

/-- A loop over the managers under `subMu`. -/
def each (s : Tab) (f : Manager → Manager) : Tab :=
  { s with heap := fun m => if m ∈ s.subManagers.values then f (s.heap m) else s.heap m }

section Call

def start (s : Tab) (key : Str) : Tab :=
  { s with watchers := some ((s.watchers.getD ∅).insert key (s.seq + 1)), seq := s.seq + 1 }

def stop (s : Tab) (key : Str) : Tab := { s with watchers := s.watchers.map fun ws => ws.erase key }

/-- The end of the goroutine of a watch. -/
def watchEnds (s : Tab) (key : Str) (id : Nat) : Tab :=
  { s with watchers := s.watchers.map fun ws => if ws.lookup key = some id then ws.erase key else ws }

variable [Tables] [Filter.Compiler]

/-- One call, and what it leaves to do: the managers a view goes to are read under `subMu`
and told of it after that. -/
def call (rt : Runtime) (s : Tab) : Call → Tab × List Call
  | .focus subjects => ({ s with clientFocus := some subjects }.each fun m => m.setFocus subjects, [])
  | .view view => ({ s with clientView := some view }, (rt.range s.subManagers.values).map fun m => .setView m view)
  | .setView m view => (s.update m fun m => m.setView view, [])
  | .start key => (s.start key, [])
  | .stop key => (s.stop key, [])

/-- `addManager` of a manager just started. -/
def addManager (s : Tab) (connID : Str) : Tab :=
  let m := Manager.newManager.start
  let m := match s.clientFocus with
    | none => m
    | some subjects => m.setFocus subjects
  let m := match s.clientView with
    | none => m
    | some view => m.setView view
  { s with
    subManagers := s.subManagers.insert connID s.next
    heap := Function.update s.heap s.next m
    next := s.next + 1 }

end Call

def remove (s : Tab) : Removal → Tab × Phase
  | .unregister => ({ s with registered := false }, .removing (.close s.registered))
  | .close present => ({ s with closed := true }, if present then .removing .stopAll else .ended)
  | .stopAll => ({ s with watchers := none }, .removing .forget)
  | .forget => ({ s with clientFocus := none, clientView := none }.each Manager.removeClient, .ended)

variable [Tables] [Filter.Compiler]

inductive Step : Tab → Act → Tab → Prop where
  | receive {s allow data} : s.phase .reader = .waiting →
      Step s (.receive allow data) (s.goto .reader (.handling (onMessage allow data)))
  | handle {s rt c calls} : s.phase .reader = .handling (c :: calls) →
      Step s (.handle rt) ((s.call rt c).1.goto .reader (.handling ((s.call rt c).2 ++ calls)))
  | handled {s} : s.phase .reader = .handling [] → Step s .handled (s.goto .reader .waiting)
  | readFails {s} : s.phase .reader = .waiting →
      Step s .readFails (s.goto .reader (.removing .unregister))
  | writeFails {s} : s.phase .writer = .waiting →
      Step s .writeFails (s.goto .writer (.removing .unregister))
  | done {s} : s.phase .writer = .waiting → s.closed = true →
      Step s .done (s.goto .writer (.removing .unregister))
  | remove {s p r} : s.phase p = .removing r →
      Step s (.remove p) ((s.remove r).1.goto p (s.remove r).2)
  | watchEnds {s key id} : Step s (.watchEnds key id) (s.watchEnds key id)
  | watchElsewhere {s} : Step s .watchElsewhere { s with seq := s.seq + 1 }
  | addManager {s connID} : Step s (.addManager connID) (s.addManager connID)
  | takeManager {s connID} :
      Step s (.takeManager connID) { s with subManagers := s.subManagers.erase connID }
  | takeManagers {s} : Step s .takeManagers { s with subManagers := ∅ }
  | manager {s m e} : Step s (.manager m e) (s.update m fun m => m.step e)

omit [Tables] [Filter.Compiler]

variable {s : Tab} {p p' : Pump} {phase : Phase}

theorem goto_self : (s.goto p phase).phase p = phase := Function.update_self ..

theorem goto_other (other : p' ≠ p) : (s.goto p phase).phase p' = s.phase p' := Function.update_of_ne other ..

/-- Nothing refers to the tab, and no message is charged to it. -/
structure Gone (s : Tab) : Prop where
  watchers : s.watchers = none
  focus : s.clientFocus = none
  view : s.clientView = none
  clients : ∀ m, (s.heap m).running = true → (s.heap m).client = none
  hot : ∀ m, (s.heap m).running = true → ∀ rec, (s.heap m).process rec = s.heap m

/-- A tab that has just been added to the hub. -/
structure Added (s : Tab) : Prop where
  registered : s.registered = true
  phase : ∀ p, s.phase p = .waiting
  gone : s.Gone

end Tab
end NatsExplorer.Ws
