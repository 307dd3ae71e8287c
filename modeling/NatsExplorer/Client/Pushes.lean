import Mathlib.Algebra.BigOperators.Group.Multiset.Basic
import NatsExplorer.Library.Transition

/-! How a tab learns of the connections and the alerts (`connection.Store.notify`,
`alerts.Engine.Flush`, `ws.Hub.Broadcast`, `lib/feed.ts`, `store/alerts.ts`). What is told is read in
one step and told in another; a step is what a goroutine, a handler or the tab does in between. The
list of connections is a `C`, the rules are an `R`, the active alerts an `A`, and an event is an `E`. -/
namespace NatsExplorer.Client.Pushes

def maxEvents : Nat := 1000
def alertsEventLimit : Nat := 200

/-- How much of the log the tab keeps. -/
def logLimit : Nat := 500

inductive Frame (C A E : Type) where
  | connections (data : C)
  | alerts (active : A) (events : List E)

/-- What is under way: a `notify`, or the first list of a new tab; what a change of the alerts has
still to record and to signal; a handler before, in and after its `Flush`, which for `ack` answers
with the active alerts; and `load`, with the answers it has. -/
inductive Call (C R A E : Type) where
  | notify
  | broadcast (data : C)
  | record (ev : Option E)
  | ack
  | flush (ack : Bool)
  | onChange (active : A) (pending : List E) (ack : Bool)
  | list
  | answer (active : A)
  | load (rules : Option R) (active : Option A) (events : Option (List E))

structure Tab (C R A E : Type) where
  connections : C
  rules : R
  active : A
  events : List E

/-- `loop` is what the broadcast loop's `Flush` took and has not told yet; `frames` are on their way
to the tab. -/
structure System (C R A E : Type) where
  connections : C
  rules : R
  active : A
  events : List E
  pending : List E
  dirty : Bool
  loop : Option (A × List E)
  calls : Multiset (Call C R A E)
  frames : List (Frame C A E)
  tab : Tab C R A E

/-- The steps that tell something say what, and what else is under way. -/
inductive Act (C R A E : Type) where
  | connections (data : C)
  | rules (rules : R)
  | active (active : A) (ev : Option E)
  | read
  | broadcast (data : C) (rest : Multiset (Call C R A E))
  | record
  | loopTake
  | loopTell (active : A) (pending : List E)
  | call (ack : Bool)
  | acked (active : A)
  | ackFails
  | take
  | tell (active : A) (pending : List E) (rest : Multiset (Call C R A E))
  | list
  | answered (active : A) (rest : Multiset (Call C R A E))
  | load
  | loadAnswers
  | loaded (active : A) (events : List E) (rest : Multiset (Call C R A E))
  | loadFails (rest : Multiset (Call C R A E))
  | receive

variable {C R A E : Type}

/-- `apply` of `useAlerts`. -/
def Tab.apply (tab : Tab C R A E) (active : A) (events : List E) : Tab C R A E :=
  { tab with
    active := active
    events := if events = [] then tab.events else (events ++ tab.events).take logLimit }

def Tab.receive (tab : Tab C R A E) : Frame C A E → Tab C R A E
  | .connections data => { tab with connections := data }
  | .alerts active events => tab.apply active events

namespace System

/-- `Engine.Events`: the newest first. -/
def eventsOf (s : System C R A E) (limit : Nat) : List E := (s.events.reverse.take maxEvents).take limit

inductive Step : System C R A E → Act C R A E → System C R A E → Prop where
  | connections {s} (data) :
      Step s (.connections data) { s with connections := data, calls := .notify ::ₘ s.calls }
  | rules {s} (rules) : Step s (.rules rules) { s with rules := rules }
  | active {s} (active ev) :
      Step s (.active active ev) { s with active := active, calls := .record ev ::ₘ s.calls }
  | read {s rest} : s.calls = .notify ::ₘ rest →
      Step s .read { s with calls := .broadcast s.connections ::ₘ rest }
  | broadcast {s rest data} : s.calls = .broadcast data ::ₘ rest →
      Step s (.broadcast data rest) { s with frames := s.frames ++ [.connections data], calls := rest }
  | record {s rest ev} : s.calls = .record ev ::ₘ rest → Step s .record { s with
      events := s.events ++ ev.toList
      pending := s.pending ++ ev.toList
      dirty := true
      calls := rest }
  | loopTake {s} : s.dirty = true → s.loop = none →
      Step s .loopTake { s with dirty := false, loop := some (s.active, s.pending), pending := [] }
  | loopTell {s active pending} : s.loop = some (active, pending) → Step s (.loopTell active pending)
      { s with frames := s.frames ++ [.alerts active pending], loop := none }
  | call {s} (ack) :
      Step s (.call ack) { s with calls := (if ack then .ack else .flush false) ::ₘ s.calls }
  | acked {s rest} (active) : s.calls = .ack ::ₘ rest →
      Step s (.acked active) { s with active := active, dirty := true, calls := .flush true ::ₘ rest }
  | ackFails {s rest} : s.calls = .ack ::ₘ rest → Step s .ackFails { s with calls := rest }
  | take {s rest ack} : s.calls = .flush ack ::ₘ rest →
      Step s .take { s with pending := [], calls := .onChange s.active s.pending ack ::ₘ rest }
  | tell {s rest active pending ack} : s.calls = .onChange active pending ack ::ₘ rest →
      Step s (.tell active pending rest) { s with
        frames := s.frames ++ [.alerts active pending]
        calls := if ack then .list ::ₘ rest else rest }
  | list {s rest} : s.calls = .list ::ₘ rest → Step s .list { s with calls := .answer s.active ::ₘ rest }
  | answered {s rest active} : s.calls = .answer active ::ₘ rest →
      Step s (.answered active rest) { s with tab := { s.tab with active := active }, calls := rest }
  | load {s} : Step s .load { s with calls := .load none none none ::ₘ s.calls }
  | loadRules {s rest active events} : s.calls = .load none active events ::ₘ rest →
      Step s .loadAnswers { s with calls := .load (some s.rules) active events ::ₘ rest }
  | loadActive {s rest rules events} : s.calls = .load rules none events ::ₘ rest →
      Step s .loadAnswers { s with calls := .load rules (some s.active) events ::ₘ rest }
  | loadEvents {s rest rules active} : s.calls = .load rules active none ::ₘ rest →
      Step s .loadAnswers { s with calls := .load rules active (some (s.eventsOf alertsEventLimit)) ::ₘ rest }
  | loaded {s rest rules active events} : s.calls = .load (some rules) (some active) (some events) ::ₘ rest →
      Step s (.loaded active events rest) { s with
        tab := { s.tab with rules := rules, active := active, events := events }
        calls := rest }
  | loadFails {s rest rules active events} : s.calls = .load rules active events ::ₘ rest →
      Step s (.loadFails rest) { s with calls := rest }
  | receive {s frame frames} : s.frames = frame :: frames →
      Step s .receive { s with frames := frames, tab := s.tab.receive frame }

/-- Nothing is under way. -/
structure Quiet (s : System C R A E) : Prop where
  calls : s.calls = 0
  loop : s.loop = none
  dirty : s.dirty = false
  frames : s.frames = []

/-- The tab shows what there is: the connections, the active alerts and the newest events. -/
structure Shown (s : System C R A E) : Prop where
  connections : s.tab.connections = s.connections
  active : s.tab.active = s.active
  newest : s.tab.events.take alertsEventLimit = s.events.reverse.take alertsEventLimit
  events : s.tab.events <+: s.events.reverse

end System

/-! ### In what order -/

/-- The call will tell, or has read, the list of connections there is. -/
def Call.Lists (connections : C) : Call C R A E → Prop
  | .notify => True
  | .broadcast data => data = connections
  | _ => False

/-- The call makes the broadcast loop tell the active alerts, or will tell those there are. -/
def Call.Brings (active : A) : Call C R A E → Prop
  | .record _ => True
  | .onChange told _ _ => told = active
  | .load _ none _ => True
  | .load _ (some told) _ => told = active
  | _ => False

def Call.isLoad : Call C R A E → Prop
  | .load _ _ _ => True
  | _ => False

/-- How many events a call took and has not told yet. -/
def Call.took : Call C R A E → Nat
  | .onChange _ pending _ => pending.length
  | _ => 0

def Frame.events : Frame C A E → List E
  | .connections _ => []
  | .alerts _ events => events

/-- What the tab shows after a frame. -/
def Frame.connectionsAfter (shown : C) : Frame C A E → C
  | .connections data => data
  | .alerts _ _ => shown

def Frame.activeAfter (shown : A) : Frame C A E → A
  | .connections _ => shown
  | .alerts active _ => active

namespace System

/-- Something that is still to come tells the active alerts there are. -/
def Coming (s : System C R A E) (loop : Option (A × List E)) (calls : Multiset (Call C R A E)) : Prop :=
  s.dirty = true ∨ (∃ pending, loop = some (s.active, pending)) ∨ ∃ c ∈ calls, c.Brings s.active

/-- What the tab will show once the frames have arrived. -/
def lastConnections (s : System C R A E) : C := s.frames.foldl Frame.connectionsAfter s.tab.connections
def lastActive (s : System C R A E) : A := s.frames.foldl Frame.activeAfter s.tab.active

def sent (s : System C R A E) : List E := s.frames.flatMap Frame.events

/-- How many of the events recorded have not been told. -/
def untold (s : System C R A E) : Nat :=
  s.pending.length + (s.loop.elim 0 fun told => told.2.length) + (s.calls.map Call.took).sum

def waiting (s : System C R A E) : List E := s.events.drop (s.events.length - s.untold)

/-- The events that have arrived at the tab. -/
def arrived (s : System C R A E) : List E := s.events.take (s.events.length - s.untold - s.sent.length)

/-- The log of the tab: the newest events that arrived, as far as it goes back. -/
def LogShown (s : System C R A E) : Prop :=
  ∃ kept, alertsEventLimit ≤ kept ∧ s.tab.events = s.arrived.reverse.take kept

/-- A `Flush` tells the active alerts there are, or is not the last to tell; it tells the events that
come next, and one at most. -/
structure TellsInOrder (s : System C R A E) (active : A) (pending : List E) (coming : Prop) : Prop where
  active : active = s.active ∨ coming
  next : pending = s.waiting.take pending.length
  one : pending.reverse = pending

/-- Nothing old is told or applied last, and a log that is loaded is the one there is without what is
still to be told. -/
def InOrder (s : System C R A E) : Act C R A E → Prop
  | .broadcast data rest => data = s.connections ∨ ∃ c ∈ rest, c.Lists s.connections
  | .loopTell active pending => s.TellsInOrder active pending (s.Coming none s.calls)
  | .tell active pending rest => s.TellsInOrder active pending (s.Coming s.loop rest)
  | .answered active rest => s.frames.foldl Frame.activeAfter active = s.active ∨ s.Coming s.loop rest
  | .loaded active events rest =>
    (s.frames.foldl Frame.activeAfter active = s.active ∨ s.Coming s.loop rest) ∧
      events = s.arrived.reverse.take alertsEventLimit
  | .loadFails rest =>
    (s.lastActive = s.active ∨ s.Coming s.loop rest) ∧ (s.LogShown ∨ ∃ c ∈ rest, c.isLoad)
  | _ => True

end System
end NatsExplorer.Client.Pushes
