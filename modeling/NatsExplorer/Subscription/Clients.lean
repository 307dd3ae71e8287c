import NatsExplorer.Subscription.View

/-! What a manager keeps for one browser tab (`client` in
`internal/subscription/manager.go`): the messages of what the tab watches, within a
budget for each second, and the part of the tree it shows. -/
namespace NatsExplorer.Subscription.Clients
open Go

def maxMsgsPerSecondPerSubject : Nat := 50
def maxMsgsPerSecondPerClient : Nat := 2000
def maxBytesPerSecondPerClient : Nat := 2 * 2 ^ 20

structure Client where
  focus : List Str
  batch : List Record
  sent : Nat
  sentBytes : Nat
  perSubject : Map Str Nat
  view : ClientView

namespace Client

def newClient : Client where
  focus := []
  batch := []
  sent := 0
  sentBytes := 0
  perSubject := ∅
  view := .newClientView

def wants (c : Client) (subject : Str) : Bool :=
  c.focus.any fun f => subject = f || strings.hasPrefix subject (f ++ ['.'])

/-- Whether a message joins the feed; one that does is charged to the budgets. -/
def admits (c : Client) (subject : Str) (size : Nat) : Client × Bool :=
  let n := (c.perSubject.lookup subject).getD 0
  if maxMsgsPerSecondPerSubject ≤ n ∨ maxMsgsPerSecondPerClient ≤ c.sent then (c, false)
  else if 0 < c.sent ∧ maxBytesPerSecondPerClient < c.sentBytes + size then (c, false)
  else if 0 < n ∧ (maxMsgsPerSecondPerClient / 2 ≤ c.sent ∨ maxBytesPerSecondPerClient / 2 ≤ c.sentBytes) then
    (c, false)
  else
    ({ c with
      perSubject := c.perSubject.insert subject (n + 1)
      sent := c.sent + 1
      sentBytes := c.sentBytes + size }, true)

def resetSecond (c : Client) : Client := { c with sent := 0, sentBytes := 0, perSubject := ∅ }

def setFocus (c : Client) (subjects : List Str) : Client :=
  if c.focus ≠ subjects then { c with focus := subjects, batch := [] }.resetSecond else c

def setView [Tables] [Filter.Compiler] (c : Client) (view : View) : Client :=
  { c with view := c.view.set view }

end Client

/-- The part of a manager that is about one tab, without the tree and what it makes of the
view. The list `focused` of the clients with a focus is left out: it is made anew under the
lock that changes them, and a client without a focus wants no message. -/
structure Manager where
  running : Bool
  client : Option Client
  totalThrottled : Nat

/-- What the goroutines of a manager do to it, each between two of its locks. -/
inductive Event where
  | start
  | stop
  | process (rec : Record)
  | flushBatches
  | tick

namespace Manager

def newManager : Manager where
  running := false
  client := none
  totalThrottled := 0

def setFocus (m : Manager) (subjects : List Str) : Manager :=
  { m with client := some ((m.client.getD .newClient).setFocus subjects) }

/-- Without the emit that follows it. -/
def setView [Tables] [Filter.Compiler] (m : Manager) (view : View) : Manager :=
  { m with client := some ((m.client.getD .newClient).setView view) }

def removeClient (m : Manager) : Manager := { m with client := none }

/-- `Start` and `StartOffline` keep the clients the manager has. -/
def start (m : Manager) : Manager where
  running := true
  client := m.client.map fun c =>
    { c.resetSecond with batch := [], view := { c.view with needFull := true } }
  totalThrottled := 0

/-- `Stop`, up to the last flush; the clients stay. -/
def stop (m : Manager) : Manager := { m with running := false }

/-- The hot path, as far as the feed goes. -/
def process (m : Manager) (rec : Record) : Manager :=
  match m.client with
  | none => m
  | some c =>
    if c.wants rec.subject then
      match c.admits rec.subject rec.data.length with
      | (c, true) => { m with client := some { c with batch := c.batch ++ [rec] } }
      | (_, false) => { m with totalThrottled := m.totalThrottled + 1 }
    else m

def flushBatches (m : Manager) : Manager :=
  { m with client := m.client.map fun c => { c with batch := [] } }

def tick (m : Manager) : Manager := { m with client := m.client.map Client.resetSecond }

def step (m : Manager) : Event → Manager
  | .start => m.start
  | .stop => m.stop
  | .process rec => m.process rec
  | .flushBatches => m.flushBatches
  | .tick => m.tick

variable {m : Manager}

theorem process_gone (gone : m.client = none) (rec : Record) : m.process rec = m := by
  rw [process, gone]

/-- A manager makes no client by itself. -/
theorem step_gone (gone : m.client = none) (e : Event) : (m.step e).client = none := by
  cases e with
  | start => simp only [step, start, gone, Option.map_none]
  | stop => exact gone
  | process rec =>
    rw [step, process_gone gone]
    exact gone
  | flushBatches => simp only [step, flushBatches, gone, Option.map_none]
  | tick => simp only [step, tick, gone, Option.map_none]

/-- Only `Start` makes a manager run. -/
theorem step_running {e : Event} (other : e ≠ .start) (running : (m.step e).running = true) :
    m.running = true := by
  cases e with
  | start => exact absurd rfl other
  | stop => cases running
  | process rec =>
    simp only [step, process] at running
    split at running
    · exact running
    · split at running
      · split at running <;> exact running
      · exact running
  | flushBatches => exact running
  | tick => exact running

end Manager
end NatsExplorer.Subscription.Clients
