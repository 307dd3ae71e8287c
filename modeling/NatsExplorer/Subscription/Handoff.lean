import NatsExplorer.History.MemStoreSound

/-! The hand-off of deliveries to a shard's worker (`internal/subscription/manager.go`).
They collect in `pend` and travel as batches: a full one goes out with the
delivery that filled it, and the flusher takes what there is. Taking a batch out
and sending it are two steps, with the lock released in between. -/
namespace NatsExplorer.Subscription
open Go History

def shardQueue : Nat := 64
def batchSize : Nat := 128

/-- A `nats.Msg`. -/
structure Msg where
  subject : Str
  data : Data
  header : Header := []
  reply : Str := []
  deriving DecidableEq

/-- The sequence and the time are taken on arrival. -/
structure Delivery where
  msg : Msg
  seq : Nat
  now : Int
  deriving DecidableEq

structure SubjectStats where
  count : Int
  last : Option Record

structure Shard where
  subjects : Map Str SubjectStats
  dirty : List Str
  active : KeySet Str
  pend : List Delivery
  /-- The channel `in`. -/
  queue : List (List Delivery)

namespace Shard

/-- The second component is the batch to be sent, empty if there is none. -/
def enqueue (sh : Shard) (d : Delivery) : Shard × List Delivery :=
  let pend := sh.pend ++ [d]
  if pend.length < batchSize then ({ sh with pend := pend }, [])
  else ({ sh with pend := [] }, pend)

def flush (sh : Shard) : Shard × List Delivery := ({ sh with pend := [] }, sh.pend)

/-- Blocks while the channel is full. -/
def send (sh : Shard) (batch : List Delivery) : Option Shard :=
  if sh.queue.length < shardQueue then some { sh with queue := sh.queue ++ [batch] } else none

end Shard

/-- What the manager's hot path works on, for one shard. -/
structure HotPath where
  shard : Shard
  totalRecv : Nat
  subjectCount : Int
  history : MemStore
  /-- The records `OnRecord` has seen. -/
  records : List Record

def newRecord (subjectHash : Str → Nat) (msg : Msg) (seq : Nat) (now : Int) : Record where
  subject := msg.subject
  data := msg.data
  header := msg.header
  reply := msg.reply
  timestamp := now
  sequence := seq
  hash := subjectHash msg.subject

namespace HotPath

def process (connID : Str) (m : HotPath) (d : Delivery) : Except String HotPath :=
  let r := newRecord m.history.hash d.msg d.seq d.now
  let known := m.shard.subjects.lookup r.subject
  let st := known.getD { count := 0, last := none }
  let shard := { m.shard with
    subjects := m.shard.subjects.insert r.subject { count := st.count + 1, last := some r }
    active := m.shard.active.insert r.subject ()
    dirty := m.shard.dirty ++ [r.subject] }
  match m.history.append connID r with
  | .error panic => .error panic
  | .ok history => .ok { m with
      shard := shard
      subjectCount := if known.isSome then m.subjectCount else m.subjectCount + 1
      history := history
      records := m.records ++ [r] }

theorem process_spec {connID : Str} {m m' : HotPath} {d : Delivery}
    (done : m.process connID d = .ok m') :
    m'.shard.pend = m.shard.pend ∧ m'.shard.queue = m.shard.queue ∧ m'.totalRecv = m.totalRecv ∧
      m'.records = m.records ++ [newRecord m.history.hash d.msg d.seq d.now] ∧
      m.history.append connID (newRecord m.history.hash d.msg d.seq d.now) = .ok m'.history ∧
      ∃ st, m'.shard.subjects = m.shard.subjects.insert d.msg.subject st ∧
        st.last = some (newRecord m.history.hash d.msg d.seq d.now) := by
  simp only [process] at done
  split at done
  · cases done
  · rename_i history stored
    cases done
    exact ⟨rfl, rfl, rfl, rfl, stored, _, rfl, rfl⟩

end HotPath

/-- One shard and the goroutines at it: producers `P`, the flusher (`none`) and
the worker. -/
structure HandOff (P : Type) extends HotPath where
  /-- Numbered by `receive`, on its way into `enqueue`. -/
  arriving : P → Option Delivery
  /-- Taken out of `pend` and not sent yet. -/
  held : Option P → List Delivery
  /-- Received by the worker and not processed yet. -/
  work : List Delivery
  /-- What went into `pend` and what came out of `process` so far. -/
  entered : List Delivery
  processed : List Delivery

inductive Act (P : Type) where
  | receive (p : P) (msg : Msg) (now : Int)
  | elsewhere
  | enqueue (p : P)
  | flush
  | send (a : Option P)
  | take
  | process
  | store (op : MemStore.Op)

namespace HandOff
variable {P : Type} [DecidableEq P]

/-- `mine` are the subjects whose hash lands on the shard. Deliveries to other
shards draw on the same counter, and the history is used by others too, but no
one else appends to this connection's subjects of the shard. -/
inductive Step (connID : Str) (mine : Str → Bool) : HandOff P → Act P → HandOff P → Prop where
  | receive {s p msg now} : s.arriving p = none → s.held (some p) = [] → mine msg.subject = true →
      Step connID mine s (.receive p msg now) { s with
        totalRecv := s.totalRecv + 1
        arriving := Function.update s.arriving p (some ⟨msg, s.totalRecv + 1, now⟩) }
  | elsewhere {s} : Step connID mine s .elsewhere { s with totalRecv := s.totalRecv + 1 }
  | enqueue {s p d} : s.arriving p = some d → Step connID mine s (.enqueue p) { s with
      shard := (s.shard.enqueue d).1
      arriving := Function.update s.arriving p none
      held := Function.update s.held (some p) (s.shard.enqueue d).2
      entered := s.entered ++ [d] }
  | flush {s} : s.held none = [] → Step connID mine s .flush { s with
      shard := s.shard.flush.1
      held := Function.update s.held none s.shard.flush.2 }
  | send {s a sh} : s.held a ≠ [] → s.shard.send (s.held a) = some sh →
      Step connID mine s (.send a) { s with
        shard := sh
        held := Function.update s.held a [] }
  | take {s batch rest} : s.work = [] → s.shard.queue = batch :: rest →
      Step connID mine s .take { s with
        shard := { s.shard with queue := rest }
        work := batch }
  | process {s d rest m} : s.work = d :: rest → s.toHotPath.process connID d = .ok m →
      Step connID mine s .process { s with
        toHotPath := m
        work := rest
        processed := s.processed ++ [d] }
  | store {s op history} : (∀ rec, op = .append connID rec → mine rec.subject = false) →
      s.history.step op = .ok history → Step connID mine s (.store op) { s with history := history }

/-- Nothing has been received yet; the subjects may have been restored. -/
structure Idle (s : HandOff P) : Prop where
  pend : s.shard.pend = []
  queue : s.shard.queue = []
  arriving (p : P) : s.arriving p = none
  held (a : Option P) : s.held a = []
  work : s.work = []
  entered : s.entered = []
  processed : s.processed = []
  records : s.records = []

/-- What `Start` leaves, without restored subjects. -/
def start (history : MemStore) : HandOff P where
  shard := { subjects := ∅, dirty := [], active := ∅, pend := [], queue := [] }
  totalRecv := 0
  subjectCount := 0
  history := history
  records := []
  arriving _ := none
  held _ := []
  work := []
  entered := []
  processed := []

omit [DecidableEq P] in
theorem start_idle (history : MemStore) : (start history : HandOff P).Idle :=
  ⟨rfl, rfl, fun _ => rfl, fun _ => rfl, rfl, rfl, rfl, rfl⟩

end HandOff
end NatsExplorer.Subscription
