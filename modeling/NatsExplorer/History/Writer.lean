import NatsExplorer.Filter
import NatsExplorer.Library.Transition
import Mathlib.Algebra.BigOperators.Group.Multiset.Basic
import Mathlib.Tactic.Abel

/-! The way of a record to the disk (`Tee.Append`, `DB.Enqueue`, `DB.writer` and
`DB.Close` in `internal/history/sqlite.go`, switched off by
`internal/history/persistence.go`). Appenders share the pointer to the database,
the budget of the queue, the channel and the counters with the one writer; every
load, atomic addition and channel operation is a step of its own. -/
namespace NatsExplorer.History
open Go

def dbQueue : Nat := 2 ^ 20
def dbBatch : Nat := 2000
def defaultQueueBytes : Int := 64 * 2 ^ 20
def queuedOverhead : Nat := 128

structure Queued where
  conn : Str
  record : Record
  deriving DecidableEq

/-- What an entry counts against the queue budget. -/
def Queued.size (q : Queued) : Int := q.record.data.length + byteLen q.record.subject + queuedOverhead

/-- Where a call of `Append` is, after the record went into memory. -/
inductive Stage where
  | load
  | filter
  | reserve
  | send
  | refund
  | drop
  deriving DecidableEq

structure Call where
  entry : Queued
  stage : Stage
  deriving DecidableEq

/-- What a call still has to bring to the queue or to the counter. -/
def Call.pending (c : Call) : Multiset Queued :=
  match c.stage with
  | .load | .filter => 0
  | _ => {c.entry}

/-- The loop the writer is in; it leaves through the drain. -/
inductive Place where
  | select
  | drain
  | gone
  deriving DecidableEq

/-- The writer flushes in two steps: the transaction, then the budget. -/
inductive Phase where
  | loop (place : Place)
  | insert (next : Place)
  | release (next : Place)
  deriving DecidableEq

structure Pipeline where
  /-- The tee points at this database. -/
  attached : Bool
  persist : Option Filter.Program
  queueBudget : Int
  queueBytes : Int
  queue : List Queued
  /-- The channel `stop` is closed. -/
  stopped : Bool
  phase : Phase
  batch : List Queued
  filtered : Nat
  dropped : Nat
  written : Nat
  calls : Multiset Call
  /-- What passed the filter of an appender that had the database, and what the
  transactions inserted. -/
  passed : Multiset Queued
  rows : Multiset Queued

namespace Pipeline

/-- `OpenDB` followed by `SetDB`. -/
def opened (persist : Option Filter.Program) : Pipeline where
  attached := true
  persist := persist
  queueBudget := defaultQueueBytes
  queueBytes := 0
  queue := []
  stopped := false
  phase := .loop .select
  batch := []
  filtered := 0
  dropped := 0
  written := 0
  calls := 0
  passed := 0
  rows := 0

inductive Act where
  | append (q : Queued)
  | load (q : Queued)
  | filter (q : Queued)
  | reserve (q : Queued)
  | send (q : Queued)
  | refund (q : Queued)
  | drop (q : Queued)
  | setPersistFilter (p : Option Filter.Program)
  | setQueueBytes (n : Int)
  | setDB
  | close
  | take
  | flush
  | stop
  | empty
  | insert (committed : Bool)
  | release

/-- The filter is judged in one step with reading its pointer. -/
def accepts (s : Pipeline) (q : Queued) : Bool :=
  match s.persist with
  | none => true
  | some p => p.onRecord q.record

inductive Step : Pipeline → Act → Pipeline → Prop where
  | append {s q} : Step s (.append q) { s with calls := ⟨q, .load⟩ ::ₘ s.calls }
  | load {s q rest} : s.calls = ⟨q, .load⟩ ::ₘ rest → Step s (.load q) { s with
      calls := if s.attached then ⟨q, .filter⟩ ::ₘ rest else rest }
  | filter {s q rest} : s.calls = ⟨q, .filter⟩ ::ₘ rest → s.accepts q = true →
      Step s (.filter q) { s with
        calls := ⟨q, .reserve⟩ ::ₘ rest
        passed := q ::ₘ s.passed }
  | refuse {s q rest} : s.calls = ⟨q, .filter⟩ ::ₘ rest → s.accepts q = false →
      Step s (.filter q) { s with
        calls := rest
        filtered := s.filtered + 1 }
  | reserve {s q rest} : s.calls = ⟨q, .reserve⟩ ::ₘ rest → Step s (.reserve q) { s with
      calls := ⟨q, if s.queueBytes + q.size > s.queueBudget then .refund else .send⟩ ::ₘ rest
      queueBytes := s.queueBytes + q.size }
  | send {s q rest} : s.calls = ⟨q, .send⟩ ::ₘ rest → s.queue.length < dbQueue →
      Step s (.send q) { s with
        calls := rest
        queue := s.queue ++ [q] }
  | full {s q rest} : s.calls = ⟨q, .send⟩ ::ₘ rest → ¬ s.queue.length < dbQueue →
      Step s (.send q) { s with calls := ⟨q, .refund⟩ ::ₘ rest }
  | refund {s q rest} : s.calls = ⟨q, .refund⟩ ::ₘ rest → Step s (.refund q) { s with
      calls := ⟨q, .drop⟩ ::ₘ rest
      queueBytes := s.queueBytes - q.size }
  | drop {s q rest} : s.calls = ⟨q, .drop⟩ ::ₘ rest → Step s (.drop q) { s with
      calls := rest
      dropped := s.dropped + 1 }
  | setPersistFilter {s p} : Step s (.setPersistFilter p) { s with persist := p }
  | setQueueBytes {s n} : Step s (.setQueueBytes n) { s with queueBudget := n }
  | setDB {s} : Step s .setDB { s with attached := false }
  | close {s} : s.attached = false → s.stopped = false → Step s .close { s with stopped := true }
  | take {s place q rest} : s.phase = .loop place → place ≠ .gone → s.queue = q :: rest →
      Step s .take { s with
        queue := rest
        batch := s.batch ++ [q]
        phase := if (s.batch ++ [q]).length = dbBatch then .insert place else .loop place }
  /-- A tick, a flush request, or the minute's cleanup. -/
  | flush {s} : s.phase = .loop .select → Step s .flush { s with phase := .insert .select }
  | stop {s} : s.phase = .loop .select → s.stopped = true →
      Step s .stop { s with phase := .loop .drain }
  | empty {s} : s.phase = .loop .drain → s.queue = [] →
      Step s .empty { s with phase := .insert .gone }
  | nothing {s place ok} : s.phase = .insert place → s.batch = [] →
      Step s (.insert ok) { s with phase := .loop place }
  | commit {s place} : s.phase = .insert place → s.batch ≠ [] → Step s (.insert true) { s with
      rows := s.rows + s.batch
      written := s.written + s.batch.length
      phase := .release place }
  | rollback {s place} : s.phase = .insert place → s.batch ≠ [] → Step s (.insert false) { s with
      dropped := s.dropped + s.batch.length
      phase := .release place }
  | release {s place} : s.phase = .release place → Step s .release { s with
      queueBytes := s.queueBytes - (s.batch.map Queued.size).sum
      batch := []
      phase := .loop place }

/-- Every call has returned, that of `Close` included. -/
structure Returned (s : Pipeline) : Prop where
  calls : s.calls = 0
  closed : s.phase = .loop .gone

/-- Nothing stays behind, and what passed the filter is a row or is counted as
dropped, each once. -/
structure Accounted (s : Pipeline) : Prop where
  queue : s.queue = []
  batch : s.batch = []
  split : ∃ lost, s.passed = s.rows + lost ∧ s.dropped = lost.card ∧ s.written = s.rows.card

/-- The writer has looked at the queue for the last time. -/
def Leaving (s : Pipeline) : Prop :=
  s.phase = .loop .gone ∨ s.phase = .insert .gone ∨ s.phase = .release .gone

/-- An appender that has the database sends before the writer is done with it. -/
def InTime (s : Pipeline) (act : Act) : Prop := ∀ q, act = .send q → ¬ s.Leaving

/-- A batch until its transaction is over. -/
def unwritten (s : Pipeline) : Multiset Queued :=
  match s.phase with
  | .release _ => 0
  | _ => s.batch

def inFlight (s : Pipeline) : Multiset Queued := (s.calls.map Call.pending).sum

/-- Where everything is that passed the filter. -/
def Balanced (s : Pipeline) : Prop :=
  ∃ lost : Multiset Queued,
    s.passed = s.rows + lost + s.queue + s.unwritten + s.inFlight ∧
      s.dropped = lost.card ∧ s.written = s.rows.card

variable {s t : Pipeline} {act : Act} {c : Call} {rest : Multiset Call}

theorem inFlight_cons (here : s.calls = c ::ₘ rest) :
    s.inFlight = c.pending + (rest.map Call.pending).sum := by
  rw [inFlight, here, Multiset.map_cons, Multiset.sum_cons]

/-- A call that goes on to a stage with the same record pending. -/
theorem Balanced.advance {c' : Call} (balanced : s.Balanced) (here : s.calls = c ::ₘ rest)
    (same : c'.pending = c.pending) {bytes : Int} :
    Balanced { s with calls := c' ::ₘ rest, queueBytes := bytes } := by
  obtain ⟨lost, split, counters⟩ := balanced
  refine ⟨lost, ?_, counters⟩
  have flight : inFlight { s with calls := c' ::ₘ rest, queueBytes := bytes } = s.inFlight := by
    rw [inFlight_cons here, inFlight_cons (rfl : _ = c' ::ₘ rest), same]
  rw [flight]
  exact split

theorem step_balanced (balanced : s.Balanced) (step : Step s act t) : t.Balanced := by
  cases step with
  | append =>
    obtain ⟨lost, split, counters⟩ := balanced
    refine ⟨lost, ?_, counters⟩
    simpa [inFlight, Call.pending, unwritten] using split
  | load here =>
    obtain ⟨lost, split, counters⟩ := balanced
    refine ⟨lost, ?_, counters⟩
    rw [inFlight_cons here] at split
    split_ifs
    · simpa [inFlight, Call.pending, unwritten] using split
    · simpa [inFlight, Call.pending, unwritten] using split
  | filter here accepted =>
    obtain ⟨lost, split, counters⟩ := balanced
    refine ⟨lost, ?_, counters⟩
    rw [inFlight_cons here] at split
    simp only [inFlight, Multiset.map_cons, Multiset.sum_cons, split, Call.pending]
    simp only [unwritten, ← Multiset.singleton_add]
    abel
  | refuse here refused =>
    obtain ⟨lost, split, counters⟩ := balanced
    refine ⟨lost, ?_, counters⟩
    rw [inFlight_cons here] at split
    simpa [inFlight, Call.pending, unwritten] using split
  | reserve here =>
    refine balanced.advance here ?_
    split_ifs <;> rfl
  | send here room =>
    obtain ⟨lost, split, counters⟩ := balanced
    refine ⟨lost, ?_, counters⟩
    rw [inFlight_cons here] at split
    simp only [split, Call.pending, ← Multiset.coe_add, Multiset.coe_singleton]
    simp only [unwritten, inFlight]
    abel
  | full here room =>
    refine balanced.advance here ?_
    rfl
  | refund here =>
    refine balanced.advance here ?_
    rfl
  | @drop q rest here =>
    obtain ⟨lost, split, dropped, written⟩ := balanced
    refine ⟨q ::ₘ lost, ?_, by rw [Multiset.card_cons, dropped], written⟩
    rw [inFlight_cons here] at split
    simp only [split, Call.pending, ← Multiset.singleton_add]
    simp only [unwritten, inFlight]
    abel
  | setPersistFilter => exact balanced
  | setQueueBytes => exact balanced
  | setDB => exact balanced
  | close => exact balanced
  | @take place q rest here within first =>
    obtain ⟨lost, split, counters⟩ := balanced
    refine ⟨lost, ?_, counters⟩
    have moved : unwritten { s with
        queue := rest
        batch := s.batch ++ [q]
        phase := if (s.batch ++ [q]).length = dbBatch then .insert place else .loop place } =
          s.unwritten + {q} := by
      simp only [unwritten, here]
      split_ifs <;> simp only [← Multiset.coe_add, Multiset.coe_singleton]
    rw [moved]
    simp only [split, first, ← Multiset.singleton_add, ← Multiset.cons_coe, inFlight]
    abel
  | flush here =>
    obtain ⟨lost, split, counters⟩ := balanced
    exact ⟨lost, by simpa [unwritten, inFlight, here] using split, counters⟩
  | stop here =>
    obtain ⟨lost, split, counters⟩ := balanced
    exact ⟨lost, by simpa [unwritten, inFlight, here] using split, counters⟩
  | empty here none =>
    obtain ⟨lost, split, counters⟩ := balanced
    exact ⟨lost, by simpa [unwritten, inFlight, here, none] using split, counters⟩
  | nothing here none =>
    obtain ⟨lost, split, counters⟩ := balanced
    exact ⟨lost, by simpa [unwritten, inFlight, here, none] using split, counters⟩
  | commit here some =>
    obtain ⟨lost, split, dropped, written⟩ := balanced
    refine ⟨lost, ?_, dropped, by rw [Multiset.card_add, written, Multiset.coe_card]⟩
    simp only [unwritten, here] at split
    simp only [split, unwritten, inFlight]
    abel
  | rollback here some =>
    obtain ⟨lost, split, dropped, written⟩ := balanced
    refine ⟨lost + s.batch, ?_, by rw [Multiset.card_add, dropped, Multiset.coe_card], written⟩
    simp only [unwritten, here] at split
    simp only [split, unwritten, inFlight]
    abel
  | release here =>
    obtain ⟨lost, split, counters⟩ := balanced
    exact ⟨lost, by simpa [unwritten, inFlight, here] using split, counters⟩

/-- Once the writer is on its way out there is nothing left for it. -/
structure Emptied (s : Pipeline) : Prop where
  queue : s.Leaving → s.queue = []
  batch : s.phase = .loop .gone → s.batch = []

theorem step_emptied (emptied : s.Emptied) (step : Step s act t) (inTime : s.InTime act) :
    t.Emptied := by
  cases step with
  | append => exact ⟨emptied.queue, emptied.batch⟩
  | load => exact ⟨emptied.queue, emptied.batch⟩
  | filter => exact ⟨emptied.queue, emptied.batch⟩
  | refuse => exact ⟨emptied.queue, emptied.batch⟩
  | reserve => exact ⟨emptied.queue, emptied.batch⟩
  | send => exact ⟨fun leaving => absurd leaving (inTime _ rfl), emptied.batch⟩
  | full => exact ⟨emptied.queue, emptied.batch⟩
  | refund => exact ⟨emptied.queue, emptied.batch⟩
  | drop => exact ⟨emptied.queue, emptied.batch⟩
  | setPersistFilter => exact ⟨emptied.queue, emptied.batch⟩
  | setQueueBytes => exact ⟨emptied.queue, emptied.batch⟩
  | setDB => exact ⟨emptied.queue, emptied.batch⟩
  | close => exact ⟨emptied.queue, emptied.batch⟩
  | take here within first =>
    constructor
    · intro leaving
      simp only [Leaving] at leaving
      split_ifs at leaving <;> simp_all
    · intro gone
      simp only at gone
      split_ifs at gone
      exact absurd (Phase.loop.inj gone) within
  | flush here => exact ⟨fun leaving => by simp [Leaving] at leaving, fun gone => by simp at gone⟩
  | stop here => exact ⟨fun leaving => by simp [Leaving] at leaving, fun gone => by simp at gone⟩
  | empty here none => exact ⟨fun _ => none, fun gone => by simp at gone⟩
  | nothing here none =>
    refine ⟨fun leaving => emptied.queue ?_, fun _ => none⟩
    simp only [Leaving, here] at leaving ⊢
    simpa using leaving
  | commit here some =>
    refine ⟨fun leaving => emptied.queue ?_, fun gone => by simp at gone⟩
    simp only [Leaving, here] at leaving ⊢
    simpa using leaving
  | rollback here some =>
    refine ⟨fun leaving => emptied.queue ?_, fun gone => by simp at gone⟩
    simp only [Leaving, here] at leaving ⊢
    simpa using leaving
  | release here =>
    refine ⟨fun leaving => emptied.queue ?_, fun _ => rfl⟩
    simp only [Leaving, here] at leaving ⊢
    simpa using leaving

theorem opened_balanced (persist : Option Filter.Program) : (opened persist).Balanced :=
  ⟨0, rfl, rfl, rfl⟩

theorem opened_emptied (persist : Option Filter.Program) : (opened persist).Emptied :=
  ⟨fun _ => rfl, fun _ => rfl⟩

/-- Whatever the interleaving, as long as no appender sends to a writer that has
already looked at the queue for the last time. -/
theorem accounted {persist : Option Filter.Program} {acts : List Act}
    (run : Transition.Reaches (fun s act t => Step s act t ∧ s.InTime act) (opened persist) acts s)
    (returned : s.Returned) : s.Accounted := by
  have kept : s.Balanced ∧ s.Emptied := by
    refine run.invariant (P := fun s => s.Balanced ∧ s.Emptied) ?_
      ⟨opened_balanced persist, opened_emptied persist⟩
    rintro s act t ⟨balanced, emptied⟩ ⟨step, inTime⟩
    exact ⟨step_balanced balanced step, step_emptied emptied step inTime⟩
  obtain ⟨⟨lost, split, dropped, written⟩, emptied⟩ := kept
  have queue := emptied.queue (Or.inl returned.closed)
  have batch := emptied.batch returned.closed
  refine ⟨queue, batch, lost, ?_, dropped, written⟩
  simpa [unwritten, inFlight, returned.calls, returned.closed, queue, batch] using split

def sample : Queued where
  conn := ['c']
  record := {
    subject := ['a']
    data := .text ['1']
    timestamp := 1
    sequence := 1 }

theorem inTime_of_other {s : Pipeline} {act : Act} (other : ∀ q, act ≠ .send q) : s.InTime act :=
  fun q same => absurd same (other q)

/-- One message, written on the way out. -/
theorem accounted_one : ∃ s : Pipeline, s.rows = {sample} ∧ s.Returned ∧ s.Accounted := by
  have run : Transition.Reaches (fun s act t => Step s act t ∧ s.InTime act) (opened none) _ _ :=
    .refl (opened none)
  have run := run.next ⟨.append (q := sample), inTime_of_other (by simp)⟩
  have run := run.next ⟨@Step.load _ sample 0 rfl, inTime_of_other (by simp)⟩
  have run := run.next ⟨@Step.filter _ sample 0 rfl rfl, inTime_of_other (by simp)⟩
  have run := run.next ⟨@Step.reserve _ sample 0 rfl, inTime_of_other (by simp)⟩
  have run := run.next ⟨@Step.send _ sample 0 rfl (by decide), fun _ _ => by simp [Leaving, opened]⟩
  have run := run.next ⟨@Step.take _ .select sample [] rfl (by decide) rfl, inTime_of_other (by simp)⟩
  have run := run.next ⟨.setDB, inTime_of_other (by simp)⟩
  have run := run.next ⟨.close rfl rfl, inTime_of_other (by simp)⟩
  have run := run.next ⟨.stop rfl rfl, inTime_of_other (by simp)⟩
  have run := run.next ⟨.empty rfl rfl, inTime_of_other (by simp)⟩
  have run := run.next ⟨.commit rfl (by simp [opened]), inTime_of_other (by simp)⟩
  have run := run.next ⟨.release rfl, inTime_of_other (by simp)⟩
  exact ⟨_, rfl, ⟨rfl, rfl⟩, accounted run ⟨rfl, rfl⟩⟩

/-- An appender that loaded the database before it was detached sends its record
to a queue nobody reads any more. -/
theorem left_behind : ¬ ∀ (persist : Option Filter.Program) (acts : List Act) (s : Pipeline),
    Transition.Reaches Step (opened persist) acts s → s.Returned → s.Accounted := by
  intro claim
  have run : Transition.Reaches Step (opened none) _ _ := .refl (opened none)
  have run := run.next (.append (q := sample))
  have run := run.next (@Step.load _ sample 0 rfl)
  have run := run.next (@Step.filter _ sample 0 rfl rfl)
  have run := run.next .setDB
  have run := run.next (.close rfl rfl)
  have run := run.next (.stop rfl rfl)
  have run := run.next (.empty rfl rfl)
  have run := run.next (@Step.nothing _ .gone true rfl rfl)
  have run := run.next (@Step.reserve _ sample 0 rfl)
  have run := run.next (@Step.send _ sample 0 rfl (by decide))
  have accounted := claim _ _ _ run ⟨rfl, rfl⟩
  exact absurd accounted.queue (List.cons_ne_nil _ _)

end Pipeline
end NatsExplorer.History
