import NatsExplorer.History.Database
import NatsExplorer.History.Writer
import NatsExplorer.Library.Admission
import Mathlib.Logic.Relation

/-! The counters of an open database (`internal/history/sqlite.go`, `clear.go`): what the
queue holds against its budget, what became of the calls of `Enqueue`, and how many
rows there are. The writer with its cleanup, any number of calls of `Enqueue` and any
number of deletions take their steps in any order; every atomic operation on a
counter, every channel operation and every statement of the database is a step. -/
namespace NatsExplorer.History
open Go Admission

/-- An entry that was found within the budget. -/
structure Accepted extends Reservation Queued where
  budget : Int
  within : total ≤ budget

/-- Where a call of `Enqueue` is. -/
inductive Enqueue where
  | check (r : Reservation Queued)
  | send (a : Accepted)
  | refund (r : Reservation Queued)
  | drop

/-- What of the budget a call holds. -/
def Enqueue.held : Enqueue → Multiset (Reservation Queued)
  | .check r => {r}
  | .send a => {a.toReservation}
  | .refund r => {r}
  | .drop => 0

/-- Where the writer goes after a flush. -/
inductive Next where
  | select
  | drain
  | cleanup
  | gone
  deriving DecidableEq

/-- Where the writer is. `insert` is the transaction of a flush, `written` and `count`
its counters, `failed` the counter of one that went wrong and `release` the loop that
gives the budget back. Of the cleanup, `expired` and `trimmed` have deleted rows that
`count` does not know of yet. -/
inductive Writing where
  | select
  | drain
  | gone
  | insert (next : Next)
  | written (next : Next)
  | count (next : Next)
  | failed (next : Next)
  | release (next : Next)
  | cleanup
  | expired (n : Nat)
  | trim (round : Nat)
  | trimmed (n round : Nat)
  | trimmedCount (n round : Nat)
  deriving DecidableEq

def Next.writing : Next → Writing
  | .select => .select
  | .drain => .drain
  | .cleanup => .cleanup
  | .gone => .gone

structure RunningDB where
  file : File
  queueBudget : Int
  queueBytes : Int
  queue : List Accepted
  count : Int
  written : Nat
  dropped : Nat
  trimmed : Int
  /-- Entries leave the batch as their budget is given back. -/
  batch : List Accepted
  writing : Writing
  /-- The channel `stop` is closed. -/
  stopped : Bool
  calls : Multiset Enqueue
  /-- What the running calls of `DeleteConnection` and `DeleteSubject` have deleted and
  not yet taken from `count`. -/
  deletes : Multiset Nat
  /-- How many calls of `Enqueue` have returned, and how often one added to `queueBytes`. -/
  returned : Nat
  added : Nat

namespace RunningDB

/-- `OpenDB` -/
def opened (f : File) : RunningDB where
  file := f
  queueBudget := defaultQueueBytes
  queueBytes := 0
  queue := []
  count := f.rows.length
  written := 0
  dropped := 0
  trimmed := 0
  batch := []
  writing := .select
  stopped := false
  calls := 0
  deletes := 0
  returned := 0
  added := 0

def trimRounds : Nat := 20
def trimChunk : Nat := 5000

/-- What a `DELETE` on the messages takes away. -/
inductive Deletion where
  | connection (connID : Str)
  | subject (connID subject : Str) (branch : Bool)

section Step
variable [Tables] [Tokenizer]

omit [Tables] in
def Deletion.exec (f : File) : Deletion → File
  | .connection connID => f.deleteConnection connID
  | .subject connID subj branch => f.deleteSubject connID subj branch

omit [Tables] in
/-- `RowsAffected` -/
def affected (f f' : File) : Nat := f.rows.length - f'.rows.length

/-- The batch as the transaction sees it. -/
def batchRows (s : RunningDB) : List (Str × Record) := s.batch.map fun a => (a.item.conn, a.item.record)

inductive Step : RunningDB → RunningDB → Prop where
  | add {s} (q : Queued) : Step s { s with
      calls := .check ⟨q, s.added, s.queueBytes + q.size⟩ ::ₘ s.calls
      queueBytes := s.queueBytes + q.size
      added := s.added + 1 }
  | accept {s r rest} : s.calls = .check r ::ₘ rest → (within : r.total ≤ s.queueBudget) → Step s { s with
      calls := .send ⟨r, s.queueBudget, within⟩ ::ₘ rest }
  | refuse {s r rest} : s.calls = .check r ::ₘ rest → r.total > s.queueBudget → Step s { s with
      calls := .refund r ::ₘ rest }
  | send {s a rest} : s.calls = .send a ::ₘ rest → s.queue.length < dbQueue → Step s { s with
      calls := rest
      queue := s.queue ++ [a]
      returned := s.returned + 1 }
  | full {s a rest} : s.calls = .send a ::ₘ rest → ¬ s.queue.length < dbQueue → Step s { s with
      calls := .refund a.toReservation ::ₘ rest }
  | refund {s r rest} : s.calls = .refund r ::ₘ rest → Step s { s with
      calls := .drop ::ₘ rest
      queueBytes := s.queueBytes - r.item.size }
  | drop {s rest} : s.calls = .drop ::ₘ rest → Step s { s with
      calls := rest
      dropped := s.dropped + 1
      returned := s.returned + 1 }
  | setQueueBytes {s} (n : Int) : Step s { s with queueBudget := n }
  | close {s} : Step s { s with stopped := true }
  | take {s a rest} (next : Next) : s.writing = next.writing → next = .select ∨ next = .drain → s.queue = a :: rest →
      Step s { s with
        queue := rest
        batch := s.batch ++ [a]
        writing := if (s.batch ++ [a]).length = dbBatch then .insert next else next.writing }
  /-- A tick or a flush request, the minute's cleanup, and what is left at the end. -/
  | flush {s} : s.writing = .select → Step s { s with writing := .insert .select }
  | minute {s} : s.writing = .select → Step s { s with writing := .insert .cleanup }
  | stop {s} : s.writing = .select → s.stopped = true → Step s { s with writing := .drain }
  | leave {s} : s.writing = .drain → s.queue = [] → Step s { s with writing := .insert .gone }
  | nothing {s next} : s.writing = .insert next → s.batch = [] → Step s { s with writing := next.writing }
  | commit {s next} : s.writing = .insert next → s.batch ≠ [] → Step s { s with
      file := s.file.insert s.batchRows
      writing := .written next }
  | rollback {s next} : s.writing = .insert next → s.batch ≠ [] → Step s { s with writing := .failed next }
  | written {s next} : s.writing = .written next → Step s { s with
      written := s.written + s.batch.length
      writing := .count next }
  | count {s next} : s.writing = .count next → Step s { s with
      count := s.count + s.batch.length
      writing := .release next }
  | failed {s next} : s.writing = .failed next → Step s { s with
      dropped := s.dropped + s.batch.length
      writing := .release next }
  | release {s next a rest} : s.writing = .release next → s.batch = a :: rest → Step s { s with
      queueBytes := s.queueBytes - a.item.size
      batch := rest }
  | released {s next} : s.writing = .release next → s.batch = [] → Step s { s with writing := next.writing }
  | expire {s} (before : Int) : s.writing = .cleanup → Step s { s with
      file := s.file.expire before
      writing := .expired (affected s.file (s.file.expire before)) }
  /-- A retention of zero, or a statement that fails. -/
  | keep {s} : s.writing = .cleanup → Step s { s with writing := .trim 0 }
  | expired {s} {n : Nat} : s.writing = .expired n → Step s { s with
      count := s.count - n
      writing := .trim 0 }
  | trim {s round} (rows : Nat) : s.writing = .trim round → round < trimRounds → 0 < s.count → rows ≤ trimChunk →
      Step s { s with
        file := s.file.trim rows
        writing := if affected s.file (s.file.trim rows) = 0 then .select
          else .trimmed (affected s.file (s.file.trim rows)) round }
  /-- There is no cap, the database fits, a round found nothing, or it failed. -/
  | fits {s round} : s.writing = .trim round → Step s { s with writing := .select }
  | trimmed {s round} {n : Nat} : s.writing = .trimmed n round → Step s { s with
      count := s.count - n
      writing := .trimmedCount n round }
  | trimmedCount {s round} {n : Nat} : s.writing = .trimmedCount n round → Step s { s with
      trimmed := s.trimmed + n
      writing := .trim (round + 1) }
  | delete {s} (d : Deletion) : Step s { s with
      file := d.exec s.file
      deletes := affected s.file (d.exec s.file) ::ₘ s.deletes }
  | deleted {s rest} {n : Nat} : s.deletes = n ::ₘ rest → Step s { s with
      count := s.count - n
      deletes := rest }

end Step

/-- Everything that counts against the budget. -/
def held (s : RunningDB) : Multiset (Reservation Queued) :=
  (s.calls.map Enqueue.held).sum + (s.queue.map Accepted.toReservation : Multiset (Reservation Queued)) +
    (s.batch.map Accepted.toReservation : Multiset (Reservation Queued))

/-- What was accepted and is not yet written. -/
def accepted (s : RunningDB) : Multiset (Reservation Queued) :=
  (s.queue.map Accepted.toReservation : Multiset (Reservation Queued)) +
    (s.batch.map Accepted.toReservation : Multiset (Reservation Queued))

def counter (s : RunningDB) : Counter Queued := ⟨s.queueBytes, s.held, s.added⟩

/-- What of the batch the counters do not know of yet. -/
def uncounted (writing : Writing) (batch : List Accepted) : Nat :=
  match writing with
  | .count _ | .release _ => 0
  | _ => batch.length

/-- What is neither written nor dropped. -/
def pending (s : RunningDB) : Nat := s.queue.length + uncounted s.writing s.batch

/-- The rows the writer has inserted or deleted and `count` does not know of. -/
def unreported (writing : Writing) (batch : List Accepted) : Int :=
  match writing with
  | .written _ | .count _ => batch.length
  | .expired n | .trimmed n _ => -n
  | _ => 0

section Held
variable {s t : RunningDB} {c : Enqueue} {rest : Multiset Enqueue}

theorem size_nonneg (q : Queued) : 0 ≤ q.size := by
  unfold Queued.size
  omega

theorem held_calls (here : s.calls = c ::ₘ rest) :
    s.held = c.held + ((rest.map Enqueue.held).sum + s.accepted) := by
  unfold held accepted
  rw [here, Multiset.map_cons, Multiset.sum_cons]
  simp only [add_assoc]

theorem accepted_le (s : RunningDB) : s.accepted ≤ s.held := by
  unfold held
  rw [add_assoc]
  exact Multiset.le_add_left _ _

/-- What is held may change its place. -/
theorem change_of_held (value : t.queueBytes = s.queueBytes) (added : t.added = s.added) (same : t.held = s.held) :
    Change Queued.size s.counter t.counter := by
  have counter : t.counter = s.counter := by
    unfold RunningDB.counter
    rw [value, added, same]
  rw [counter]
  exact .keep _

/-- A call that goes on and holds the same. -/
theorem change_of_call {c' : Enqueue} (here : s.calls = c ::ₘ rest) (next : t.calls = c' ::ₘ rest) (same : c'.held = c.held)
    (value : t.queueBytes = s.queueBytes) (added : t.added = s.added) (accepted : t.accepted = s.accepted) :
    Change Queued.size s.counter t.counter := by
  refine change_of_held value added ?_
  rw [held_calls next, held_calls here, same, accepted]

variable [Tables] [Tokenizer]

/-- Every step leaves the budget alone, takes of it, or gives back what it took. -/
theorem Step.change (step : Step s t) : Change Queued.size s.counter t.counter := by
  cases step with
  | add q =>
    have taken : counter { s with
        calls := .check ⟨q, s.added, s.queueBytes + q.size⟩ ::ₘ s.calls
        queueBytes := s.queueBytes + q.size
        added := s.added + 1 } = {
          value := s.queueBytes + q.size
          held := ⟨q, s.added, s.queueBytes + q.size⟩ ::ₘ s.held
          clock := s.added + 1 } := by
      simp only [counter, held, Multiset.map_cons, Multiset.sum_cons, Enqueue.held, Multiset.singleton_add,
        Multiset.cons_add]
    rw [taken]
    exact .reserve s.counter q
  | accept here within => exact change_of_call here rfl rfl rfl rfl rfl
  | refuse here beyond => exact change_of_call here rfl rfl rfl rfl rfl
  | send here room =>
    refine change_of_held rfl rfl ?_
    rw [held_calls here]
    simp only [held, accepted, Enqueue.held, List.map_append, List.map_cons, List.map_nil, ← Multiset.coe_add,
      Multiset.coe_singleton]
    abel
  | full here room => exact change_of_call here rfl rfl rfl rfl rfl
  | @refund r rest here =>
    refine .release s.counter r _ ?_
    have whole : s.counter.held = {r} + ((rest.map Enqueue.held).sum + s.accepted) := held_calls here
    rw [whole, Multiset.singleton_add]
    refine congrArg (r ::ₘ ·) ?_
    simp only [held, accepted, Multiset.map_cons, Multiset.sum_cons, Enqueue.held, zero_add, add_assoc]
  | drop here =>
    refine change_of_held rfl rfl ?_
    rw [held_calls here]
    simp only [held, accepted, Enqueue.held, zero_add, add_assoc]
  | setQueueBytes n => exact .keep _
  | close => exact .keep _
  | take next here place first =>
    refine change_of_held rfl rfl ?_
    simp only [held, first, List.map_append, List.map_cons, List.map_nil, ← Multiset.coe_add, ← Multiset.cons_coe,
      ← Multiset.singleton_add]
    abel
  | flush here => exact .keep _
  | minute here => exact .keep _
  | stop here => exact .keep _
  | leave here none => exact .keep _
  | nothing here none => exact .keep _
  | commit here some => exact .keep _
  | rollback here some => exact .keep _
  | written here => exact .keep _
  | count here => exact .keep _
  | failed here => exact .keep _
  | @release next a rest here first =>
    refine .release _ a.toReservation _ ?_
    simp only [counter, held, first, List.map_cons, ← Multiset.cons_coe, ← Multiset.singleton_add]
    abel
  | released here none => exact .keep _
  | expire before here => exact .keep _
  | keep here => exact .keep _
  | expired here => exact .keep _
  | trim rows here round some few => exact .keep _
  | fits here => exact .keep _
  | trimmed here => exact .keep _
  | trimmedCount here => exact .keep _
  | delete d => exact .keep _
  | deleted here => exact .keep _

end Held

section Counters
variable {s t : RunningDB}

@[simp] theorem uncounted_next (next : Next) (batch : List Accepted) : uncounted next.writing batch = batch.length := by
  cases next <;> rfl

@[simp] theorem unreported_next (next : Next) (batch : List Accepted) : unreported next.writing batch = 0 := by
  cases next <;> rfl

variable [Tables] [Tokenizer]

/-- Every call that returned is counted once. -/
theorem Step.returned (returned : s.written + s.dropped + s.pending = s.returned) (step : Step s t) :
    t.written + t.dropped + t.pending = t.returned := by
  unfold pending at *
  cases step with
  | add q => exact returned
  | accept here within => exact returned
  | refuse here beyond => exact returned
  | send here room =>
    simp only [List.length_append, List.length_singleton]
    omega
  | full here room => exact returned
  | refund here => exact returned
  | drop here =>
    dsimp only
    omega
  | setQueueBytes n => exact returned
  | close => exact returned
  | @take a rest next here place first =>
    have moved : uncounted (if (s.batch ++ [a]).length = dbBatch then .insert next else next.writing) (s.batch ++ [a]) =
        s.batch.length + 1 := by
      have longer : (s.batch ++ [a]).length = s.batch.length + 1 := List.length_append
      rw [← longer]
      split_ifs
      · rfl
      · exact uncounted_next next _
    rw [here, uncounted_next, first, List.length_cons] at returned
    dsimp only
    rw [moved]
    omega
  | flush here | minute here | stop here | leave here none | commit here some | rollback here some | count here =>
    rw [here] at returned
    exact returned
  | nothing here none =>
    rw [here] at returned
    rw [uncounted_next]
    exact returned
  | written here =>
    simp only [here, uncounted] at returned ⊢
    omega
  | failed here =>
    simp only [here, uncounted] at returned ⊢
    omega
  | release here first =>
    simp only [here, uncounted] at returned ⊢
    exact returned
  | released here none =>
    rw [here] at returned
    rw [uncounted_next, none]
    exact returned
  | expire before here | keep here | expired here | fits here | trimmed here | trimmedCount here =>
    rw [here] at returned
    exact returned
  | trim rows here round some few =>
    rw [here] at returned
    dsimp only
    split_ifs <;> exact returned
  | delete d => exact returned
  | deleted here => exact returned

theorem insert_length (f : File) (batch : List (Str × Record)) :
    (f.insert batch).rows.length = f.rows.length + batch.length := by
  induction batch generalizing f with
  | nil => rfl
  | cons entry batch ih =>
    have one : (f.insertRow entry).rows.length = f.rows.length + 1 := List.length_append
    have rest := ih (f.insertRow entry)
    rw [one] at rest
    rw [List.length_cons, ← Nat.add_assoc, Nat.add_right_comm]
    exact rest

omit [Tables] in
/-- What a deletion reports is what is missing afterwards. -/
theorem affected_eq {f f' : File} {gone : Row → Bool} (deleted : f' = f.deleteWhere gone) :
    (affected f f' : Int) = f.rows.length - f'.rows.length := by
  have fewer : f'.rows.length ≤ f.rows.length := by
    rw [deleted]
    exact List.length_filter_le ..
  unfold affected
  omega

/-- The rows are counted, but for what the running statements have yet to report. -/
theorem Step.counted
    (counted : s.count + unreported s.writing s.batch - (s.deletes.map Nat.cast).sum = s.file.rows.length)
    (step : Step s t) :
    t.count + unreported t.writing t.batch - (t.deletes.map Nat.cast).sum = (t.file.rows.length : Int) := by
  cases step with
  | add q | accept here within | refuse here beyond | send here room | full here room | refund here | drop here
  | setQueueBytes n | close => exact counted
  | @take a rest next here place first =>
    rw [here, unreported_next] at counted
    dsimp only
    split_ifs
    · exact counted
    · rw [unreported_next]
      exact counted
  | flush here | minute here | stop here | leave here none | rollback here some | written here | failed here | keep here
  | fits here | trimmedCount here =>
    rw [here] at counted
    exact counted
  | nothing here none | released here none =>
    rw [here] at counted
    rw [unreported_next]
    exact counted
  | commit here some =>
    simp only [here, unreported] at counted ⊢
    rw [insert_length, batchRows, List.length_map]
    omega
  | count here =>
    simp only [here, unreported] at counted ⊢
    omega
  | release here first =>
    simp only [here, unreported] at counted ⊢
    exact counted
  | expire before here =>
    have reported := affected_eq (rfl : s.file.expire before = _)
    simp only [here, unreported, reported] at counted ⊢
    omega
  | expired here =>
    simp only [here, unreported] at counted ⊢
    omega
  | trim rows here round some few =>
    have reported := affected_eq (rfl : s.file.trim rows = _)
    rw [here] at counted
    dsimp only
    split_ifs with none
    · rw [none] at reported
      simp only [unreported] at counted ⊢
      omega
    · simp only [unreported, reported] at counted ⊢
      omega
  | trimmed here =>
    simp only [here, unreported] at counted ⊢
    omega
  | delete d =>
    have reported : (affected s.file (d.exec s.file) : Int) = s.file.rows.length - (d.exec s.file).rows.length := by
      cases d <;> exact affected_eq rfl
    dsimp only
    rw [Multiset.map_cons, Multiset.sum_cons, reported]
    omega
  | deleted here =>
    rw [here, Multiset.map_cons, Multiset.sum_cons] at counted
    dsimp only
    omega

end Counters

/-- No insert and no delete is in progress. -/
structure Quiet (s : RunningDB) : Prop where
  deletes : s.deletes = 0
  insert : ∀ next, s.writing ≠ .written next ∧ s.writing ≠ .count next
  delete : ∀ n round, s.writing ≠ .expired n ∧ s.writing ≠ .trimmed n round

theorem Quiet.unreported {s : RunningDB} (quiet : s.Quiet) : unreported s.writing s.batch = 0 := by
  unfold RunningDB.unreported
  split
  · rename_i next here
    exact absurd here (quiet.insert next).1
  · rename_i next here
    exact absurd here (quiet.insert next).2
  · rename_i n here
    exact absurd here (quiet.delete n 0).1
  · rename_i n round here
    exact absurd here (quiet.delete n round).2
  · rfl

structure Accounted (s : RunningDB) : Prop where
  queueBytes : s.queueBytes = load Queued.size s.held
  nonneg : 0 ≤ s.queueBytes
  /-- Up to each of them, what was accepted and is not yet written fits the budget that was
  in force when that one was accepted. -/
  budget : ∀ a ∈ s.queue ++ s.batch, load Queued.size (upTo s.accepted a.stamp) ≤ a.budget
  returned : s.written + s.dropped + s.pending = s.returned
  count : s.Quiet → s.count = s.file.rows.length

/-- What the invariant of the counters says of the queue. -/
theorem accounted_of {s : RunningDB} (sound : Sound Queued.size s.counter)
    (returned : s.written + s.dropped + s.pending = s.returned)
    (counted : s.count + unreported s.writing s.batch - (s.deletes.map Nat.cast).sum = s.file.rows.length) :
    s.Accounted where
  queueBytes := sound.value
  nonneg := sound.nonneg size_nonneg
  budget a member := by
    have waiting : a.toReservation ∈ s.accepted := by
      rw [accepted, Multiset.coe_add, ← List.map_append, Multiset.mem_coe]
      exact List.mem_map_of_mem member
    exact (sound.part_le size_nonneg s.accepted_le waiting).trans a.within
  returned := returned
  count quiet := by
    rw [quiet.unreported, quiet.deletes, Multiset.map_zero, Multiset.sum_zero] at counted
    omega

/-- Whatever the calls of `Enqueue`, the writer and the deletions do in whatever order. -/
theorem always_accounted [Tables] [Tokenizer] {f : File} {s : RunningDB} (run : Relation.ReflTransGen Step (opened f) s) : s.Accounted := by
  have kept : Sound Queued.size s.counter ∧ s.written + s.dropped + s.pending = s.returned ∧
      s.count + unreported s.writing s.batch - (s.deletes.map Nat.cast).sum = s.file.rows.length := by
    induction run with
    | refl =>
      refine ⟨⟨rfl, nofun, nofun⟩, rfl, ?_⟩
      simp [opened, unreported]
    | tail _ step ih =>
      obtain ⟨sound, returned, counted⟩ := ih
      exact ⟨step.change.sound size_nonneg sound, step.returned returned, step.counted counted⟩
  exact accounted_of kept.1 kept.2.1 kept.2.2

/-- One message, written and deleted again. -/
theorem accounted_deleted :
    let _ := asciiTables
    let _ : Tokenizer := ⟨fun s => [s]⟩
    ∃ s : RunningDB, s.written = 1 ∧ s.file.rows = [] ∧ s.Quiet ∧ s.Accounted := by
  let _ := asciiTables
  let _ : Tokenizer := ⟨fun s => [s]⟩
  have run : Relation.ReflTransGen Step (opened .fresh) _ := .refl
  have run := run.tail (.add Pipeline.sample)
  have run := run.tail (@Step.accept _ _ _ _ 0 rfl (by decide))
  have run := run.tail (@Step.send _ _ _ _ 0 rfl (by decide))
  have run := run.tail (.take .select rfl (Or.inl rfl) rfl)
  have run := run.tail (.flush rfl)
  have run := run.tail (.commit rfl (List.cons_ne_nil _ _))
  have run := run.tail (.written rfl)
  have run := run.tail (.count rfl)
  have run := run.tail (.release rfl rfl)
  have run := run.tail (.released rfl rfl)
  have run := run.tail (.delete (.connection []))
  have run := run.tail (@Step.deleted _ _ _ 0 _ rfl)
  refine ⟨_, rfl, rfl, ⟨rfl, fun next => ?_, fun n round => ?_⟩, always_accounted run⟩
  · exact ⟨Writing.noConfusion, Writing.noConfusion⟩
  · exact ⟨Writing.noConfusion, Writing.noConfusion⟩

end RunningDB
end NatsExplorer.History
