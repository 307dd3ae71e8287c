import NatsExplorer.History.Like
import NatsExplorer.History.Writer
import Mathlib.Data.Set.Insert

/-! Clearing what is recorded while it is recorded (`internal/history/clear.go`): a clear
takes messages out of memory and then out of the file, and the messages on their way into
the file are in neither. -/
namespace NatsExplorer.History
open Go

/-- A connection, or a subject of one and, with the flag, everything below it. No id means
every connection. -/
inductive Clearing where
  | recorded (connID : Str)
  | matching (connID subject : Str) (branch : Bool)

namespace Clearing

def covers : Clearing → Queued → Bool
  | .recorded connID, q => connID = [] || q.conn = connID
  | .matching connID subject branch, q => q.conn = connID &&
      (q.record.subject = subject || (branch && strings.hasPrefix q.record.subject (subject ++ ['.'])))

/-- What the `DELETE` takes. -/
def deletes : Clearing → Queued → Bool
  | .recorded connID, q => connID = [] || q.conn = connID
  | .matching connID subject branch, q => q.conn = connID &&
      (q.record.subject = subject || (branch && like (likePrefix subject ++ ['.', '%']) q.record.subject))

/-- Without a subject the handler clears connections. -/
def Named : Clearing → Prop
  | .recorded _ => True
  | .matching _ subject _ => subject ≠ []

/-- How the two `DELETE` of a clear end. -/
inductive Outcome where
  | done
  | noRollups
  | failed
  deriving DecidableEq

/-- `DropRecorded` returns the error, `DropMatching` has none to return. -/
def returns : Clearing → Outcome → Bool
  | .recorded _, .done => true
  | .recorded _, _ => false
  | .matching .., _ => true

theorem covers_deletes {c : Clearing} {q : Queued} (covered : c.covers q = true) : c.deletes q = true := by
  cases c with
  | recorded connID => exact covered
  | matching connID subject branch =>
    unfold covers at covered
    unfold deletes
    rw [Bool.and_eq_true, Bool.or_eq_true, Bool.and_eq_true] at covered ⊢
    refine ⟨covered.1, covered.2.imp_right fun below => ⟨below.1, ?_⟩⟩
    exact like_of_below (of_decide_eq_true below.2)

end Clearing

/-- The number tells records apart that are alike. -/
structure Numbered where
  nr : ℕ
  entry : Queued

namespace Tee

/-- Where a call of `Append` is, after the record went into memory. A database that has
been loaded is known by the number of its opening. -/
inductive Stage where
  | load
  | filter (opening : ℕ)
  | enqueue (opening : ℕ)

structure Call where
  message : Numbered
  stage : Stage

inductive ClearStage where
  | memory
  | load
  | delete (opening : ℕ)

/-- `before` are the messages whose `Append` had returned when the clear was called. -/
structure Clear where
  clearing : Clearing
  before : Set ℕ
  stage : ClearStage

end Tee

/-- The tee, its database and the calls under way. `cleared` are the clears that have
returned without an error, each with what came before it. -/
structure Tee where
  memory : List Numbered
  attached : Bool
  opening : ℕ
  persist : Option Filter.Program
  queueBudget : Int
  queueBytes : Int
  queue : List Numbered
  stopped : Bool
  place : Place
  batch : List Numbered
  rows : List Numbered
  calls : Multiset Tee.Call
  clears : Multiset Tee.Clear
  cleared : List (Clearing × Set ℕ)
  next : ℕ

namespace Tee

/-- A tee that has just got its database, with what the file has. -/
def opened (persist : Option Filter.Program) (file : List Queued) : Tee where
  memory := []
  attached := true
  opening := 0
  persist := persist
  queueBudget := defaultQueueBytes
  queueBytes := 0
  queue := []
  stopped := false
  place := .select
  batch := []
  rows := file.mapIdx Numbered.mk
  calls := 0
  clears := 0
  cleared := []
  next := file.length

def accepts (s : Tee) (m : Numbered) : Bool :=
  match s.persist with
  | none => true
  | some p => p.onRecord m.entry.record

/-- A full queue drops the record, and nobody reads the queue of a database that is closed. -/
def enqueue (s : Tee) (opening : ℕ) (m : Numbered) : Tee :=
  if opening ≠ s.opening ∨ s.queueBudget < s.queueBytes + m.entry.size ∨ dbQueue ≤ s.queue.length then s
  else { s with queue := s.queue ++ [m], queueBytes := s.queueBytes + m.entry.size }

def flush (s : Tee) (committed : Bool) : Tee :=
  { s with
    rows := if committed then s.rows ++ s.batch else s.rows
    batch := []
    queueBytes := s.queueBytes - (s.batch.map fun m => m.entry.size).sum }

/-- The messages whose `Append` has returned. -/
def returned (s : Tee) : Set ℕ := {n | n < s.next ∧ ∀ c ∈ s.calls, c.message.nr ≠ n}

inductive Act where
  | append (q : Queued)
  | load (m : Numbered)
  | filter (m : Numbered)
  | enqueue (m : Numbered)
  | setPersistFilter (p : Option Filter.Program)
  | setQueueBytes (n : Int)
  | setDB
  | close
  | take
  | flush (committed : Bool)
  | stop
  | leave (committed : Bool)
  | evict (keep : Numbered → Bool)
  | cleanup (keep : Numbered → Bool)
  | openDB
  | clear (c : Clearing)
  | clearMemory (c : Clearing) (before : Set ℕ)
  | loadDB (c : Clearing) (before : Set ℕ)
  | delete (c : Clearing) (before : Set ℕ) (outcome : Clearing.Outcome)

inductive Step : Tee → Act → Tee → Prop where
  | append {s q} : Step s (.append q) { s with
      memory := s.memory ++ [⟨s.next, q⟩]
      calls := ⟨⟨s.next, q⟩, .load⟩ ::ₘ s.calls
      next := s.next + 1 }
  | load {s m rest} : s.calls = ⟨m, .load⟩ ::ₘ rest → Step s (.load m) { s with
      calls := if s.attached then ⟨m, .filter s.opening⟩ ::ₘ rest else rest }
  | filter {s m opening rest} : s.calls = ⟨m, .filter opening⟩ ::ₘ rest → Step s (.filter m) { s with
      calls := if s.accepts m then ⟨m, .enqueue opening⟩ ::ₘ rest else rest }
  | enqueue {s m opening rest} : s.calls = ⟨m, .enqueue opening⟩ ::ₘ rest →
      Step s (.enqueue m) ({ s with calls := rest }.enqueue opening m)
  | setPersistFilter {s p} : Step s (.setPersistFilter p) { s with persist := p }
  | setQueueBytes {s n} : Step s (.setQueueBytes n) { s with queueBudget := n }
  | setDB {s} : Step s .setDB { s with attached := false }
  | close {s} : s.attached = false → s.stopped = false → Step s .close { s with stopped := true }
  | take {s m rest} : s.place ≠ .gone → s.batch.length < dbBatch → s.queue = m :: rest →
      Step s .take { s with queue := rest, batch := s.batch ++ [m] }
  /-- A tick, a flush request, the minute's cleanup or a full batch. -/
  | flush {s committed} : s.place = .select ∨ s.place = .drain ∧ s.batch.length = dbBatch →
      Step s (.flush committed) (s.flush committed)
  | stop {s} : s.place = .select → s.stopped = true → Step s .stop { s with place := .drain }
  | leave {s committed} : s.place = .drain → s.queue = [] →
      Step s (.leave committed) { s.flush committed with place := .gone }
  /-- Memory lets messages go for others. -/
  | evict {s keep} : Step s (.evict keep) { s with memory := s.memory.filter keep }
  /-- By age, or for size. -/
  | cleanup {s keep} : Step s (.cleanup keep) { s with rows := s.rows.filter keep }
  | openDB {s} : s.attached = false → s.place = .gone → Step s .openDB { s with
      attached := true
      opening := s.opening + 1
      queueBytes := 0
      queue := []
      stopped := false
      place := .select
      batch := [] }
  | clear {s c} : c.Named → Step s (.clear c) { s with clears := ⟨c, s.returned, .memory⟩ ::ₘ s.clears }
  | clearMemory {s c before rest} : s.clears = ⟨c, before, .memory⟩ ::ₘ rest → Step s (.clearMemory c before) { s with
      memory := s.memory.filter fun m => !c.covers m.entry
      clears := ⟨c, before, .load⟩ ::ₘ rest }
  | loadDB {s c before rest} : s.clears = ⟨c, before, .load⟩ ::ₘ rest → s.attached = true →
      Step s (.loadDB c before) { s with clears := ⟨c, before, .delete s.opening⟩ ::ₘ rest }
  | noDB {s c before rest} : s.clears = ⟨c, before, .load⟩ ::ₘ rest → s.attached = false →
      Step s (.loadDB c before) { s with clears := rest, cleared := (c, before) :: s.cleared }
  | delete {s c before rest outcome} : s.clears = ⟨c, before, .delete s.opening⟩ ::ₘ rest → outcome ≠ .failed →
      Step s (.delete c before outcome) { s with
        rows := s.rows.filter fun m => !c.deletes m.entry
        clears := rest
        cleared := if c.returns outcome then (c, before) :: s.cleared else s.cleared }
  /-- The database is busy, or closed by now. -/
  | failed {s c before opening rest} : s.clears = ⟨c, before, .delete opening⟩ ::ₘ rest →
      Step s (.delete c before .failed) { s with
        clears := rest
        cleared := if c.returns .failed then (c, before) :: s.cleared else s.cleared }

/-- No query finds what was cleared. -/
def Forgotten (s : Tee) : Prop :=
  ∀ p ∈ s.cleared, ∀ m, m ∈ s.memory ∨ m ∈ s.rows → p.1.covers m.entry = true → m.nr ∉ p.2

/-- On the way into the file, or in it. -/
def Stored (s : Tee) (m : Numbered) : Prop := m ∈ s.queue ∨ m ∈ s.batch ∨ m ∈ s.rows

/-- A clear that returns finds nothing of what it is about on the way into the file, and, if
it cannot delete, nothing in the file. -/
def Drained (s : Tee) : Act → Prop
  | .loadDB c before => s.attached = false → ∀ m, s.Stored m → c.covers m.entry = true → m.nr ∉ before
  | .delete c before .failed =>
      c.returns .failed = true → ∀ m, s.Stored m → c.covers m.entry = true → m.nr ∉ before
  | .delete c before outcome => c.returns outcome = true →
      ∀ m, m ∈ s.queue ∨ m ∈ s.batch → c.covers m.entry = true → m.nr ∉ before
  | _ => True

variable {s t : Tee} {act : Act} {acts : List Act} {c : Clearing} {before : Set ℕ}

/-- What a step does to the messages: they stay, go, or go on, and a new one is new. -/
structure Moves (s t : Tee) : Prop where
  next : s.next ≤ t.next
  calls : ∀ c ∈ t.calls, s.next ≤ c.message.nr ∨ ∃ c' ∈ s.calls, c'.message = c.message
  memory : ∀ m ∈ t.memory, s.next ≤ m.nr ∨ m ∈ s.memory
  stored : ∀ m, t.Stored m → s.Stored m ∨ ∃ c ∈ s.calls, c.message = m

/-- They only go, or nothing happens to them. -/
theorem Moves.fewer (next : t.next = s.next) (calls : t.calls ⊆ s.calls) (memory : t.memory ⊆ s.memory)
    (stored : ∀ m, t.Stored m → s.Stored m) : Moves s t where
  next := next.ge
  calls c member := Or.inr ⟨c, calls member, rfl⟩
  memory _ member := Or.inr (memory member)
  stored m there := Or.inl (stored m there)

/-- A call goes on, or returns. -/
theorem Moves.further {m : Numbered} {stage : Stage} {rest calls : Multiset Call}
    (here : s.calls = ⟨m, stage⟩ ::ₘ rest) (goes : ∀ c ∈ calls, c.message = m ∨ c ∈ rest) :
    Moves s { s with calls := calls } where
  next := le_rfl
  calls c member := by
    rw [here]
    rcases goes c member with same | member
    · exact Or.inr ⟨_, Multiset.mem_cons_self .., same.symm⟩
    · exact Or.inr ⟨c, Multiset.mem_cons_of_mem member, rfl⟩
  memory _ member := Or.inr member
  stored _ there := Or.inl there

theorem mem_going {m : Numbered} {stage : Stage} {rest : Multiset Call} {goes : Prop} [Decidable goes] {c : Call}
    (member : c ∈ if goes then ⟨m, stage⟩ ::ₘ rest else rest) : c.message = m ∨ c ∈ rest := by
  split at member
  · exact (Multiset.mem_cons.mp member).imp_left fun same => congrArg Call.message same
  · exact Or.inr member

theorem flush_stored {committed : Bool} {m : Numbered} (there : (s.flush committed).Stored m) : s.Stored m := by
  rcases there with queued | none | row
  · exact Or.inl queued
  · cases none
  · unfold flush at row
    dsimp only at row
    split at row
    · exact Or.inr ((List.mem_append.mp row).symm)
    · exact Or.inr (Or.inr row)

theorem step_moves (step : Step s act t) : Moves s t := by
  cases step with
  | append =>
    refine ⟨Nat.le_succ _, fun c member => ?_, fun m member => ?_, fun m there => Or.inl there⟩
    · rcases Multiset.mem_cons.mp member with rfl | member
      · exact Or.inl le_rfl
      · exact Or.inr ⟨c, member, rfl⟩
    · rcases List.mem_append.mp member with member | new
      · exact Or.inr member
      · rw [List.mem_singleton.mp new]
        exact Or.inl le_rfl
  | load here => exact .further here fun c member => mem_going member
  | filter here => exact .further here fun c member => mem_going member
  | @enqueue m opening rest here =>
    have calls : ∀ c ∈ rest, c ∈ s.calls := fun c member => here ▸ Multiset.mem_cons_of_mem member
    have own : (⟨m, .enqueue opening⟩ : Call) ∈ s.calls := here ▸ Multiset.mem_cons_self ..
    unfold enqueue
    split
    · exact .fewer rfl calls (fun _ => id) fun _ => id
    · refine ⟨le_rfl, fun c member => Or.inr ⟨c, calls c member, rfl⟩, fun m member => Or.inr member, fun m' there => ?_⟩
      rcases there with queued | stored
      · rcases List.mem_append.mp queued with queued | new
        · exact Or.inl (Or.inl queued)
        · exact Or.inr ⟨_, own, (List.mem_singleton.mp new).symm⟩
      · exact Or.inl (Or.inr stored)
  | setPersistFilter => exact .fewer rfl (fun _ => id) (fun _ => id) fun _ => id
  | setQueueBytes => exact .fewer rfl (fun _ => id) (fun _ => id) fun _ => id
  | setDB => exact .fewer rfl (fun _ => id) (fun _ => id) fun _ => id
  | close => exact .fewer rfl (fun _ => id) (fun _ => id) fun _ => id
  | take within room first =>
    refine .fewer rfl (fun _ => id) (fun _ => id) fun m there => ?_
    rcases there with queued | batched | row
    · exact Or.inl (first ▸ List.mem_cons_of_mem _ queued)
    · rcases List.mem_append.mp batched with batched | taken
      · exact Or.inr (Or.inl batched)
      · exact Or.inl (first ▸ List.mem_singleton.mp taken ▸ List.mem_cons_self)
    · exact Or.inr (Or.inr row)
  | flush => exact .fewer rfl (fun _ => id) (fun _ => id) fun _ => flush_stored
  | stop => exact .fewer rfl (fun _ => id) (fun _ => id) fun _ => id
  | @leave committed here none =>
    refine .fewer rfl (fun _ => id) (fun _ => id) fun m there => ?_
    exact @flush_stored _ committed _ there
  | evict => exact .fewer rfl (fun _ => id) (fun _ member => List.mem_of_mem_filter member) fun _ => id
  | cleanup =>
    refine .fewer rfl (fun _ => id) (fun _ => id) fun m there => ?_
    exact there.imp_right fun stored => stored.imp_right List.mem_of_mem_filter
  | openDB =>
    refine .fewer rfl (fun _ => id) (fun _ => id) fun m there => ?_
    rcases there with none | none | row
    · cases none
    · cases none
    · exact Or.inr (Or.inr row)
  | clear => exact .fewer rfl (fun _ => id) (fun _ => id) fun _ => id
  | clearMemory => exact .fewer rfl (fun _ => id) (fun _ member => List.mem_of_mem_filter member) fun _ => id
  | loadDB => exact .fewer rfl (fun _ => id) (fun _ => id) fun _ => id
  | noDB => exact .fewer rfl (fun _ => id) (fun _ => id) fun _ => id
  | delete =>
    refine .fewer rfl (fun _ => id) (fun _ => id) fun m there => ?_
    exact there.imp_right fun stored => stored.imp_right List.mem_of_mem_filter
  | failed => exact .fewer rfl (fun _ => id) (fun _ => id) fun _ => id

/-- The call of a clear comes after these. -/
def Behind (s : Tee) (before : Set ℕ) : Prop := ∀ n ∈ before, n < s.next ∧ ∀ c ∈ s.calls, c.message.nr ≠ n

theorem Behind.moves (behind : s.Behind before) (moves : Moves s t) : t.Behind before := by
  intro n member
  obtain ⟨early, returned⟩ := behind n member
  refine ⟨early.trans_le moves.next, fun c there same => ?_⟩
  rcases moves.calls c there with new | ⟨c', calling, message⟩
  · exact absurd (same ▸ new) (not_le.mpr early)
  · exact returned c' calling (message ▸ same)

/-- Memory has nothing left of what a clear is about. -/
def Unremembered (s : Tee) (c : Clearing) (before : Set ℕ) : Prop :=
  ∀ m ∈ s.memory, c.covers m.entry = true → m.nr ∉ before

def Unstored (s : Tee) (c : Clearing) (before : Set ℕ) : Prop :=
  ∀ m, s.Stored m → c.covers m.entry = true → m.nr ∉ before

theorem Unremembered.moves (gone : s.Unremembered c before) (behind : s.Behind before) (moves : Moves s t) :
    t.Unremembered c before := by
  intro m member covered old
  rcases moves.memory m member with new | member
  · exact absurd new (not_le.mpr (behind m.nr old).1)
  · exact gone m member covered old

theorem Unstored.moves (gone : s.Unstored c before) (behind : s.Behind before) (moves : Moves s t) :
    t.Unstored c before := by
  intro m there covered old
  rcases moves.stored m there with there | ⟨call, calling, rfl⟩
  · exact gone m there covered old
  · exact (behind call.message.nr old).2 call calling rfl

structure Inv (s : Tee) : Prop where
  clears : ∀ k ∈ s.clears, s.Behind k.before ∧ (k.stage ≠ .memory → s.Unremembered k.clearing k.before)
  cleared : ∀ p ∈ s.cleared, s.Behind p.2 ∧ s.Unremembered p.1 p.2 ∧ s.Unstored p.1 p.2

/-- The clears stay as they are. -/
theorem Inv.moves (inv : Inv s) (moves : Moves s t) (clears : t.clears = s.clears) (cleared : t.cleared = s.cleared) :
    Inv t where
  clears k member := by
    rw [clears] at member
    obtain ⟨behind, gone⟩ := inv.clears k member
    exact ⟨behind.moves moves, fun later => (gone later).moves behind moves⟩
  cleared p member := by
    rw [cleared] at member
    obtain ⟨behind, memory, stored⟩ := inv.cleared p member
    exact ⟨behind.moves moves, memory.moves behind moves, stored.moves behind moves⟩

/-- A clear goes on, with memory rid of what it is about. -/
theorem Inv.further {k : Clear} {rest : Multiset Clear} {stage : ClearStage} (inv : Inv s) (moves : Moves s t)
    (here : s.clears = k ::ₘ rest) (clears : t.clears = ⟨k.clearing, k.before, stage⟩ ::ₘ rest)
    (cleared : t.cleared = s.cleared) (gone : t.Unremembered k.clearing k.before) : Inv t where
  clears k' member := by
    rw [clears] at member
    rcases Multiset.mem_cons.mp member with rfl | member
    · have behind := (inv.clears k (here ▸ Multiset.mem_cons_self ..)).1
      exact ⟨behind.moves moves, fun _ => gone⟩
    · obtain ⟨behind, gone⟩ := inv.clears k' (here ▸ Multiset.mem_cons_of_mem member)
      exact ⟨behind.moves moves, fun later => (gone later).moves behind moves⟩
  cleared p member := by
    rw [cleared] at member
    obtain ⟨behind, memory, stored⟩ := inv.cleared p member
    exact ⟨behind.moves moves, memory.moves behind moves, stored.moves behind moves⟩

/-- A clear returns. -/
theorem Inv.finish {k : Clear} {rest : Multiset Clear} (inv : Inv s) (moves : Moves s t) (here : s.clears = k ::ₘ rest)
    (later : k.stage ≠ .memory) (clears : t.clears = rest)
    (cleared : t.cleared = s.cleared ∨ t.cleared = (k.clearing, k.before) :: s.cleared ∧ t.Unstored k.clearing k.before) :
    Inv t where
  clears k' member := by
    rw [clears] at member
    obtain ⟨behind, gone⟩ := inv.clears k' (here ▸ Multiset.mem_cons_of_mem member)
    exact ⟨behind.moves moves, fun later => (gone later).moves behind moves⟩
  cleared p member := by
    have old : ∀ p ∈ s.cleared, t.Behind p.2 ∧ t.Unremembered p.1 p.2 ∧ t.Unstored p.1 p.2 := by
      intro p member
      obtain ⟨behind, memory, stored⟩ := inv.cleared p member
      exact ⟨behind.moves moves, memory.moves behind moves, stored.moves behind moves⟩
    rcases cleared with same | ⟨same, unstored⟩
    · exact old p (same ▸ member)
    · rw [same] at member
      rcases List.mem_cons.mp member with rfl | member
      · obtain ⟨behind, gone⟩ := inv.clears k (here ▸ Multiset.mem_cons_self ..)
        exact ⟨behind.moves moves, (gone later).moves behind moves, unstored⟩
      · exact old p member

theorem step_inv (inv : Inv s) (step : Step s act t) (drained : s.Drained act) : Inv t := by
  have moves := step_moves step
  cases step with
  | append => exact inv.moves moves rfl rfl
  | load => exact inv.moves moves rfl rfl
  | filter => exact inv.moves moves rfl rfl
  | enqueue =>
    refine inv.moves moves ?_ ?_
    · unfold enqueue
      split <;> rfl
    · unfold enqueue
      split <;> rfl
  | setPersistFilter => exact inv.moves moves rfl rfl
  | setQueueBytes => exact inv.moves moves rfl rfl
  | setDB => exact inv.moves moves rfl rfl
  | close => exact inv.moves moves rfl rfl
  | take => exact inv.moves moves rfl rfl
  | flush => exact inv.moves moves rfl rfl
  | stop => exact inv.moves moves rfl rfl
  | leave => exact inv.moves moves rfl rfl
  | evict => exact inv.moves moves rfl rfl
  | cleanup => exact inv.moves moves rfl rfl
  | openDB => exact inv.moves moves rfl rfl
  | @clear c named =>
    refine ⟨fun k member => ?_, inv.cleared⟩
    rcases Multiset.mem_cons.mp member with rfl | member
    · exact ⟨fun n returned => returned, fun later => absurd rfl later⟩
    · exact inv.clears k member
  | @clearMemory c before rest here =>
    refine inv.further moves here rfl rfl fun m member covered => ?_
    have kept := (List.mem_filter.mp member).2
    rw [covered] at kept
    cases kept
  | @loadDB c before rest here attached =>
    have gone := (inv.clears _ (here ▸ Multiset.mem_cons_self ..)).2 (by simp)
    exact inv.further moves here rfl rfl gone
  | noDB here detached => exact inv.finish moves here (by simp) rfl (Or.inr ⟨rfl, drained detached⟩)
  | @delete c before rest outcome here deleted =>
    refine inv.finish moves here (by simp) rfl ?_
    dsimp only
    split
    · rename_i returns
      refine Or.inr ⟨rfl, fun m there covered => ?_⟩
      have waiting : ∀ m, m ∈ s.queue ∨ m ∈ s.batch → c.covers m.entry = true → m.nr ∉ before := by
        cases outcome with
        | failed => exact absurd rfl deleted
        | done => exact drained returns
        | noRollups => exact drained returns
      rcases there with queued | batched | row
      · exact waiting m (Or.inl queued) covered
      · exact waiting m (Or.inr batched) covered
      · have kept := (List.mem_filter.mp row).2
        rw [Clearing.covers_deletes covered] at kept
        cases kept
    · exact Or.inl rfl
  | @failed c before opening rest here =>
    refine inv.finish moves here (by simp) rfl ?_
    dsimp only
    split
    · rename_i returns
      exact Or.inr ⟨rfl, drained returns⟩
    · exact Or.inl rfl

/-- Where every clear that returns finds what it is about neither on the way into the file
nor, if it deletes nothing there, in the file, it does not come back. -/
theorem stays_cleared {persist : Option Filter.Program} {file : List Queued}
    (run : Transition.Reaches (fun s act t => Step s act t ∧ s.Drained act) (opened persist file) acts s) :
    s.Forgotten := by
  have inv : Inv s := by
    refine run.invariant (P := Inv) (fun inv ⟨step, drained⟩ => step_inv inv step drained) ?_
    exact ⟨fun k none => absurd none (Multiset.notMem_zero k), nofun⟩
  intro p member m there covered
  obtain ⟨-, memory, stored⟩ := inv.cleared p member
  rcases there with remembered | row
  · exact memory m remembered covered
  · exact stored m (Or.inr (Or.inr row)) covered

theorem sent {m : Numbered} {rest : Multiset Call} (here : s.calls = ⟨m, .enqueue s.opening⟩ ::ₘ rest)
    (budget : s.queueBytes + m.entry.size ≤ s.queueBudget) (room : s.queue.length < dbQueue) :
    Step s (.enqueue m) { s with
      calls := rest
      queue := s.queue ++ [m]
      queueBytes := s.queueBytes + m.entry.size } := by
  have sends : { s with calls := rest }.enqueue s.opening m = { s with
      calls := rest
      queue := s.queue ++ [m]
      queueBytes := s.queueBytes + m.entry.size } := by
    refine if_neg ?_
    rintro (other | over_ | full)
    · exact other rfl
    · exact absurd over_ (not_lt.mpr budget)
    · exact absurd full (not_le.mpr room)
  exact sends ▸ Step.enqueue here

/-- One message, written and cleared. -/
theorem cleared_one : ∃ s : Tee, s.cleared ≠ [] ∧ s.next = 1 ∧ s.Forgotten := by
  let m : Numbered := ⟨0, Pipeline.sample⟩
  let all : Clearing := .recorded []
  have run : Transition.Reaches (fun s act t => Step s act t ∧ s.Drained act) (opened none []) _ _ :=
    .refl (opened none [])
  have run := run.next ⟨.append (q := Pipeline.sample), trivial⟩
  have run := run.next ⟨@Step.load _ m 0 rfl, trivial⟩
  have run := run.next ⟨@Step.filter _ m 0 0 rfl, trivial⟩
  have run := run.next ⟨@sent _ m 0 rfl (by decide) (by decide), trivial⟩
  have run := run.next ⟨@Step.take _ m [] (by decide) (by decide) rfl, trivial⟩
  have run := run.next ⟨@Step.flush _ true (Or.inl rfl), trivial⟩
  have run := run.next ⟨@Step.clear _ all trivial, trivial⟩
  have run := run.next ⟨@Step.clearMemory _ all _ 0 rfl, trivial⟩
  have run := run.next ⟨@Step.loadDB _ all _ 0 rfl rfl, fun detached => nomatch detached⟩
  have run := run.next ⟨@Step.delete _ all _ 0 .done rfl (by decide), fun _ m waiting => by
    rcases waiting with none | none <;> cases none⟩
  exact ⟨_, List.cons_ne_nil _ _, rfl, stays_cleared run⟩

/-- A message in the writer's batch is written after the clear. -/
theorem comes_back : ∃ acts s, Transition.Reaches Step (opened none []) acts s ∧ ¬ s.Forgotten := by
  let m : Numbered := ⟨0, Pipeline.sample⟩
  let all : Clearing := .recorded []
  have run : Transition.Reaches Step (opened none []) _ _ := .refl (opened none [])
  have run := run.next (.append (q := Pipeline.sample))
  have run := run.next (@Step.load _ m 0 rfl)
  have run := run.next (@Step.filter _ m 0 0 rfl)
  have run := run.next (@sent _ m 0 rfl (by decide) (by decide))
  have run := run.next (@Step.take _ m [] (by decide) (by decide) rfl)
  have run := run.next (@Step.clear _ all trivial)
  have run := run.next (@Step.clearMemory _ all _ 0 rfl)
  have run := run.next (@Step.loadDB _ all _ 0 rfl rfl)
  have run := run.next (@Step.delete _ all _ 0 .done rfl (by decide))
  have run := run.next (@Step.flush _ true (Or.inl rfl))
  refine ⟨_, _, run, fun forgotten => ?_⟩
  refine forgotten _ List.mem_cons_self m (Or.inr List.mem_cons_self) rfl ?_
  exact ⟨Nat.zero_lt_one, fun c none => absurd none (Multiset.notMem_zero c)⟩

end Tee
end NatsExplorer.History
