import Mathlib.Algebra.Order.Interval.Finset.SuccPred
import Mathlib.Data.Fintype.Basic
import Mathlib.Data.Nat.SuccPred
import Mathlib.Data.Rat.Floor
import Mathlib.Order.Interval.Finset.Nat
import Mathlib.Tactic.Abel
import NatsExplorer.Handler.RunSpec
import NatsExplorer.Handler.StreamPages
import NatsExplorer.Library.Holders
import NatsExplorer.Library.Transition

/-! A run of sends (`Execute` in `internal/handler/run.go`): the feeder hands out the numbers, the workers send, and the
deadline may pass at any moment. How a send ends is up to the connection. How long the run took is left out, and that
a text whose placeholders cannot be filled in ends the process. -/
namespace NatsExplorer.Handler.Execute
open Go Transition Holders

def runSampleReplies : ℕ := 5
def runSampleErrors : ℕ := 5
def verdictReasons : ℕ := 5

/-- A reply as it comes in. -/
structure Reply where
  subject : Str
  data : Data
  header : Header
  reply : Str

/-- How a send ended: `elapsed` is in milliseconds. -/
inductive Outcome where
  | failed (deadlineExceeded : Bool) (text : Str)
  | published
  | replied (reply : Reply) (elapsed : ℚ) (now : Int)

/-- `PublishMsg` gives no reply, and a request without an error gives one. -/
def Outcome.Possible (mode : Str) : Outcome → Prop
  | .failed .. => True
  | .published => mode ≠ "request".toList
  | .replied .. => mode = "request".toList

def Outcome.isReply : Outcome → Bool
  | .replied .. => true
  | _ => false

structure RunReply where
  i : ℕ
  subject : Str
  payload : Str
  payloadType : Kind
  size : ℕ
  durationMs : ℚ

structure RunError where
  i : ℕ
  error : Str

/-- One bar: how many replies were at most `le` milliseconds. -/
structure LatencyBucket where
  le : ℚ
  count : ℕ

structure LatencyStats where
  min : ℚ
  avg : ℚ
  p50 : ℚ
  p95 : ℚ
  p99 : ℚ
  max : ℚ
  histogram : List LatencyBucket

structure Verdict where
  passed : Bool
  checked : ℕ
  failed : ℕ
  reasons : List Str

structure RunResult where
  mode : Str
  sent : ℕ
  ok : ℕ
  errors : ℕ
  latency : Option LatencyStats
  replies : List RunReply
  errorSamples : List RunError
  errorCounts : Map Str ℕ
  stopped : Bool
  verdict : Verdict

/-- A deadline is called what a single request calls it, `nats.ErrTimeout`. -/
def errLabel (deadlineExceeded : Bool) (text : Str) : Str := if deadlineExceeded then "nats: timeout".toList else text

/-- The least rank below the share. Up to `runMaxCount` replies the product in floating point has the same whole part. -/
def percentile (sorted : List ℚ) (p : ℚ) : ℚ := sorted.getD ⌊((sorted.length - 1 : ℕ) : ℚ) * p⌋₊ 0

def latencyBounds : List ℚ := [1 / 2, 1, 2, 5, 10, 20, 50, 100, 250, 500, 1000, 4000]

/-- The loop of `histogram`, from the position `i` on. -/
def histogramFrom (sorted : List ℚ) : List ℚ → ℕ → List LatencyBucket
  | [], i => if 0 < sorted.length - i then [⟨0, sorted.length - i⟩] else []
  | le :: bounds, i =>
    let n := ((sorted.drop i).takeWhile fun l => l ≤ le).length
    ⟨le, n⟩ :: histogramFrom sorted bounds (i + n)

def histogram (sorted : List ℚ) : List LatencyBucket := histogramFrom sorted latencyBounds 0

/-- What the workers keep together. -/
structure Progress where
  sent : ℕ := 0
  ok : ℕ := 0
  errors : ℕ := 0
  errorCounts : Map Str ℕ := ∅
  errorSamples : List RunError := []
  replies : List RunReply := []
  latencies : List ℚ := []
  mismatched : ℕ := 0

section Recording
variable [Tables]

/-- No expression is satisfied by every reply. -/
def replyMatches (prog : Option Filter.Program) (reply : Reply) (now : Int) : Bool :=
  match prog with
  | none => true
  | some p => p.onRecord { subject := reply.subject, data := reply.data, header := reply.header, reply := reply.reply, timestamp := now, sequence := 0 }

/-- What a worker does under the lock. -/
def Progress.record (prog : Option Filter.Program) (p : Progress) (i : ℕ) (outcome : Outcome) : Progress :=
  let p := { p with sent := p.sent + 1 }
  match outcome with
  | .failed deadlineExceeded text =>
    let label := errLabel deadlineExceeded text
    { p with
      errors := p.errors + 1
      errorCounts := p.errorCounts.insert label ((p.errorCounts.lookup label).getD 0 + 1)
      errorSamples := if p.errorSamples.length < runSampleErrors then p.errorSamples ++ [⟨i, label⟩] else p.errorSamples }
  | .published => { p with ok := p.ok + 1 }
  | .replied reply elapsed now =>
    let (payload, payloadType) := encodePayload reply.data
    { p with
      ok := p.ok + 1
      latencies := p.latencies ++ [elapsed]
      mismatched := if replyMatches prog reply now then p.mismatched else p.mismatched + 1
      replies :=
        if p.replies.length < runSampleReplies then
          p.replies ++ [⟨i, reply.subject, payload, payloadType, reply.data.length, elapsed⟩]
        else p.replies }

/-- `strings.TrimSpace(spec.Expect.Expr) != ""` -/
def judges (expect : Option (Expect ℚ)) : Bool :=
  match expect with
  | none => false
  | some e => strings.trimSpace e.expr ≠ []

/-- What there is against a run: how many failures, and the reasons. How a number is written is up to `fixed`. -/
def findings (fixed : ℕ → ℚ → Str) (spec : RunSpec ℚ) (p : Progress) (stopped : Bool) (p95 : ℚ) : List (ℕ × List Str) :=
  [ if 0 < p.errors then
      (p.errors, (p.errorCounts.keys.mergeSort fun a b => a ≤ b).map fun label =>
        Client.decimal ((p.errorCounts.lookup label).getD 0) ++ "× ".toList ++ label)
    else (0, []),
    if 0 < p.mismatched then
      (p.mismatched, [Client.decimal p.mismatched ++ " of ".toList ++ Client.decimal p.ok ++
        " replies do not satisfy ".toList ++ (spec.expect.map Expect.expr).getD []])
    else (0, []),
    match spec.expect with
    | none => (0, [])
    | some e =>
      if 0 < e.maxLatencyMs ∧ spec.mode = "request".toList ∧ 0 < p.ok ∧ e.maxLatencyMs < p95 then
        (1, ["p95 ".toList ++ fixed 1 p95 ++ " ms over the ".toList ++ fixed 0 e.maxLatencyMs ++ " ms allowed".toList])
      else (0, []),
    if judges spec.expect ∧ spec.mode ≠ "request".toList then
      (1, ["an expression judges replies, and a publish gets none".toList])
    else (0, []),
    if stopped then (1, ["the run was stopped before it was done".toList]) else (0, []) ]

/-- The verdict: every error, every reply the expression refused, a p95 over the bound, a run cut short. -/
def judge (fixed : ℕ → ℚ → Str) (spec : RunSpec ℚ) (p : Progress) (stopped : Bool) (p95 : ℚ) : Verdict :=
  let found := findings fixed spec p stopped p95
  let failed := (found.map Prod.fst).sum
  ⟨failed = 0, p.sent, failed, (found.flatMap Prod.snd).take verdictReasons⟩

/-- What becomes of a run after every worker is through. -/
def result (fixed : ℕ → ℚ → Str) (spec : RunSpec ℚ) (p : Progress) (stopped : Bool) : RunResult :=
  let sorted := p.latencies.insertionSort (· ≤ ·)
  let p95 := if sorted = [] then 0 else percentile sorted (95 / 100)
  { mode := spec.mode
    sent := p.sent
    ok := p.ok
    errors := p.errors
    latency :=
      if sorted = [] then none
      else some
        { min := sorted.getD 0 0
          avg := sorted.sum / sorted.length
          p50 := percentile sorted (50 / 100)
          p95 := p95
          p99 := percentile sorted (99 / 100)
          max := sorted.getD (sorted.length - 1) 0
          histogram := histogram sorted }
    replies := p.replies
    errorSamples := p.errorSamples
    errorCounts := p.errorCounts
    stopped := stopped
    verdict := judge fixed spec p stopped p95 }

end Recording

/-- What a worker is at: waiting for a number, for its interval, for the send or for the lock, or it has left. -/
inductive Worker where
  | ranging (first : Bool)
  | pausing (i : ℕ)
  | sending (i : ℕ)
  | recording (i : ℕ) (outcome : Outcome)
  | left

structure State (n : ℕ) where
  /-- the number the feeder hands out next -/
  next : ℕ
  closed : Bool
  workers : Fin n → Worker
  /-- the context is done: the deadline has passed, or the caller has left -/
  done : Bool
  stopped : Bool
  progress : Progress

def start (n : ℕ) : State n := ⟨1, false, fun _ => .ranging true, false, false, {}⟩

/-- What happens in a run. -/
inductive Event (n : ℕ) where
  | deadline
  | hand (w : Fin n) (i : ℕ)
  | stop
  | close
  | resume (w : Fin n) (i : ℕ)
  | giveUp (w : Fin n) (i : ℕ)
  | send (w : Fin n) (i : ℕ) (outcome : Outcome)
  | record (w : Fin n) (i : ℕ) (outcome : Outcome)
  | leave (w : Fin n)

section Steps
variable [Tables] (spec : RunSpec ℚ) (prog : Option Filter.Program) {n : ℕ}

def State.set (s : State n) (w : Fin n) (worker : Worker) : State n := { s with workers := Function.update s.workers w worker }

/-- One step of the feeder, of a worker, or of the clock. A channel without a buffer hands a number on only to a worker
that waits for one; where the context is done too, either may be taken. -/
inductive Step : State n → Event n → State n → Prop where
  | deadline {s} : Step s .deadline { s with done := true }
  | hand {s first} (w) : s.closed = false → (s.next : Int) ≤ spec.count → s.workers w = .ranging first →
      Step s (.hand w s.next)
        { s.set w (if first = false ∧ 0 < spec.interval then .pausing s.next else .sending s.next) with next := s.next + 1 }
  | stop {s} : s.closed = false → (s.next : Int) ≤ spec.count → s.done = true →
      Step s .stop { s with closed := true, stopped := true }
  | close {s} : s.closed = false → spec.count < s.next → Step s .close { s with closed := true }
  | resume {s} (w i) : s.workers w = .pausing i → Step s (.resume w i) (s.set w (.sending i))
  | giveUp {s} (w i) : s.workers w = .pausing i → s.done = true → Step s (.giveUp w i) (s.set w .left)
  | send {s} (w i) (outcome : Outcome) : s.workers w = .sending i → outcome.Possible spec.mode →
      Step s (.send w i outcome) (s.set w (.recording i outcome))
  | record {s} (w i) (outcome : Outcome) : s.workers w = .recording i outcome →
      Step s (.record w i outcome) { s.set w (.ranging false) with progress := s.progress.record prog i outcome }
  | leave {s first} (w) : s.workers w = .ranging first → s.closed = true → Step s (.leave w) (s.set w .left)

/-- `wg.Wait` returns. -/
structure State.Finished (s : State n) : Prop where
  closed : s.closed = true
  left : ∀ w, s.workers w = .left

end Steps

section Tallies

/-- The bars add up to what there is to count. -/
theorem histogramFrom_sum {sorted bounds : List ℚ} {i : ℕ} (within : i ≤ sorted.length) :
    ((histogramFrom sorted bounds i).map LatencyBucket.count).sum = sorted.length - i := by
  induction bounds generalizing i with
  | nil =>
    rw [histogramFrom]
    split
    · rfl
    · next none =>
      rw [List.map_nil, List.sum_nil]
      omega
  | cons le bounds ih =>
    have counted := (List.takeWhile_sublist (fun l => decide (l ≤ le)) (l := sorted.drop i)).length_le
    rw [List.length_drop] at counted
    rw [histogramFrom, List.map_cons, List.sum_cons, ih (by omega)]
    dsimp only
    omega

theorem histogram_sum (sorted : List ℚ) : ((histogram sorted).map LatencyBucket.count).sum = sorted.length :=
  histogramFrom_sum (Nat.zero_le _)

/-- One more of a label, among the counts of all labels. -/
theorem values_sum_insert (m : Map Str ℕ) (label : Str) :
    (Map.values (m.insert label ((m.lookup label).getD 0 + 1))).sum = (Map.values m).sum + 1 := by
  have counted := Map.sum_values_insert id m label ((m.lookup label).getD 0 + 1)
  have before : (m.lookup label).elim 0 id = (m.lookup label).getD 0 := by cases m.lookup label <;> rfl
  rw [List.map_id, List.map_id, before, id] at counted
  omega

/-- What is kept of the sends that were recorded. -/
structure Progress.Tallied (p : Progress) (records : List (ℕ × Outcome)) : Prop where
  sent : p.sent = records.length
  ended : p.ok + p.errors = p.sent
  errors : (Map.values p.errorCounts).sum = p.errors
  replies : p.latencies.length = records.countP fun r => r.2.isReply

theorem tallied_empty : Progress.Tallied {} [] := ⟨rfl, rfl, rfl, rfl⟩

variable [Tables] {prog : Option Filter.Program} {p : Progress} {records : List (ℕ × Outcome)}

theorem Progress.Tallied.record (tallied : p.Tallied records) (i : ℕ) (outcome : Outcome) :
    (p.record prog i outcome).Tallied (records ++ [(i, outcome)]) := by
  obtain ⟨sent, ended, errors, replies⟩ := tallied
  have counted : (records ++ [(i, outcome)]).countP (fun r => r.2.isReply) =
      records.countP (fun r => r.2.isReply) + if outcome.isReply then 1 else 0 := by
    rw [List.countP_append, List.countP_singleton]
  have more : (records ++ [(i, outcome)]).length = records.length + 1 := List.length_append
  cases outcome with
  | failed deadlineExceeded text =>
    constructor
    · rw [more, ← sent]
      rfl
    · change p.ok + (p.errors + 1) = p.sent + 1
      omega
    · change (Map.values (p.errorCounts.insert _ _)).sum = p.errors + 1
      rw [values_sum_insert, errors]
    · rw [counted]
      exact replies
  | published =>
    constructor
    · rw [more, ← sent]
      rfl
    · change p.ok + 1 + p.errors = p.sent + 1
      omega
    · exact errors
    · rw [counted]
      exact replies
  | replied reply elapsed now =>
    constructor
    · rw [more, ← sent]
      rfl
    · change p.ok + 1 + p.errors = p.sent + 1
      omega
    · exact errors
    · change (p.latencies ++ [elapsed]).length = _
      rw [counted, List.length_append, replies]
      rfl

end Tallies

namespace Event
variable {n : ℕ}

/-- The sends of an event, and how they ended. -/
def sends : Event n → List (ℕ × Outcome)
  | .send _ i outcome => [(i, outcome)]
  | _ => []

def records : Event n → List (ℕ × Outcome)
  | .record _ i outcome => [(i, outcome)]
  | _ => []

/-- The number a worker has taken and leaves with. -/
def givenUp : Event n → List ℕ
  | .giveUp _ i => [i]
  | _ => []

def handed : Event n → List ℕ
  | .hand _ i => [i]
  | _ => []

end Event

namespace Worker

/-- The number a worker has taken and not sent. -/
def job : Worker → Multiset ℕ
  | .pausing i | .sending i => {i}
  | _ => 0

/-- What a worker has sent and not recorded. -/
def sent : Worker → Multiset (ℕ × Outcome)
  | .recording i outcome => {(i, outcome)}
  | _ => 0

end Worker

/-- Where the numbers are at any moment of a run. -/
structure Accounts (spec : RunSpec ℚ) {n : ℕ} (events : List (Event n)) (s : State n) : Prop where
  first : 1 ≤ s.next
  last : (s.next : Int) ≤ spec.count + 1
  /-- Every number handed out is with one worker, was sent once, or was given up. -/
  jobs : heldBy Worker.job s.workers + ↑((events.flatMap Event.sends).map Prod.fst) + ↑(events.flatMap Event.givenUp) =
    (Finset.Ico 1 s.next).val
  sent : heldBy Worker.sent s.workers + ↑(events.flatMap Event.records) = (↑(events.flatMap Event.sends) : Multiset (ℕ × Outcome))
  tallied : s.progress.Tallied (events.flatMap Event.records)
  stopped : s.stopped = true ↔ Event.stop ∈ events
  closed : s.closed = true → s.stopped = true ∨ spec.count < s.next

theorem accounts_start {spec : RunSpec ℚ} {n : ℕ} (positive : 1 ≤ spec.count) : Accounts spec [] (start n) where
  first := le_rfl
  last := by
    change (1 : Int) ≤ spec.count + 1
    omega
  jobs := by
    have none : heldBy Worker.job (start n).workers = 0 := heldBy_eq_zero fun _ => rfl
    rw [none]
    rfl
  sent := by
    have none : heldBy Worker.sent (start n).workers = 0 := heldBy_eq_zero fun _ => rfl
    rw [none]
    rfl
  tallied := tallied_empty
  stopped := iff_of_false nofun nofun
  closed := nofun

section Runs
variable [Tables] {spec : RunSpec ℚ} {prog : Option Filter.Program} {n : ℕ} {s t : State n} {events : List (Event n)} {e : Event n}

/-- A number that a worker no longer has was sent or given up. -/
theorem step_jobs (step : Step spec prog s e t) :
    heldBy Worker.job t.workers + (↑(e.sends.map Prod.fst) + ↑e.givenUp) = heldBy Worker.job s.workers + ↑e.handed := by
  cases step <;> simp only [Event.sends, Event.givenUp, Event.handed, List.map_nil, List.map_cons, Multiset.coe_nil, Multiset.coe_singleton,
    add_zero, zero_add]
  case hand w first running more idle =>
    refine heldBy_take (by rw [idle]; rfl) ?_
    split <;> rfl
  case resume w i pausing => exact heldBy_keep (by rw [pausing]; rfl)
  case giveUp w i pausing done => exact heldBy_put (by rw [pausing]; rfl) rfl
  case send w i outcome sending possible => exact heldBy_put (by rw [sending]; rfl) rfl
  case record w i outcome recording => exact heldBy_keep (by rw [recording]; rfl)
  case leave w first idle closed => exact heldBy_keep (by rw [idle]; rfl)

/-- What was sent is recorded once. -/
theorem step_sent (step : Step spec prog s e t) :
    heldBy Worker.sent t.workers + ↑e.records = heldBy Worker.sent s.workers + (↑e.sends : Multiset (ℕ × Outcome)) := by
  cases step <;> simp only [Event.sends, Event.records, Multiset.coe_nil, Multiset.coe_singleton, add_zero]
  case hand w first running more idle =>
    refine heldBy_keep ?_
    rw [idle]
    split <;> rfl
  case resume w i pausing => exact heldBy_keep (by rw [pausing]; rfl)
  case giveUp w i pausing done => exact heldBy_keep (by rw [pausing]; rfl)
  case send w i outcome sending possible => exact heldBy_take (by rw [sending]; rfl) rfl
  case record w i outcome recording => exact heldBy_put (by rw [recording]; rfl) rfl
  case leave w first idle closed => exact heldBy_keep (by rw [idle]; rfl)

/-- The numbers are handed out one after another, up to the last. -/
theorem step_next (step : Step spec prog s e t) (first : 1 ≤ s.next) (last : (s.next : Int) ≤ spec.count + 1) :
    1 ≤ t.next ∧ (t.next : Int) ≤ spec.count + 1 ∧ (Finset.Ico 1 t.next).val = (Finset.Ico 1 s.next).val + ↑e.handed := by
  cases step
  case hand w idle running more first_ =>
    refine ⟨Nat.le_succ_of_le first, ?_, ?_⟩
    · change ((s.next + 1 : ℕ) : Int) ≤ _
      omega
    · change (Finset.Ico 1 (s.next + 1)).val = (Finset.Ico 1 s.next).val + {s.next}
      rw [← Finset.insert_Ico_right_eq_Ico_add_one first, Finset.insert_val_of_notMem (by simp), add_comm]
      rfl
  all_goals exact ⟨first, last, (add_zero _).symm⟩

/-- No step loses a number or has it twice. -/
theorem Accounts.step (accounts : Accounts spec events s) (step : Step spec prog s e t) : Accounts spec (events ++ [e]) t := by
  have onto {A : Type} (f : Event n → List A) : (events ++ [e]).flatMap f = events.flatMap f ++ f e := by
    rw [List.flatMap_append, List.flatMap_singleton]
  obtain ⟨first, last, range⟩ := step_next step accounts.first accounts.last
  constructor
  case first => exact first
  case last => exact last
  case jobs =>
    rw [onto, onto, List.map_append, ← Multiset.coe_add, ← Multiset.coe_add, range, ← accounts.jobs]
    calc heldBy Worker.job t.workers + (↑((events.flatMap Event.sends).map Prod.fst) + ↑(e.sends.map Prod.fst)) +
          (↑(events.flatMap Event.givenUp) + ↑e.givenUp)
        = heldBy Worker.job t.workers + (↑(e.sends.map Prod.fst) + ↑e.givenUp) +
          (↑((events.flatMap Event.sends).map Prod.fst) + ↑(events.flatMap Event.givenUp)) := by abel
      _ = _ := by
        rw [step_jobs step]
        abel
  case sent =>
    rw [onto, onto, ← Multiset.coe_add, ← Multiset.coe_add, ← accounts.sent]
    calc heldBy Worker.sent t.workers + (↑(events.flatMap Event.records) + ↑e.records)
        = heldBy Worker.sent t.workers + ↑e.records + ↑(events.flatMap Event.records) := by abel
      _ = _ := by
        rw [step_sent step]
        abel
  case tallied =>
    rw [onto]
    cases step
    case record w i outcome recording => exact accounts.tallied.record i outcome
    all_goals
      simp only [Event.records, List.append_nil]
      exact accounts.tallied
  case stopped =>
    rw [List.mem_append, List.mem_singleton, ← accounts.stopped]
    cases step
    case stop => exact iff_of_true rfl (.inr rfl)
    all_goals exact (or_iff_left nofun).symm
  case closed =>
    have closed := accounts.closed
    cases step
    case hand running more idle =>
      intro shut
      cases running.symm.trans shut
    case stop => exact fun _ => .inl rfl
    case close running past => exact fun _ => .inr past
    all_goals exact closed

/-- What holds at the start of a run is kept by its steps. -/
theorem accounts_run (positive : 1 ≤ spec.count) (run : Reaches (Step spec prog) (start n) events s) : Accounts spec events s := by
  generalize begun : start n = first at run
  induction run with
  | refl =>
    subst begun
    exact accounts_start positive
  | next _ last ih => exact ih.step last

end Runs

section Finished
variable {spec : RunSpec ℚ} {n : ℕ} {s : State n} {events : List (Event n)}

/-- Where every worker is through, what was not sent was given up, or was never handed out. -/
theorem Accounts.finished (accounts : Accounts spec events s) (finished : s.Finished) :
    (events.flatMap Event.records).Perm (events.flatMap Event.sends) ∧
      s.progress.sent + (events.flatMap Event.givenUp).length + 1 = s.next := by
  have sent := accounts.sent
  have jobs := congrArg Multiset.card accounts.jobs
  rw [heldBy_eq_zero fun w => by rw [finished.left w]; rfl, zero_add] at sent jobs
  have perm := Multiset.coe_eq_coe.mp sent
  refine ⟨perm, ?_⟩
  rw [Multiset.card_add, Multiset.coe_card, Multiset.coe_card, List.length_map, Finset.card_val, Nat.card_Ico, ← perm.length_eq,
    ← accounts.tallied.sent] at jobs
  have first := accounts.first
  omega

theorem no_givenUp : (events.flatMap Event.givenUp).length = 0 ↔ ∀ w i, Event.giveUp w i ∉ events := by
  rw [List.length_eq_zero_iff, List.flatMap_eq_nil_iff]
  constructor
  · exact fun none w i there => absurd (none _ there) nofun
  · intro none e there
    cases e with
    | giveUp w i => exact (none w i there).elim
    | _ => rfl

end Finished

section Complete
variable [Tables] {spec : RunSpec ℚ} {n : ℕ} {s : State n} {events : List (Event n)}

def State.result (fixed : ℕ → ℚ → Str) (spec : RunSpec ℚ) (s : State n) : RunResult := Execute.result fixed spec s.progress s.stopped

/-- What there is to count, at any moment of a run, and that a run that was not stopped is complete. -/
structure Complete (fixed : ℕ → ℚ → Str) (spec : RunSpec ℚ) (events : List (Event n)) (s : State n) : Prop where
  once : ((events.flatMap Event.sends).map Prod.fst).Nodup
  within : ∀ i ∈ (events.flatMap Event.sends).map Prod.fst, 1 ≤ i ∧ (i : Int) ≤ spec.count
  ended : (s.result fixed spec).ok + (s.result fixed spec).errors = (s.result fixed spec).sent
  errors : (Map.values (s.result fixed spec).errorCounts).sum = (s.result fixed spec).errors
  histogram : (((s.result fixed spec).latency.elim [] LatencyStats.histogram).map LatencyBucket.count).sum =
    (events.flatMap Event.records).countP fun r => r.2.isReply
  recorded : s.Finished → (events.flatMap Event.records).Perm (events.flatMap Event.sends)
  whole : s.Finished → (s.result fixed spec).stopped = false → ((s.result fixed spec).sent : Int) = spec.count
  passed : s.Finished → (s.result fixed spec).verdict.passed = true → ((s.result fixed spec).sent : Int) = spec.count

theorem stopped_of_passed {fixed : ℕ → ℚ → Str} {p : Progress} {stopped : Bool} {p95 : ℚ}
    (passed : (judge fixed spec p stopped p95).passed = true) : stopped = false := by
  cases stopped with
  | false => rfl
  | true =>
    have none : ((findings fixed spec p true p95).map Prod.fst).sum = 0 := of_decide_eq_true passed
    rw [List.sum_eq_zero_iff_forall_eq_nat] at none
    have cut := none 1 (List.mem_map.mpr ⟨(1, _), List.mem_of_mem_getLast? rfl, rfl⟩)
    cases cut

theorem result_histogram (fixed : ℕ → ℚ → Str) (spec : RunSpec ℚ) (s : State n) :
    (((s.result fixed spec).latency.elim [] LatencyStats.histogram).map LatencyBucket.count).sum = s.progress.latencies.length := by
  have sorted := List.length_insertionSort (· ≤ ·) s.progress.latencies
  unfold State.result Execute.result
  dsimp only
  split
  · next none =>
    rw [none] at sorted
    exact sorted
  · exact (histogram_sum _).trans sorted

variable [Filter.Compiler]

/-- `prog, _ := compileExpect(spec.Expect)` -/
def compiled (spec : RunSpec ℚ) : Option Filter.Program :=
  match compileExpect spec.expect with
  | .ok prog => prog
  | .error _ => none

/-- A run is accounted for and complete exactly if no worker leaves with a number it has taken, unless the feeder notices
the deadline before it has handed out the last. -/
theorem run_complete_iff {notBase64 : Str → Str} {asked spec : RunSpec ℚ} (accepted : asked.normalize notBase64 = .ok spec)
    (fixed : ℕ → ℚ → Str) {events : List (Event spec.concurrency.toNat)} {s : State spec.concurrency.toNat}
    (run : Reaches (Step spec (compiled spec)) (start _) events s) :
    Complete fixed spec events s ↔ (s.Finished → Event.stop ∉ events → ∀ w i, Event.giveUp w i ∉ events) := by
  have positive : 1 ≤ spec.count := by
    rw [(RunSpec.normalize_ok.mp accepted).1]
    change 1 ≤ if asked.count < 1 then 1 else asked.count
    split <;> omega
  have accounts := accounts_run positive run
  have last (finished : s.Finished) (going : s.stopped = false) : (s.next : Int) = spec.count + 1 := by
    have past := accounts.closed finished.closed
    rw [going] at past
    have := past.resolve_left nofun
    have := accounts.last
    omega
  have whole (finished : s.Finished) (going : s.stopped = false) :
      (s.progress.sent : Int) = spec.count ↔ ∀ w i, Event.giveUp w i ∉ events := by
    have next := last finished going
    have total := (accounts.finished finished).2
    rw [← no_givenUp]
    omega
  have going : Event.stop ∉ events ↔ s.stopped = false := by
    rw [← accounts.stopped, Bool.not_eq_true]
  constructor
  · intro complete finished without
    exact (whole finished (going.mp without)).mp (complete.whole finished (going.mp without))
  · intro kept
    have all (finished : s.Finished) (unstopped : s.stopped = false) : (s.progress.sent : Int) = spec.count :=
      (whole finished unstopped).mpr (kept finished (going.mpr unstopped))
    have numbers : (↑((events.flatMap Event.sends).map Prod.fst) : Multiset ℕ) ≤ (Finset.Ico 1 s.next).val := by
      rw [← accounts.jobs, add_right_comm]
      exact Multiset.le_add_left _ _
    constructor
    case once => exact Multiset.coe_nodup.mp (Multiset.nodup_of_le numbers (Finset.nodup _))
    case within =>
      intro i there
      have range := Finset.mem_Ico.mp (Finset.mem_val.mp (Multiset.mem_of_le numbers (Multiset.mem_coe.mpr there)))
      have := accounts.last
      omega
    case ended => exact accounts.tallied.ended
    case errors => exact accounts.tallied.errors
    case histogram => exact (result_histogram fixed spec s).trans accounts.tallied.replies
    case recorded => exact fun finished => (accounts.finished finished).1
    case whole => exact all
    case passed => exact fun finished passed => all finished (stopped_of_passed passed)

end Complete

section Runs

/-- Two messages, one after the other. -/
def twice (interval : Int) : RunSpec ℚ :=
  { mode := "publish".toList, subject := ['a'], payload := [], payloadType := [], headers := fun _ => [], timeout := 5 * second, count := 2,
    concurrency := 1, interval := interval, expect := none }

@[reducible] def noCompiler : Filter.Compiler where
  compile _ := .error []

/-- The only worker of these runs. -/
def only (interval : Int) : Fin (twice interval).concurrency.toNat := ⟨0, Nat.one_pos⟩

theorem published_possible (interval : Int) : Outcome.published.Possible (twice interval).mode := by
  change "publish".toList ≠ "request".toList
  decide

theorem finished_of_left {interval : Int} {s : State (twice interval).concurrency.toNat} (closed : s.closed = true)
    (left : s.workers (only interval) = .left) : s.Finished :=
  ⟨closed, fun w => (congrArg s.workers (Subsingleton.elim (α := Fin 1) w (only interval))).trans left⟩

theorem run_complete_iff_twice : ∃ (events : List (Event (twice 0).concurrency.toNat)) (s : State (twice 0).concurrency.toNat),
    s.Finished ∧ @Complete asciiTables _ (fun _ _ => []) (twice 0) events s := by
  let := asciiTables
  let := noCompiler
  have accepted : RunSpec.normalize (fun _ => []) (twice 0) = .ok (twice 0) :=
    RunSpec.normalize_ok.mpr ⟨rfl, nofun, by decide, ⟨_, rfl⟩, ⟨_, rfl⟩⟩
  let w := only 0
  have possible := published_possible 0
  have first : Reaches (Step (twice 0) (compiled (twice 0))) (start _) _ _ :=
    (((Reaches.refl _).next (.hand w rfl (by decide) rfl)).next (.send w 1 .published rfl possible)).next (.record w 1 .published rfl)
  have second := ((first.next (.hand w rfl (by decide) rfl)).next (.send w 2 .published rfl possible)).next (.record w 2 .published rfl)
  have run := (second.next (.close rfl (by decide))).next (.leave w rfl rfl)
  refine ⟨_, _, finished_of_left rfl rfl, (run_complete_iff accepted _ run).mpr fun _ _ w i there => ?_⟩
  simp at there

/-- The deadline passes while the worker waits with the last number. -/
theorem run_incomplete : ¬ ∀ (_ : Tables) (_ : Filter.Compiler) (notBase64 : Str → Str) (asked spec : RunSpec ℚ) (fixed : ℕ → ℚ → Str)
    (events : List (Event spec.concurrency.toNat)) (s : State spec.concurrency.toNat), asked.normalize notBase64 = .ok spec →
    Reaches (Step spec (compiled spec)) (start _) events s → Complete fixed spec events s := by
  intro always
  let := asciiTables
  let := noCompiler
  let w := only 1000000
  have possible := published_possible 1000000
  have first : Reaches (Step (twice 1000000) (compiled (twice 1000000))) (start _) _ _ :=
    (((Reaches.refl _).next (.hand w rfl (by decide) rfl)).next (.send w 1 .published rfl possible)).next (.record w 1 .published rfl)
  have waiting := (first.next (.hand w rfl (by decide) rfl)).next (.close rfl (by decide))
  have run := (waiting.next .deadline).next (.giveUp w 2 rfl rfl)
  have accepted : RunSpec.normalize (fun _ => []) (twice 1000000) = .ok (twice 1000000) :=
    RunSpec.normalize_ok.mpr ⟨rfl, nofun, by decide, ⟨_, rfl⟩, ⟨_, rfl⟩⟩
  have complete := always _ _ _ _ _ (fun _ _ => []) _ _ accepted run
  exact absurd (complete.whole (finished_of_left rfl rfl) rfl) (by decide)

end Runs

end NatsExplorer.Handler.Execute
