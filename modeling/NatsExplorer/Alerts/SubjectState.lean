import NatsExplorer.Alerts.Rule

/-! What the engine remembers of a subject under a rule, and what a message and the
passing of time do to it (`alerts.go`, `window.go`). The alert of the subject is behind
another lock, so every function answers with the changes it asks for, in order. -/
namespace NatsExplorer.Alerts
open Go

inductive State where
  | firing
  | stale
  | resolved
  | rate
  | level
  | stuck
  deriving DecidableEq, Repr

/-- A call of `change`, with the time of the last message, the alert showing the
condition that is left, or a call of `update`. -/
inductive Effect where
  | change (state : State) (preview : Str) (seen : Int)
  | left (state : State) (preview : Str)
  | update (state : State) (preview : Str)

section Window
variable {F : Type}

def winBuckets : Nat := 60

structure Bucket (F : Type) where
  start : Int
  count : Int
  n : Int
  sum : F
  min : F
  max : F

structure Window (F : Type) where
  size : Int
  b : List (Bucket F)

structure Totals (F : Type) where
  count : Int
  n : Int
  sum : F
  min : F
  max : F

variable [Numbers F]

def Bucket.new (start : Int) : Bucket F where
  start := start
  count := 0
  n := 0
  sum := Numbers.zero
  min := Numbers.zero
  max := Numbers.zero

def newWindow (seconds : Int) : Window F where
  size := max 1 ((seconds * 1000).tdiv winBuckets)
  b := List.replicate winBuckets (.new 0)

/-- A message falls into a bucket, with its value when the rule names a field. -/
def Bucket.add (b : Bucket F) (value : Option F) : Bucket F :=
  let b := { b with count := b.count + 1 }
  match value with
  | none => b
  | some value => { b with
      min := if b.n = 0 || Numbers.lt value b.min then value else b.min
      max := if b.n = 0 || Numbers.lt b.max value then value else b.max
      sum := Numbers.add b.sum value
      n := b.n + 1 }

def Window.add (w : Window F) (now : Int) (value : Option F) : Window F :=
  let slot := now.tdiv w.size
  { w with b := w.b.modify (slot.tmod winBuckets).toNat fun b =>
      (if b.start = slot then b else .new slot).add value }

def Window.totals (w : Window F) (now windowMs : Int) : Totals F :=
  let first := (now - windowMs).tdiv w.size
  let slot := now.tdiv w.size
  w.b.foldl (fun t b =>
    if b.start < first ∨ slot < b.start ∨ (b.count = 0 ∧ b.n = 0) then t
    else
      let t := { t with count := t.count + b.count }
      if 0 < b.n then { t with
          min := if t.n = 0 || Numbers.lt b.min t.min then b.min else t.min
          max := if t.n = 0 || Numbers.lt t.max b.max then b.max else t.max
          sum := Numbers.add t.sum b.sum
          n := t.n + b.n }
      else t) ⟨0, 0, Numbers.zero, Numbers.zero, Numbers.zero⟩

end Window

structure Compiled (F : Type) extends Rule F where
  prog : Option Filter.Program

def evalEvery : Int := 1000
def previewMax : Nat := 200
def staleWindow : Nat := 16
def staleMinGaps : Nat := 8
def staleFactor : Int := 10

/-- The first bytes of a text. The bytes of a rune that is cut read as U+FFFD. -/
def cut (bytes : Nat) : Str → Str
  | [] => []
  | c :: s =>
    if c.utf8Size ≤ bytes then c :: cut (bytes - c.utf8Size) s
    else List.replicate bytes (Char.ofNat 0xFFFD)

def preview (r : Record) : Str :=
  match r.data with
  | .binary bytes => "binary, ".toList ++ digits bytes.length ++ " bytes".toList
  | .text runes => if previewMax < byteLen runes then cut previewMax runes ++ ['…'] else runes

structure SubjectState (F : Type) where
  ruleID : Str
  connID : Str
  subject : Str
  lastSeen : Int := 0
  lastEval : Int := 0
  preview : Str := []
  firing : Bool := false
  stale : Bool := false
  /-- A ring of the last gaps. -/
  gaps : List Int := List.replicate staleWindow 0
  gapsN : Nat := 0
  firstSeen : Int := 0
  seen : Int := 0
  win : Option (Window F) := none
  rate : Bool := false
  level : Bool := false
  stuck : Bool := false
  ratePreview : Str := []
  levelPreview : Str := []
  stuckPreview : Str := []
  lastValue : Data := .text []
  lastChange : Int := 0

namespace SubjectState
variable {F : Type}

/-- The condition that matters most of those that hold. -/
def current (st : SubjectState F) : Option (State × Str) :=
  if st.firing then some (.firing, st.preview)
  else if st.level then some (.level, st.levelPreview)
  else if st.rate then some (.rate, st.ratePreview)
  else if st.stuck then some (.stuck, st.stuckPreview)
  else if st.stale then some (.stale, st.preview)
  else none

/-- The upper quartile of the last gaps. -/
def typicalGap (st : SubjectState F) : Int :=
  let n := min st.gapsN staleWindow
  if n < staleMinGaps then 0
  else ((st.gaps.take n).insertionSort (· ≤ ·)).getD (n * 3 / 4) 0

def noteGap (st : SubjectState F) (now : Int) : SubjectState F :=
  if 0 < st.lastSeen ∧ st.lastSeen < now then
    { st with gaps := st.gaps.set (st.gapsN % staleWindow) (now - st.lastSeen), gapsN := st.gapsN + 1 }
  else st

def change (st : SubjectState F) (state : State) (preview : Str) : Effect :=
  .change state preview st.lastSeen

/-- A condition stopped to hold. -/
def cleared (st : SubjectState F) (preview : Str) : Effect :=
  match st.current with
  | none => st.change .resolved preview
  | some (state, left) => .left state left

/-- One thing after the other. -/
def andThen (first second : SubjectState F → SubjectState F × List Effect) (st : SubjectState F) :
    SubjectState F × List Effect :=
  let (st, effects) := first st
  let (st, more) := second st
  (st, effects ++ more)

section Observe
variable (c : Compiled F) (r : Record) (now : Int)

def arrive (st : SubjectState F) : SubjectState F × List Effect :=
  let st := st.noteGap now
  ({ st with
      lastSeen := now
      seen := st.seen + 1
      firstSeen := if st.firstSeen = 0 then now else st.firstSeen }, [])

def wake (st : SubjectState F) : SubjectState F × List Effect :=
  if st.stale then
    let st := { st with stale := false }
    (st, [st.cleared (Alerts.preview r)])
  else (st, [])

def evaluate (st : SubjectState F) : SubjectState F × List Effect :=
  match c.prog, decide (evalEvery ≤ now - st.lastEval) with
  | some prog, true =>
    let st := { st with lastEval := now }
    match prog.onRecord r, st.firing with
    | true, false =>
      let st := { st with firing := true, preview := Alerts.preview r }
      (st, [st.change .firing st.preview])
    | false, true =>
      let st := { st with firing := false }
      (st, [st.cleared (Alerts.preview r)])
    | _, _ => (st, [])
  | _, _ => (if st.preview = [] then { st with preview := Alerts.preview r } else st, [])

variable [Payloads F]

/-- The field the window and the stuck check read. -/
def fieldOf : Option (Value F) := if c.needsField then fieldAt (Payloads.payload r) c.field else none

variable [Numbers F]

def enter (st : SubjectState F) : SubjectState F × List Effect :=
  (if c.hasWindow then
    { st with win := some ((st.win.getD (newWindow c.window)).add now ((fieldOf c r).bind numberOf)) }
  else st, [])

/-- What has to change for the subject not to be stuck. -/
def reported : Data :=
  if c.field ≠ [] then
    match fieldOf c r with
    | some v => .text (valueText v)
    | none => .text (Char.ofNat 0 :: "missing".toList)
  else r.data

def track (st : SubjectState F) : SubjectState F × List Effect :=
  if 0 < c.unchangedFor ∧ (st.lastChange = 0 ∨ reported c r ≠ st.lastValue) then
    let st := { st with lastValue := reported c r, lastChange := now }
    if st.stuck then
      let st := { st with stuck := false }
      (st, [st.cleared (Alerts.preview r)])
    else (st, [])
  else (st, [])

/-- The turn of one rule in `Observe`. -/
def observe : SubjectState F → SubjectState F × List Effect :=
  andThen (arrive now) (andThen (wake r) (andThen (enter c r now) (andThen (track c r now) (evaluate c r now))))

end Observe

section Tick
variable (c : Compiled F) (now : Int)

/-- The silence that counts as stale. -/
def staleAfter (st : SubjectState F) : Option Int :=
  if c.staleAfter ≤ 0 ∧ ¬ c.staleAuto then none
  else
    let after := mul64 c.staleAfter 1000
    if c.staleAuto then
      let learned := mul64 st.typicalGap staleFactor
      if learned = 0 then none else some (max learned after)
    else some after

def silent (st : SubjectState F) : Bool :=
  match st.staleAfter c with
  | none => false
  | some after => 0 < st.lastSeen && after < now - st.lastSeen

def checkStale (st : SubjectState F) : SubjectState F × List Effect :=
  if ¬ st.stale ∧ st.silent c now then
    let st := { st with stale := true }
    (st, [st.change .stale st.preview])
  else (st, [])

/-- A value reported more than once that has not changed for longer than allowed. -/
def unmoved (st : SubjectState F) : Bool :=
  0 < c.unchangedFor && 2 ≤ st.seen && st.lastChange ≠ 0 &&
    mul64 c.unchangedFor 1000 < now - st.lastChange

def stuckText (st : SubjectState F) : Str :=
  let what :=
    if c.field = [] then "payload".toList
    else c.field ++ " = ".toList ++
      match st.lastValue with
      | .text value => value
      | .binary _ => []
  what ++ " unchanged for ".toList ++ formatSeconds ((now - st.lastChange).tdiv 1000)

def checkStuck (st : SubjectState F) : SubjectState F × List Effect :=
  if ¬ st.stuck ∧ st.unmoved c now then
    let st := { st with stuck := true, stuckPreview := st.stuckText c now }
    (st, [st.change .stuck st.stuckPreview])
  else (st, [])

variable [Numbers F]

def windowMs : Int := c.window * 1000

/-- The window is there and asked for. -/
def watched (st : SubjectState F) : Option (Totals F) :=
  if c.hasWindow then st.win.map fun w => w.totals now (windowMs c) else none

/-- A count that is too low is only judged after a whole window. -/
def rateVerdict (st : SubjectState F) (t : Totals F) : Bool × Str :=
  let (hit, pv) := c.toRule.rateVerdict t.count
  let early := (c.minCount.any (t.count < ·)) && now - st.firstSeen < windowMs c
  (hit && !early, pv)

def levelVerdict (t : Totals F) : Bool × Str := c.toRule.levelVerdict t.n t.sum t.min t.max

/-- What a condition over the window does with its verdict: it starts, reads differently
or ends. -/
def judge (state : State) (on : SubjectState F → Bool) (said : SubjectState F → Str)
    (put : SubjectState F → Bool → Str → SubjectState F) (verdict : Bool × Str) (st : SubjectState F) :
    SubjectState F × List Effect :=
  match verdict.1, on st with
  | true, false =>
    let st := put st true verdict.2
    (st, [st.change state verdict.2])
  | true, true =>
    if verdict.2 = said st then (st, []) else (put st true verdict.2, [.update state verdict.2])
  | false, true =>
    let st := put st false (said st)
    (st, [st.cleared verdict.2])
  | false, false => (st, [])

def checkRate (st : SubjectState F) : SubjectState F × List Effect :=
  match st.watched c now with
  | none => (st, [])
  | some t =>
    if c.minCount.isSome || c.maxCount.isSome then
      judge .rate (·.rate) (·.ratePreview) (fun st on pv => { st with rate := on, ratePreview := pv })
        (st.rateVerdict c now t) st
    else (st, [])

def checkLevel (st : SubjectState F) : SubjectState F × List Effect :=
  match st.watched c now with
  | none => (st, [])
  | some t =>
    if c.hasAggregate then
      judge .level (·.level) (·.levelPreview) (fun st on pv => { st with level := on, levelPreview := pv })
        (levelVerdict c t) st
    else (st, [])

def checkWindow : SubjectState F → SubjectState F × List Effect :=
  andThen (checkRate c now) (checkLevel c now)

/-- The turn of one state in `Tick`. -/
def tick : SubjectState F → SubjectState F × List Effect :=
  andThen (checkStale c now) (andThen (checkWindow c now) (checkStuck c now))

end Tick
end SubjectState
end NatsExplorer.Alerts
