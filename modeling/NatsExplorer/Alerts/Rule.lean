import NatsExplorer.Filter
import NatsExplorer.Subject

/-! Alert rules and what they ask of a subject (`internal/alerts`). A `float64` is any
type with the operations the thresholds use; `%q` and the payload as the filter parses
it stay parameters. -/
namespace NatsExplorer.Alerts
open Go

class Numbers (F : Type) where
  zero : F
  add : F → F → F
  lt : F → F → Bool
  /-- A sum by a count. -/
  mean : F → Int → F
  ofInt : Int → F
  finite : F → Bool
  /-- A whole number below 1e15. -/
  whole : F → Option Int
  /-- `FormatFloat(f, 'f', prec, 64)` -/
  format : F → Int → Str

/-- A payload: the normalized JSON document, or the text. -/
inductive Value (F : Type) where
  | null
  | bool (b : Bool)
  | int (n : Int)
  | float (f : F)
  | string (s : Str)
  | array (items : List (Value F))
  | object (fields : List (Str × Value F))

class Payloads (F : Type) where
  /-- The payload in `VarsOf`. -/
  payload : Record → Value F
  /-- `fmt.Sprint` -/
  sprint : Value F → Str
  /-- `%q` -/
  quote : Str → Str

def digits (n : Int) : Str := (toString n).toList

/-- A product of two `int64`. -/
def mul64 (a b : Int) : Int := (a * b).bmod (2 ^ 64)

section Field
variable {F : Type}

/-- `strconv.Atoi` -/
def atoi (s : Str) : Option Int :=
  let (negative, number) :=
    match s with
    | '-' :: number => (true, number)
    | '+' :: number => (false, number)
    | number => (false, number)
  if number = [] ∨ ¬ number.all Char.isDigit then none
  else
    let n : Int := number.foldl (fun n c => 10 * n + (c.toNat - '0'.toNat : Nat)) 0
    let n := if negative then -n else n
    if -2 ^ 63 ≤ n ∧ n < 2 ^ 63 then some n else none

def fieldIn (v : Value F) (tok : Str) : Option (Value F) :=
  match v with
  | .object fields => (fields.find? fun f => f.1 = tok).map Prod.snd
  | .array items =>
    match atoi tok with
    | some i => if 0 ≤ i then items[i.toNat]? else none
    | none => none
  | _ => none

/-- A field that is not there is not a zero. -/
def fieldAt (payload : Value F) (path : Str) : Option (Value F) :=
  (path.splitOn '.').foldlM fieldIn payload

variable [Numbers F]

def numberOf : Value F → Option F
  | .float f => if Numbers.finite f then some f else none
  | .int n => some (Numbers.ofInt n)
  | _ => none

def formatNumber (f : F) : Str :=
  match Numbers.whole f with
  | some n => digits n
  | none => Numbers.format f 2

def valueText [Payloads F] : Value F → Str
  | .string s => s
  | .float f => Numbers.format f (-1)
  | .null => "null".toList
  | v => Payloads.sprint v

end Field

def formatSeconds (s : Int) : Str :=
  if 3600 ≤ s ∧ s.tmod 3600 = 0 then digits (s.tdiv 3600) ++ " h".toList
  else if 120 ≤ s ∧ s.tmod 60 = 0 then digits (s.tdiv 60) ++ " min".toList
  else digits s ++ " s".toList

structure Rule (F : Type) where
  id : Str
  name : Str
  pattern : Str
  expr : Str := []
  staleAfter : Int := 0
  staleAuto : Bool := false
  severity : Str := []
  webhook : Str := []
  webhookFormat : Str := []
  email : Str := []
  enabled : Bool
  window : Int := 0
  minCount : Option Int := none
  maxCount : Option Int := none
  field : Str := []
  agg : Str := []
  above : Option F := none
  below : Option F := none
  unchangedFor : Int := 0
  mutedUntil : Int := 0

/-- Everything that decides when a rule fires. -/
structure Watch (F : Type) where
  pattern : Str
  expr : Str
  field : Str
  agg : Str
  staleAfter : Int
  staleAuto : Bool
  window : Int
  unchangedFor : Int
  minCount : Option Int
  maxCount : Option Int
  above : Option F
  below : Option F
  deriving DecidableEq

structure Maintenance where
  id : Str
  name : Str
  from_ : Int
  to_ : Int
  patterns : List Str

/-- The window is on and includes the subject. -/
def Maintenance.covers (m : Maintenance) (subject : Str) (now : Int) : Bool :=
  if now < m.from_ ∨ m.to_ ≤ now then false
  else m.patterns = [] || m.patterns.any fun p => matchSubject p subject

def maxWindow : Int := 24 * 3600

/-- `recipients` splits the address list of a rule. -/
def recipients (list : Str) : List Str :=
  (list.splitOnP fun c => c = ',' || c = ';' || c = ' ').filter (· ≠ [])

/-- `strings.ContainsAny(s, " \t\n")` -/
def spaced (s : Str) : Bool := s.any fun c => c = ' ' || c = '\t' || c = '\n'

namespace Rule
variable {F : Type}

def hasAggregate (r : Rule F) : Bool := r.field ≠ [] && (r.above.isSome || r.below.isSome)

def hasWindow (r : Rule F) : Bool :=
  0 < r.window && (r.minCount.isSome || r.maxCount.isSome || r.hasAggregate)

def needsField (r : Rule F) : Bool := r.field ≠ [] && (r.hasAggregate || 0 < r.unchangedFor)

def hasCondition (r : Rule F) : Bool :=
  r.expr ≠ [] || 0 < r.staleAfter || r.staleAuto || r.hasWindow || 0 < r.unchangedFor

/-- The source compares the JSON texts. -/
def watch (r : Rule F) : Watch F where
  pattern := r.pattern
  expr := r.expr
  field := r.field
  agg := r.agg
  staleAfter := r.staleAfter
  staleAuto := r.staleAuto
  window := r.window
  unchangedFor := r.unchangedFor
  minCount := r.minCount
  maxCount := r.maxCount
  above := r.above
  below := r.below

section Validate
variable [Tables]

def trimmed (r : Rule F) : Rule F := { r with
  name := strings.trimSpace r.name
  pattern := strings.trimSpace r.pattern
  expr := strings.trimSpace r.expr
  webhook := strings.trimSpace r.webhook }

/-- A rule with its defaults. -/
def completed (r : Rule F) : Rule F :=
  let agg := strings.trimSpace r.agg
  { r.trimmed with
    severity := if r.severity = [] then "warning".toList else r.severity
    email := strings.trimSpace r.email
    field := strings.trimSpace r.field
    agg := if (r.above.isSome || r.below.isSome) && agg = [] then "avg".toList else agg }

variable [Filter.Compiler] [Payloads F]

/-- What is wrong with a rule, in the order in which it is looked for. Whether there is a
condition is asked before the field is trimmed. -/
def checks (r : Rule F) : List (Bool × Str) :=
  let quote := Payloads.quote F
  let c := r.completed
  let threshold := c.above.isSome || c.below.isSome
  let texts : List (Bool × Str) := [
   (c.name = [], "a rule needs a name".toList),
   (c.pattern = [] || spaced c.pattern, "a rule needs a subject pattern without whitespace".toList),
   (!r.trimmed.hasCondition,
    "a rule needs a condition: an expression, a silence, a count or a threshold over a window, or an unchanged value".toList),
   (match Filter.Compiler.compile c.expr with
    | .error err => (c.expr ≠ [], "expression: ".toList ++ err)
    | .ok _ => (false, [])),
   (c.staleAfter < 0, "the stale timeout cannot be negative".toList),
   (c.severity ∉ ["info".toList, "warning".toList, "critical".toList],
    "severity ".toList ++ quote c.severity ++ " is not info, warning or critical".toList),
   (c.webhook ≠ [] && !strings.hasPrefix c.webhook "http://".toList &&
      !strings.hasPrefix c.webhook "https://".toList, "the webhook must be an http(s) URL".toList),
   (c.webhookFormat ∉ [[], "json".toList, "slack".toList, "teams".toList],
    "webhook format ".toList ++ quote c.webhookFormat ++ " is not json, slack or teams".toList)]
  let addresses := (recipients c.email).map fun a =>
    (!strings.contains a ['@'], quote a ++ " is not an email address".toList)
  let windows : List (Bool × Str) := [
   (c.window < 0 || maxWindow < c.window,
    "the window must be between 1 s and ".toList ++ digits (maxWindow / 3600) ++ " h".toList),
   (c.unchangedFor < 0, "the unchanged time cannot be negative".toList),
   ((c.minCount.isSome || c.maxCount.isSome || threshold) && c.window ≤ 0,
    "a count or a threshold over time needs a window".toList),
   (c.minCount.any (· < 0) || c.maxCount.any (· < 0), "a message count cannot be negative".toList),
   (threshold && c.field = [], "a threshold over time needs a field".toList),
   (threshold && c.agg ∉ ["avg".toList, "min".toList, "max".toList],
    "aggregate ".toList ++ quote c.agg ++ " is not avg, min or max".toList)]
  texts ++ addresses ++ windows

def validate (r : Rule F) : Except Str (Rule F) :=
  match r.checks.find? (·.1) with
  | some (_, err) => .error err
  | none => .ok r.completed

theorem validate_completed {r r' : Rule F} (ok : r.validate = .ok r') : r' = r.completed := by
  unfold validate at ok
  split at ok
  · cases ok
  · cases ok
    rfl

end Validate

/-- The preview says what was counted and against what. -/
def rateVerdict (r : Rule F) (count : Int) : Bool × Str :=
  let messages := if count = 1 then "1 message in ".toList else digits count ++ " messages in ".toList
  let seen := messages ++ formatSeconds r.window
  match r.minCount.filter (count < ·), r.maxCount.filter (· < count) with
  | some least, _ => (true, seen ++ ", fewer than ".toList ++ digits least)
  | none, some most => (true, seen ++ ", more than ".toList ++ digits most)
  | none, none => (false, seen)

variable [Numbers F]

/-- Without a value in the window there is nothing to judge. -/
def levelVerdict (r : Rule F) (n : Int) (sum min max : F) : Bool × Str :=
  if n = 0 then (false, [])
  else
    let v :=
      if r.agg = "min".toList then min else if r.agg = "max".toList then max else Numbers.mean sum n
    let seen := r.agg ++ ' ' :: r.field ++ ' ' :: formatNumber v ++ " over ".toList ++ formatSeconds r.window
    match r.above.filter (Numbers.lt · v), r.below.filter (Numbers.lt v ·) with
    | some above, _ => (true, seen ++ ", above ".toList ++ formatNumber above)
    | none, some below => (true, seen ++ ", below ".toList ++ formatNumber below)
    | none, none => (false, seen)

end Rule
end NatsExplorer.Alerts
