import NatsExplorer.Go.Json
import NatsExplorer.Library.Pruning
import NatsExplorer.Message.Payload
import Mathlib.Data.Rat.Defs

/-! The structure of a subject's JSON payloads, from its recorded messages (`internal/schema`): the paths of
their documents, what was seen at each of them, and where the newer half of the messages differs from the
older. A `float64` is any type with an order; how the standard library writes values, reads numbers and
recognizes times stays a parameter. -/
namespace NatsExplorer.schema
open Go Go.json

/-- Nesting; deeper levels are counted as their container type only. -/
def maxDepth : ℕ := 6
/-- The number of distinct paths reported. -/
def maxFields : ℕ := 200
def maxExample : ℕ := 80
/-- The most distinct strings a field may have to count as an enumeration, and the fewest samples it needs. -/
def enumMax : ℕ := 8
def enumMinSamples : ℕ := 10
/-- The presence a field needs in one half to count as established there. -/
def driftPresence : ℚ := 4 / 5
/-- The fewest JSON messages a half needs before the halves are compared at all. -/
def driftMinSamples : ℕ := 5

class Formats (F : Type) where
  /-- `json.Number.Float64`, when the number is in range. -/
  float : Str → Option F
  lt : F → F → Bool
  /-- `json.Marshal` -/
  marshal : Value → Str
  /-- `strconv.Quote` -/
  quote : Str → Str
  /-- Whether `time.Parse` reads the text as RFC 3339. -/
  rfc3339 : Str → Bool

inductive JsonType where
  | null
  | bool
  | integer
  | number
  | string
  | object
  | array
  deriving DecidableEq, Repr

def JsonType.name : JsonType → Str
  | .null => "null".toList
  | .bool => "bool".toList
  | .integer => "integer".toList
  | .number => "number".toList
  | .string => "string".toList
  | .object => "object".toList
  | .array => "array".toList

structure TypeCount where
  type : JsonType
  count : ℕ
  deriving DecidableEq, Repr

/-- One path of the payloads. -/
structure Field (F : Type) where
  path : Str
  types : List TypeCount
  presence : ℚ
  example_ : Str
  min : Option F
  max : Option F
  enum : List Str
  format : Str

inductive Drift.Kind where
  | typeChanged
  | fieldGone
  | fieldNew
  deriving DecidableEq, Repr

/-- A difference between the older and the newer half of the samples. -/
structure Drift where
  path : Str
  kind : Drift.Kind
  before : Option JsonType
  after : Option JsonType
  since : Int
  deriving DecidableEq, Repr

/-- The result of `Infer`. -/
structure Schema (F : Type) where
  samples : ℕ
  kinds : Map Kind ℕ
  fields : List (Field F)
  drift : List Drift
  /-- The payloads have more paths than `MaxFields`, so the field list is a beginning. -/
  truncated : Bool
  fromTs : Int
  toTs : Int

/-! ### Documents -/

/-- `Decoder.More`: something follows that does not end a container. -/
def more (rest : List UInt8) : Bool :=
  match rest.dropWhile isSpace with
  | [] => false
  | b :: _ => b ≠ 93 && b ≠ 125

/-- The document of a payload, which must be all there is. -/
def decode [Recognizer] (payload : Str) : Option Value :=
  match Recognizer.value (utf8 payload) with
  | some (doc, rest) => if more rest then none else some doc
  | none => none

/-- A `map[string]any` has the last value of a key. -/
def member (members : List (Str × Value)) (key : Str) : Value :=
  match members.reverse.find? (·.1 = key) with
  | some (_, v) => v
  | none => .null

def sortedKeys (members : List (Str × Value)) : List Str := (members.map Prod.fst).dedup.mergeSort (· ≤ ·)

/-- What the path of a member is called. -/
def memberPath (path key : Str) : Str := if path = [] then key else path ++ '.' :: key

def itemPath (path : Str) : Str := path ++ "[]".toList

/-- What `WalkDoc` goes on to below a value. -/
def below : Str × Value → List (Str × Value)
  | (path, .object members) => (sortedKeys members).map fun key => (memberPath path key, member members key)
  | (path, .array items) => items.map fun item => (itemPath path, item)
  | _ => []

section Walk
variable {S : Type}

/-- The root has no name and is not visited, nor is a value under an empty key of it. -/
def named (visit : Str → Value → S → Bool × S) (n : Str × Value) (s : S) : Bool × S :=
  if n.1 = [] then (true, s) else visit n.1 n.2 s

/-- Visits every path of a document, members in the order of their names. -/
def WalkDoc (path : Str) (v : Value) (depth : ℕ) (visit : Str → Value → S → Bool × S) (s : S) : S :=
  Pruning.walk below (named visit) (maxDepth - depth) (path, v) s

end Walk

/-- A number written without a fraction or an exponent. -/
def intLiteral (text : Str) : Bool :=
  let digits := match text with
    | '-' :: digits => digits
    | digits => digits
  decide (digits ≠ []) && digits.all Char.isDigit

def typeOf : Value → JsonType
  | .null => .null
  | .bool _ => .bool
  | .number text => if intLiteral text then .integer else .number
  | .string _ => .string
  | .object _ => .object
  | .array _ => .array

section Collect
variable {F : Type} [Formats F]

def numeric : Value → Option F
  | .number text => Formats.float text
  | _ => none

/-- The runes that fit into so many bytes. -/
def cut : ℕ → Str → Str
  | _, [] => []
  | room, c :: s => if c.utf8Size ≤ room then c :: cut (room - c.utf8Size) s else []

variable (F) in
def example_ (v : Value) : Str :=
  let s := match v with
    | .string text => Formats.quote F text
    | v => Formats.marshal F v
  if maxExample < byteLen s then cut (maxExample - 1) s ++ ['…'] else s

/-- What was seen at one path. -/
structure Stat (F : Type) where
  types : Map JsonType ℕ := ∅
  present : ℕ := 0
  example_ : Str := []
  /-- The smallest and the largest number. -/
  range : Option (F × F) := none
  strings : List Str := []
  tooMany : Bool := false
  strCount : ℕ := 0
  /-- The strings that are RFC 3339 timestamps. -/
  dates : ℕ := 0
  /-- The order the path was met in. -/
  first : ℕ

def newStat (first : ℕ) : Stat F := { first }

/-- One more in a `map[K]int`. -/
def bump {K : Type} [DecidableEq K] (counts : Map K ℕ) (k : K) : Map K ℕ := counts.insert k ((counts.lookup k).getD 0 + 1)

namespace Stat

def widen (range : Option (F × F)) (f : F) : F × F :=
  match range with
  | none => (f, f)
  | some (min, max) => (if Formats.lt f min then f else min, if Formats.lt max f then f else max)

/-- A string is kept as long as there are few of them. -/
def collect (st : Stat F) (s : Str) : Stat F :=
  let st := { st with strCount := st.strCount + 1, dates := if Formats.rfc3339 F s then st.dates + 1 else st.dates }
  if st.tooMany then st
  else
    let strings := if s ∈ st.strings then st.strings else s :: st.strings
    if enumMax < strings.length then { st with tooMany := true, strings := [] } else { st with strings := strings }

def observe (st : Stat F) (v : Value) : Stat F :=
  let st := { st with types := bump st.types (typeOf v), example_ := if st.example_ = [] then schema.example_ F v else st.example_ }
  let st := match numeric v with
    | some f => { st with range := some (widen st.range f) }
    | none => st
  match v with
  | .string s => st.collect s
  | _ => st

end Stat

/-- Walks documents and keeps one stat for each path. -/
structure Collector (F : Type) where
  paths : Map Str (Stat F) := ∅
  order : ℕ := 0
  samples : ℕ := 0
  /-- A path was met after the budget was spent. -/
  dropped : Bool := false

def newCollector : Collector F := {}

namespace Collector

/-- The stat of a path, if the budget allows one. -/
def stat (c : Collector F) (path : Str) : Option (Stat F) × Collector F :=
  match c.paths.lookup path with
  | some st => (some st, c)
  | none =>
    if maxFields ≤ c.paths.keys.length then (none, { c with dropped := true })
    else
      let st := newStat c.order
      (some st, { c with paths := c.paths.insert path st, order := c.order + 1 })

/-- The visitor of `walk`, with the paths this document has shown already. -/
def visit (path : Str) (v : Value) (s : Collector F × List Str) : Bool × (Collector F × List Str) :=
  let (c, seen) := s
  match c.stat path with
  | (none, c) => (false, (c, seen))
  | (some st, c) =>
    let (st, seen) := if path ∈ seen then (st, seen) else ({ st with present := st.present + 1 }, path :: seen)
    (true, ({ c with paths := c.paths.insert path (st.observe v) }, seen))

/-- Records a document. -/
def add (c : Collector F) (doc : Value) : Collector F :=
  (WalkDoc [] doc 0 visit ({ c with samples := c.samples + 1 }, [])).1

end Collector

/-- Integers count as numbers where both were seen. -/
def numbersMerged (types : Map JsonType ℕ) : Map JsonType ℕ :=
  let integers := (types.lookup .integer).getD 0
  let numbers := (types.lookup .number).getD 0
  if integers = 0 ∨ numbers = 0 then types
  else (types.insert .number (numbers + integers)).erase .integer

/-- Most frequent first. -/
def TypeCount.before (a b : TypeCount) : Bool :=
  if a.count ≠ b.count then decide (b.count < a.count) else decide (a.type.name < b.type.name)

omit [Formats F] in
def Stat.field (rt : Runtime) (samples : ℕ) (path : Str) (st : Stat F) : Field F where
  path := path
  types := rt.sortSlice TypeCount.before ((rt.range (numbersMerged st.types).entries).map fun e => ⟨e.1, e.2⟩)
  presence := st.present / max 1 samples
  example_ := st.example_
  min := st.range.map Prod.fst
  max := st.range.map Prod.snd
  format := if 0 < st.strCount ∧ st.dates = st.strCount then "date-time".toList else []
  enum :=
    if ¬ st.tooMany ∧ enumMinSamples ≤ st.strCount ∧ 0 < st.strings.length ∧ st.strings.length ≤ enumMax then
      st.strings.mergeSort (· ≤ ·)
    else []

/-- The fields in the order their paths were met. -/
def Collector.fields (rt : Runtime) (c : Collector F) : List (Field F) :=
  (rt.sortSlice (fun a b => decide (a.2.first < b.2.first)) (rt.range c.paths.entries)).map fun e =>
    e.2.field rt c.samples e.1

/-! ### Drift -/

/-- The most frequent type. A null stands for no value yet and only wins when nothing else was seen. -/
def Stat.dominant (rt : Runtime) (st : Stat F) : Option JsonType :=
  let (best, _) := (rt.range st.types.entries).foldl (fun (best, n) ⟨t, count⟩ =>
    if t = .null then (best, n)
    else if n < (count : Int) ∨ (count : Int) = n ∧ ∃ b ∈ best, t.name < b.name then (some t, (count : Int))
    else (best, n)) ((none : Option JsonType), (-1 : Int))
  if best = none ∧ 0 < (st.types.lookup .null).getD 0 then some .null else best

/-- The name the halves are compared by. -/
def comparable (t : Option JsonType) : Option JsonType := if t = some .integer then some .number else t

def presence (c : Collector F) (path : Str) : ℚ :=
  match c.paths.lookup path with
  | none => 0
  | some st => st.present / max 1 c.samples

/-- What a path that either half has shows of a change. -/
def driftAt (rt : Runtime) (older newer : Collector F) (since : Int) (p : Str) : Option Drift :=
  let type (c : Collector F) := (c.paths.lookup p).bind (Stat.dominant rt)
  let before := presence older p
  let after := presence newer p
  if driftPresence ≤ before ∧ after = 0 then some ⟨p, .fieldGone, type older, none, since⟩
  else if before = 0 ∧ driftPresence ≤ after then some ⟨p, .fieldNew, none, type newer, since⟩
  else if 0 < before ∧ 0 < after then
    let bt := type older
    let at_ := type newer
    if bt = some .null ∨ at_ = some .null then none
    else if comparable bt ≠ comparable at_ then some ⟨p, .typeChanged, bt, at_, since⟩
    else none
  else none

/-- Compares the halves: fields that vanished or are new, and types that changed. -/
def drift (rt : Runtime) (older newer : Collector F) (since : Int) : List Drift :=
  if older.samples < driftMinSamples ∨ newer.samples < driftMinSamples then []
  else
    ((older.paths.keys ++ newer.paths.keys).dedup.mergeSort (· ≤ ·)).filterMap (driftAt rt older newer since)

/-! ### Infer -/

/-- What one pass over the messages collects. -/
structure Pass (F : Type) where
  kinds : Map Kind ℕ := ∅
  all : Collector F := {}
  older : Collector F := {}
  newer : Collector F := {}

/-- One message of the pass, with its place among all. -/
def Pass.take [Recognizer] (n : ℕ) (s : Pass F) (entry : NatsMessage × ℕ) : Pass F :=
  let (m, i) := entry
  if m.payloadType ≠ .json then { s with kinds := bump s.kinds m.payloadType }
  else
    match decode m.payload with
    | none =>
      -- counted as JSON first, and taken back
      { s with kinds := bump (s.kinds.insert .json ((s.kinds.lookup .json).getD 0)) .string }
    | some doc =>
      let s := { s with kinds := bump s.kinds .json, all := s.all.add doc }
      if n < 2 then s
      else if i < n / 2 then { s with older := s.older.add doc }
      else { s with newer := s.newer.add doc }

/-- The schema of the messages; the halves for drift are split by timestamp. -/
def Infer [Recognizer] (rt : Runtime) (msgs : List NatsMessage) : Schema F :=
  let sorted := msgs.mergeSort fun a b => a.timestamp ≤ b.timestamp
  match sorted.head?, sorted.getLast? with
  | some first, some last =>
    let n := sorted.length
    let pass : Pass F := sorted.zipIdx.foldl (Pass.take n) {}
    { samples := n
      kinds := pass.kinds
      fields := pass.all.fields rt
      truncated := pass.all.dropped
      fromTs := first.timestamp
      toTs := last.timestamp
      drift :=
        if 2 ≤ n ∧ 0 < pass.older.samples ∧ 0 < pass.newer.samples then
          drift rt pass.older pass.newer ((sorted[n / 2]?.map NatsMessage.timestamp).getD 0)
        else [] }
  | _, _ => { samples := 0, kinds := ∅, fields := [], drift := [], truncated := false, fromTs := 0, toTs := 0 }

end Collect
end NatsExplorer.schema
