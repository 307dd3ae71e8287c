import NatsExplorer.Client.Strings
import NatsExplorer.Connection.Saved

/-! Templates of requests, the drafts they are edited as, and the file they travel in (`client/src/lib/savedRequests.ts`). -/
namespace NatsExplorer.Client
open Go

namespace savedRequests

inductive RequestMode where
  | publish | request
  deriving DecidableEq

inductive PayloadFormat where
  | json | text | xml | html | hex | base64 | protobuf
  deriving DecidableEq

def PayloadFormat.id : PayloadFormat → Str
  | .json => "json".toList
  | .text => "text".toList
  | .xml => "xml".toList
  | .html => "html".toList
  | .hex => "hex".toList
  | .base64 => "base64".toList
  | .protobuf => "protobuf".toList

def payloadFormats : List PayloadFormat := [.json, .text, .xml, .html, .hex, .base64, .protobuf]

/-- A number of the browser over its finite ones, of which 0 and -0 are one. -/
inductive Number (N : Type) where
  | finite (n : N)
  | infinite (negative : Bool)
  | nan
  deriving DecidableEq

structure HeaderPair where
  key : Str
  value : Str
  deriving DecidableEq

structure Expectation (N : Type) where
  expr : Option Str := none
  maxLatencyMs : Option N := none
  deriving DecidableEq

/-- A reusable template, stored in this browser. -/
structure SavedRequest (N : Type) where
  id : Str
  name : Str
  mode : RequestMode
  subject : Str
  payload : Str
  format : Option PayloadFormat
  headers : List HeaderPair
  timeout : Option (Number N)
  count : Option (Number N)
  concurrency : Option (Number N)
  intervalMs : Option (Number N)
  expect : Option (Expectation N)
  updatedAt : N

/-- Editable form state. -/
structure RequestDraft (N : Type) where
  mode : RequestMode
  subject : Str
  payload : Str
  format : PayloadFormat
  headers : List HeaderPair
  timeout : Number N
  count : Number N
  concurrency : Number N
  intervalMs : Number N
  expectExpr : Str
  expectMaxLatencyMs : Number N

/-- What the browser brings. `JSON.stringify` prints documents so that `JSON.parse` reads them back. -/
class Browser (N : Type) where
  /-- `JSON.stringify`, in lines or in one. -/
  stringify (indented : Bool) : Json (Number N) → Str
  parse : Str → Option (Json (Number N))
  parse_stringify {indented : Bool} {v : Json (Number N)} : v.Regular → parse (stringify indented v) = some v
  /-- `String` of what is no text. -/
  string : Json (Number N) → Str

variable {N : Type} [LinearOrder N] [OfNat N 0] [OfNat N 1] [OfNat N 5000]

def Number.above (limit : N) : Number N → Bool
  | .finite n => decide (limit < n)
  | .infinite negative => !negative
  | .nan => false

/-- A bound that says something. -/
def bound : Option (Number N) → Option N
  | some (.finite n) => if 0 < n then some n else none
  | _ => none

/-- The expectation as a file or a form holds it, or nothing when it says nothing. -/
def cleanExpectation (expr : Option Str) (maxLatencyMs : Option (Number N)) : Option (Expectation N) :=
  let expr := (expr.map Connection.trim).filter (· ≠ [])
  let maxLatencyMs := bound maxLatencyMs
  if expr.isSome ∨ maxLatencyMs.isSome then some { expr := expr, maxLatencyMs := maxLatencyMs } else none

/-! ### Drafts -/

/-- The draft's expectation as the API takes it, or nothing. -/
def expectationOf (d : RequestDraft N) : Option (Expectation N) := cleanExpectation (some d.expectExpr) (some d.expectMaxLatencyMs)

def draftFromSaved (t : SavedRequest N) : RequestDraft N where
  mode := t.mode
  subject := t.subject
  payload := t.payload
  format := t.format.getD .json
  headers := t.headers
  timeout := t.timeout.getD (.finite 5000)
  count := t.count.getD (.finite 1)
  concurrency := t.concurrency.getD (.finite 1)
  intervalMs := t.intervalMs.getD (.finite 0)
  expectExpr := (t.expect.bind Expectation.expr).getD []
  expectMaxLatencyMs := .finite ((t.expect.bind Expectation.maxLatencyMs).getD 0)

/-- The headers that have a name. -/
def named (headers : List HeaderPair) : List HeaderPair := headers.filter fun h => Connection.trim h.key ≠ []

/-- Applies a draft to a template, of which the id and the name are kept. -/
def savedFromDraft (d : RequestDraft N) (id name : Str) (now : N) : SavedRequest N :=
  let repeated := d.count.above 1
  { id := id
    name := name
    mode := d.mode
    subject := Connection.trim d.subject
    payload := d.payload
    format := if d.format = .json then none else some d.format
    headers := named d.headers
    timeout := if d.mode = .request then some d.timeout else none
    count := if repeated then some d.count else none
    concurrency := if repeated then some d.concurrency else none
    intervalMs := if repeated ∧ d.intervalMs.above 0 then some d.intervalMs else none
    expect := expectationOf d
    updatedAt := now }

/-! ### Texts -/

def RequestMode.text : RequestMode → Str
  | .publish => "publish".toList
  | .request => "request".toList

/-- A number as `JSON.stringify` has it: null where it is not finite. -/
def ofNumber : Number N → Json (Number N)
  | .finite n => .number (.finite n)
  | _ => .null

def ofHeader (h : HeaderPair) : Json (Number N) := .object [("key".toList, .string h.key), ("value".toList, .string h.value)]

/-- What of a template is compared. -/
def norm (x : SavedRequest N) : Json (Number N) :=
  .array [.string x.mode.text, .string x.subject, .string x.payload, (x.format.map fun f => .string f.id).getD .null,
    .array (x.headers.map ofHeader), (x.timeout.map ofNumber).getD .null, (x.count.map ofNumber).getD .null,
    (x.concurrency.map ofNumber).getD .null, (x.intervalMs.map ofNumber).getD .null]

def ofExpectation (e : Expectation N) : Json (Number N) :=
  .object (Json.defined [("expr".toList, e.expr.map .string), ("maxLatencyMs".toList, e.maxLatencyMs.map fun n => .number (.finite n))])

def ofSaved (x : SavedRequest N) : Json (Number N) :=
  .object (Json.defined [("id".toList, some (.string x.id)), ("name".toList, some (.string x.name)), ("mode".toList, some (.string x.mode.text)),
    ("subject".toList, some (.string x.subject)), ("payload".toList, some (.string x.payload)),
    ("format".toList, x.format.map fun f => .string f.id), ("headers".toList, some (.array (x.headers.map ofHeader))),
    ("timeout".toList, x.timeout.map ofNumber), ("count".toList, x.count.map ofNumber), ("concurrency".toList, x.concurrency.map ofNumber),
    ("intervalMs".toList, x.intervalMs.map ofNumber), ("expect".toList, x.expect.map ofExpectation),
    ("updatedAt".toList, some (.number (.finite x.updatedAt)))])

/-- A property of what `JSON.parse` gave; none is undefined. -/
def property (r : Json (Number N)) (k : String) : Option (Json (Number N)) :=
  match r with
  | .object members => members.lookup k.toList
  | _ => none

def isObject : Json (Number N) → Bool
  | .array _ | .object _ => true
  | _ => false

def stringOf : Option (Json (Number N)) → Option Str
  | some (.string s) => some s
  | _ => none

def numberOf : Option (Json (Number N)) → Option (Number N)
  | some (.number n) => some n
  | _ => none

/-- A number a template may hold. -/
def num (v : Option (Json (Number N))) : Option N :=
  match v with
  | some (.number (.finite n)) => if 0 ≤ n then some n else none
  | _ => none

section
variable [Browser N]

omit [LinearOrder N] [OfNat N 0] [OfNat N 1] [OfNat N 5000] in
/-- `String(v ?? '')` -/
def textOf : Option (Json (Number N)) → Str
  | none | some .null => []
  | some (.string s) => s
  | some v => Browser.string v

/-- True when the draft differs from what the template stores. -/
def draftDiffers (d : RequestDraft N) (t : SavedRequest N) (now : N) : Bool :=
  let a := savedFromDraft d t.id t.name now
  decide (Browser.stringify false (norm a) ≠ Browser.stringify false (norm { t with headers := named t.headers }))

/-- A small envelope so files are recognisable, items inside. -/
def serializeCollection (exportedAt : Str) (items : List (SavedRequest N)) : Str :=
  Browser.stringify true (.object [("format".toList, .string "nats-explorer-requests".toList), ("version".toList, .number (.finite 1)),
    ("exportedAt".toList, .string exportedAt), ("items".toList, .array (items.map ofSaved))])

/-- What is read from one entry, with an id and a time for what has none. -/
def readItem (uuid : Str) (now : N) (r : Json (Number N)) : Option (SavedRequest N) := do
  if ¬ isObject r then none
  else
    let subject ← stringOf (property r "subject")
    let headers := match property r "headers" with
      | some (.array items) => ((items.filter isObject).map fun h =>
          { key := textOf (property h "key"), value := textOf (property h "value") : HeaderPair }).filter (·.key ≠ [])
      | _ => []
    let expect := match property r "expect" with
      | some e => if isObject e then cleanExpectation (stringOf (property e "expr")) (numberOf (property e "maxLatencyMs")) else none
      | none => none
    some
      { id := ((stringOf (property r "id")).filter (· ≠ [])).getD uuid
        name := (stringOf (property r "name")).getD []
        mode := if stringOf (property r "mode") = some "request".toList then .request else .publish
        subject := subject
        payload := (stringOf (property r "payload")).getD []
        format := (stringOf (property r "format")).bind fun s => payloadFormats.find? (·.id = s)
        headers := headers
        timeout := (num (property r "timeout")).map .finite
        count := (num (property r "count")).map .finite
        concurrency := (num (property r "concurrency")).map .finite
        intervalMs := (num (property r "intervalMs")).map .finite
        expect := expect
        updatedAt := (num (property r "updatedAt")).getD now }

/-- The entries of a file: the envelope's items or a bare array. -/
def entries (parsed : Json (Number N)) : List (Json (Number N)) :=
  match parsed with
  | .array items => items
  | _ =>
    match property parsed "items" with
    | some (.array items) => items
    | _ => []

/-- The well-formed items of a text; none where it is no JSON. Each entry has an id and a time of its own to fall back on. -/
def parseCollection (uuid : ℕ → { id : Str // id ≠ [] }) (now : ℕ → { n : N // 0 ≤ n }) (text : Str) : Option (List (SavedRequest N)) :=
  (Browser.parse text).map fun parsed => (entries parsed).zipIdx.filterMap fun (r, i) => readItem (uuid i) (now i) r

end

/-! ### What the comparison sees -/

/-- What JSON keeps of a number. -/
def kept : Option (Number N) → Option N
  | some (.finite n) => some n
  | _ => none

/-- Two templates that are stored alike, as far as they are compared. -/
structure SameStored (x y : SavedRequest N) : Prop where
  mode : x.mode = y.mode
  subject : x.subject = y.subject
  payload : x.payload = y.payload
  format : x.format = y.format
  headers : x.headers = y.headers
  timeout : kept x.timeout = kept y.timeout
  count : kept x.count = kept y.count
  concurrency : kept x.concurrency = kept y.concurrency
  intervalMs : kept x.intervalMs = kept y.intervalMs

omit [LinearOrder N] [OfNat N 0] [OfNat N 1] [OfNat N 5000] in
theorem ofNumber_kept (a b : Option (Number N)) : (a.map ofNumber).getD .null = (b.map ofNumber).getD .null ↔ kept a = kept b := by
  have shape (a : Option (Number N)) : (a.map ofNumber).getD .null = ((kept a).map fun n => Json.number (.finite n)).getD .null := by
    cases a with
    | none => rfl
    | some n => cases n <;> rfl
  rw [shape, shape]
  cases kept a <;> cases kept b <;> simp

omit [LinearOrder N] [OfNat N 0] [OfNat N 1] [OfNat N 5000] in
theorem norm_eq (x y : SavedRequest N) : norm x = norm y ↔ SameStored x y := by
  have modes (a b : RequestMode) : a.text = b.text ↔ a = b := by
    cases a <;> cases b <;> decide
  have ids (a b : PayloadFormat) : a.id = b.id ↔ a = b := by
    cases a <;> cases b <;> decide
  have formats (a b : Option PayloadFormat) : (a.map fun f => (Json.string f.id : Json (Number N))).getD .null =
      (b.map fun f => Json.string f.id).getD .null ↔ a = b := by
    cases a <;> cases b <;> simp [ids]
  have headers (a b : List HeaderPair) : a.map (ofHeader (N := N)) = b.map ofHeader ↔ a = b := by
    refine List.map_inj_right fun h h' same => ?_
    cases h
    cases h'
    simpa [ofHeader] using same
  unfold norm
  simp only [Json.array.injEq, List.cons.injEq, Json.string.injEq, and_true, modes, formats, headers, ofNumber_kept]
  exact ⟨fun ⟨a, b, c, d, e, f, g, h, i⟩ => ⟨a, b, c, d, e, f, g, h, i⟩, fun ⟨a, b, c, d, e, f, g, h, i⟩ => ⟨a, b, c, d, e, f, g, h, i⟩⟩

omit [LinearOrder N] [OfNat N 0] [OfNat N 1] [OfNat N 5000] in
theorem headers_regular (x : SavedRequest N) : (Json.array (x.headers.map (ofHeader (N := N)))).Regular := by
  refine .array fun v member => ?_
  obtain ⟨h, -, rfl⟩ := List.mem_map.mp member
  have keys : ["key".toList, "value".toList].Nodup ∧ ∀ k ∈ ["key".toList, "value".toList], ¬ k.all Char.isDigit := by decide
  exact .object keys.1 keys.2 (by simp [Json.Regular.string])

omit [LinearOrder N] [OfNat N 0] [OfNat N 1] [OfNat N 5000] in
theorem norm_regular (x : SavedRequest N) : (norm x).Regular := by
  have number (a : Option (Number N)) : ((a.map ofNumber).getD .null).Regular := by
    cases a with
    | none => exact .null
    | some n => cases n <;> first | exact .number _ | exact .null
  have format (a : Option PayloadFormat) : ((a.map fun f => (Json.string f.id : Json (Number N))).getD .null).Regular := by
    cases a with
    | none => exact .null
    | some f => exact .string _
  have headers := headers_regular x
  refine .array ?_
  simp only [List.forall_mem_cons]
  exact ⟨.string _, .string _, .string _, format _, headers, number _, number _, number _, number _, nofun⟩

omit [OfNat N 5000] in
theorem draftDiffers_eq [Browser N] (d : RequestDraft N) (t : SavedRequest N) (now : N) :
    draftDiffers d t now = false ↔ SameStored (savedFromDraft d t.id t.name now) { t with headers := named t.headers } := by
  rw [← norm_eq, draftDiffers, decide_eq_false_iff_not, not_not]
  refine ⟨fun same => ?_, congrArg _⟩
  have read := congrArg (Browser.parse (N := N)) same
  rw [Browser.parse_stringify (norm_regular _), Browser.parse_stringify (norm_regular _)] at read
  exact Option.some.inj read

/-! ### What a draft and a template mean -/

def Number.isFinite : Number N → Prop
  | .finite _ => True
  | _ => False

/-- The numbers of a draft that are saved are finite. -/
structure Countable (d : RequestDraft N) : Prop where
  timeout : d.mode = .request → d.timeout.isFinite
  count : d.count.above 1 → d.count.isFinite
  concurrency : d.count.above 1 → d.concurrency.isFinite
  intervalMs : d.count.above 1 → d.intervalMs.above 0 → d.intervalMs.isFinite

/-- A draft and a template send the same, headers without a name apart. -/
structure Alike (d : RequestDraft N) (t : SavedRequest N) : Prop where
  mode : d.mode = t.mode
  subject : Connection.trim d.subject = t.subject
  payload : d.payload = t.payload
  format : d.format = t.format.getD .json
  headers : named d.headers = named t.headers
  timeout : (if d.mode = .request then d.timeout else .finite 5000) = t.timeout.getD (.finite 5000)
  count : (if d.count.above 1 then d.count else .finite 1) = t.count.getD (.finite 1)
  concurrency : (if d.count.above 1 then d.concurrency else .finite 1) = t.concurrency.getD (.finite 1)
  intervalMs : (if d.count.above 1 ∧ d.intervalMs.above 0 then d.intervalMs else .finite 0) = t.intervalMs.getD (.finite 0)

/-- A template stores what saving stores: no default, and each number only where it counts. -/
structure Settled (t : SavedRequest N) : Prop where
  subject : Connection.trim t.subject = t.subject
  format : t.format ≠ some .json
  timeout : t.timeout.isSome ↔ t.mode = .request
  count : ∀ n, t.count = some n → n.above 1
  concurrency : t.concurrency.isSome ↔ t.count.isSome
  intervalMs : ∀ n, t.intervalMs = some n → n.above 0 ∧ t.count.isSome

/-- Every header of a template has a name. -/
def AllNamed (t : SavedRequest N) : Prop := ∀ h ∈ t.headers, Connection.trim h.key ≠ []

/-- When the comparison agrees with what the draft and the template mean. -/
def Decided (d : RequestDraft N) (t : SavedRequest N) (now : N) : Prop :=
  (Countable d → Alike d t → (Settled t ↔ AllNamed t ∧ expectationOf d = t.expect)) ∧
    (¬ Countable d → ¬ SameStored (savedFromDraft d t.id t.name now) { t with headers := named t.headers })

/-- What a file brings: finite numbers, and an expectation that says something. -/
structure Wellformed (t : SavedRequest N) : Prop where
  timeout : ∀ n, t.timeout = some n → n.isFinite
  count : ∀ n, t.count = some n → n.isFinite
  concurrency : ∀ n, t.concurrency = some n → n.isFinite
  intervalMs : ∀ n, t.intervalMs = some n → n.isFinite
  expect : ∃ expr maxLatencyMs, t.expect = cleanExpectation expr maxLatencyMs

omit [LinearOrder N] [OfNat N 0] [OfNat N 1] [OfNat N 5000] in
theorem kept_eq {a b : Option (Number N)} (left : ∀ n, a = some n → n.isFinite) (right : ∀ n, b = some n → n.isFinite) :
    kept a = kept b ↔ a = b := by
  have shape (a : Option (Number N)) (finite : ∀ n, a = some n → n.isFinite) : a = (kept a).map .finite := by
    cases a with
    | none => rfl
    | some n =>
      cases n with
      | finite n => rfl
      | _ => exact absurd (finite _ rfl) id
  refine ⟨fun same => ?_, congrArg kept⟩
  rw [shape a left, shape b right, same]

omit [LinearOrder N] [OfNat N 0] [OfNat N 1] [OfNat N 5000] in
/-- A number that is saved only where it counts is stored as it is, if the template means the same and stores no default. -/
theorem saved_eq {counts : Prop} [Decidable counts] {x : Number N} (fallback : Number N) {b : Option (Number N)} :
    (if counts then some x else none) = b ↔ (if counts then x else fallback) = b.getD fallback ∧ (b.isSome ↔ counts) := by
  by_cases holds : counts
  · simp only [if_pos holds, iff_true_right holds]
    cases b <;> simp
  · simp only [if_neg holds, iff_false_right holds]
    cases b <;> simp

omit [LinearOrder N] [OfNat N 0] [OfNat N 1] [OfNat N 5000] in
/-- Of two that mean the same, the template stores the number where it counts if it stores none that does not count. -/
theorem stored_iff {counts : Prop} [Decidable counts] {x fallback : Number N} {b : Option (Number N)} (large : Number N → Prop)
    (same : (if counts then x else fallback) = b.getD fallback) (yes : counts → large x) (no : ¬ large fallback) :
    (b.isSome ↔ counts) ↔ ∀ n, b = some n → large n := by
  by_cases holds : counts
  · rw [if_pos holds] at same
    cases b with
    | none =>
      obtain rfl : x = fallback := same
      exact absurd (yes holds) no
    | some n =>
      obtain rfl : x = n := same
      exact iff_of_true ⟨fun _ => holds, fun _ => rfl⟩ fun n there => Option.some.inj there ▸ yes holds
  · rw [if_neg holds] at same
    cases b with
    | none => exact iff_of_true ⟨fun there => absurd there Bool.false_ne_true, fun there => absurd there holds⟩ fun n there => nomatch there
    | some n =>
      obtain rfl : fallback = n := same
      exact iff_of_false (fun stored => holds (stored.mp rfl)) fun all => no (all _ rfl)

theorem trim_trim (s : Str) : Connection.trim (Connection.trim s) = Connection.trim s :=
  @strings.trimSpace_trimSpace { toLower := id, isSpace := Connection.trimmed, jsonValid := fun _ => true } s

omit [OfNat N 0] [OfNat N 1] [OfNat N 5000] in
theorem not_above (limit : N) : ¬ (Number.finite limit).above limit := by
  rw [Number.above, decide_eq_true_iff]
  exact lt_irrefl limit

theorem sameStored_iff {d : RequestDraft N} {t : SavedRequest N} (countable : Countable d) (wellformed : Wellformed t) (now : N) :
    SameStored (savedFromDraft d t.id t.name now) { t with headers := named t.headers } ↔ Alike d t ∧ Settled t := by
  have finite {counts : Prop} [Decidable counts] {x : Number N} (finite : counts → x.isFinite) :
      ∀ n, (if counts then some x else none) = some n → n.isFinite := by
    intro n there
    split at there
    · rename_i holds
      exact Option.some.inj there ▸ finite holds
    · cases there
  have timeout : kept (savedFromDraft d t.id t.name now).timeout = kept t.timeout ↔ _ :=
    (kept_eq (finite countable.timeout) wellformed.timeout).trans (saved_eq (.finite 5000))
  have count : kept (savedFromDraft d t.id t.name now).count = kept t.count ↔ _ :=
    (kept_eq (finite countable.count) wellformed.count).trans (saved_eq (.finite 1))
  have concurrency : kept (savedFromDraft d t.id t.name now).concurrency = kept t.concurrency ↔ _ :=
    (kept_eq (finite countable.concurrency) wellformed.concurrency).trans (saved_eq (.finite 1))
  have intervalMs : kept (savedFromDraft d t.id t.name now).intervalMs = kept t.intervalMs ↔ _ :=
    (kept_eq (finite fun counts => countable.intervalMs counts.1 counts.2) wellformed.intervalMs).trans (saved_eq (.finite 0))
  have format : (savedFromDraft d t.id t.name now).format = t.format ↔ d.format = t.format.getD .json ∧ t.format ≠ some .json := by
    change (if d.format = .json then none else some d.format) = t.format ↔ _
    cases t.format with
    | none => by_cases json : d.format = .json <;> simp [json]
    | some f =>
      by_cases json : d.format = .json
      · simp [json, eq_comm]
      · simp only [if_neg json, Option.some.injEq, Option.getD_some, ne_eq]
        exact ⟨fun same => ⟨same, same ▸ json⟩, And.left⟩
  constructor
  · intro same
    have timeout := timeout.mp same.timeout
    have count := count.mp same.count
    have concurrency := concurrency.mp same.concurrency
    have intervalMs := intervalMs.mp same.intervalMs
    have format := format.mp same.format
    refine ⟨⟨same.mode, same.subject, same.payload, format.1, same.headers, timeout.1, count.1, concurrency.1, intervalMs.1⟩, ?_⟩
    refine ⟨?_, format.2, ?_, ?_, concurrency.2.trans count.2.symm, fun n there => ⟨?_, ?_⟩⟩
    · rw [← same.subject]
      exact trim_trim _
    · have mode : d.mode = t.mode := same.mode
      rw [timeout.2, mode]
    · exact (stored_iff (fun n => n.above 1) count.1 id (not_above 1)).mp count.2
    · exact (stored_iff (fun n => n.above 0) intervalMs.1 And.right (not_above 0)).mp intervalMs.2 n there
    · exact count.2.mpr (intervalMs.2.mp (by rw [there]; rfl)).1
  · rintro ⟨alike, settled⟩
    have counted : t.count.isSome ↔ d.count.above 1 :=
      (stored_iff (fun n => n.above 1) alike.count id (not_above 1)).mpr settled.count
    have spaced := (stored_iff (fun n => n.above 0) alike.intervalMs And.right (not_above 0)).mpr fun n there =>
      (settled.intervalMs n there).1
    refine ⟨alike.mode, alike.subject, alike.payload, format.mpr ⟨alike.format, settled.format⟩, alike.headers,
      timeout.mpr ⟨alike.timeout, ?_⟩, count.mpr ⟨alike.count, counted⟩, concurrency.mpr ⟨alike.concurrency, settled.concurrency.trans counted⟩,
      intervalMs.mpr ⟨alike.intervalMs, spaced⟩⟩
    rw [alike.mode]
    exact settled.timeout

omit [OfNat N 1] [OfNat N 5000] in
theorem bound_positive {m : Option (Number N)} {n : N} (there : bound m = some n) : 0 < n := by
  unfold bound at there
  split at there
  · split at there
    · rename_i positive
      exact Option.some.inj there ▸ positive
    · cases there
  · cases there

omit [OfNat N 1] [OfNat N 5000] in
theorem bound_bound (m : Option (Number N)) : bound ((bound m).map .finite) = bound m := by
  cases there : bound m with
  | none => rfl
  | some n => exact if_pos (bound_positive there)

omit [OfNat N 1] [OfNat N 5000] in
/-- Of an expectation that says something, what is not there is what says nothing. -/
theorem clean_eq (expr expr' : Option Str) (maxLatencyMs maxLatencyMs' : Option (Number N)) :
    cleanExpectation expr maxLatencyMs = cleanExpectation expr' maxLatencyMs' ↔
      ((cleanExpectation expr maxLatencyMs).bind Expectation.expr).getD [] = ((cleanExpectation expr' maxLatencyMs').bind Expectation.expr).getD [] ∧
        ((cleanExpectation expr maxLatencyMs).bind Expectation.maxLatencyMs).getD 0 =
          ((cleanExpectation expr' maxLatencyMs').bind Expectation.maxLatencyMs).getD 0 := by
  have shape (expr : Option Str) (maxLatencyMs : Option (Number N)) : ∃ (e : Option Str) (m : Option N), e ≠ some [] ∧ m ≠ some 0 ∧
      cleanExpectation expr maxLatencyMs = if e.isSome ∨ m.isSome then some { expr := e, maxLatencyMs := m } else none := by
    refine ⟨(expr.map Connection.trim).filter (· ≠ []), bound maxLatencyMs, ?_, fun zero => lt_irrefl 0 (bound_positive zero), rfl⟩
    intro empty
    exact of_decide_eq_true (Option.filter_eq_some_iff.mp empty).2 rfl
  obtain ⟨e, m, text, number, left⟩ := shape expr maxLatencyMs
  obtain ⟨e', m', text', number', right⟩ := shape expr' maxLatencyMs'
  rw [left, right]
  have expr_ (e : Option Str) (m : Option N) :
      ((if e.isSome ∨ m.isSome then some { expr := e, maxLatencyMs := m } else none : Option (Expectation N)).bind Expectation.expr) = e := by
    cases e <;> cases m <;> rfl
  have max_ (e : Option Str) (m : Option N) :
      ((if e.isSome ∨ m.isSome then some { expr := e, maxLatencyMs := m } else none : Option (Expectation N)).bind
        Expectation.maxLatencyMs) = m := by
    cases e <;> cases m <;> rfl
  have nothing {A : Type} {a b : Option A} {z : A} (left : a ≠ some z) (right : b ≠ some z) (same : a.getD z = b.getD z) : a = b := by
    cases a with
    | none =>
      cases b with
      | none => rfl
      | some b => exact absurd (congrArg some same.symm) right
    | some a =>
      cases b with
      | none => exact absurd (congrArg some same) left
      | some b => exact congrArg some same
  rw [expr_, expr_, max_, max_]
  constructor
  · intro same
    have exprs := expr_ e m
    have maxs := max_ e m
    rw [same, expr_] at exprs
    rw [same, max_] at maxs
    rw [exprs, maxs]
    exact ⟨rfl, rfl⟩
  · rintro ⟨same, same'⟩
    rw [nothing text text' same, nothing number number' same']

omit [OfNat N 1] [OfNat N 5000] in
theorem clean_clean (expr : Option Str) (maxLatencyMs : Option (Number N)) :
    (cleanExpectation expr maxLatencyMs).bind (fun e => cleanExpectation e.expr (e.maxLatencyMs.map .finite)) = cleanExpectation expr maxLatencyMs := by
  have text : ((((expr.map Connection.trim).filter (· ≠ [])).map Connection.trim).filter (· ≠ [])) = (expr.map Connection.trim).filter (· ≠ []) := by
    cases expr with
    | none => rfl
    | some s => by_cases empty : Connection.trim s = [] <;> simp [Option.filter, empty, trim_trim]
  unfold cleanExpectation
  dsimp only
  split
  · rename_i holds
    rw [Option.bind_some, text, bound_bound]
    exact if_pos holds
  · rfl

theorem means_iff {d : RequestDraft N} {t : SavedRequest N} (wellformed : Wellformed t) (now : N) :
    draftFromSaved (savedFromDraft d t.id t.name now) = draftFromSaved t ↔ Alike d t ∧ AllNamed t ∧ expectationOf d = t.expect := by
  have headers : named d.headers = t.headers ↔ named d.headers = named t.headers ∧ AllNamed t := by
    have all : named t.headers = t.headers ↔ AllNamed t := by
      simp only [named, List.filter_eq_self, AllNamed, decide_eq_true_iff]
    constructor
    · intro same
      have again : named t.headers = t.headers := by
        rw [← same, named, named, List.filter_filter]
        simp only [Bool.and_self]
      exact ⟨same.trans again.symm, all.mp again⟩
    · rintro ⟨same, each⟩
      exact same.trans (all.mpr each)
  have format : (if d.format = .json then none else some d.format).getD .json = d.format := by
    by_cases json : d.format = .json
    · rw [if_pos json, json]
      rfl
    · rw [if_neg json]
      rfl
  have fallback {counts : Prop} [Decidable counts] (x fallback : Number N) :
      (if counts then some x else none).getD fallback = if counts then x else fallback := by
    split <;> rfl
  obtain ⟨expr, maxLatencyMs, clean⟩ := wellformed.expect
  have expect := clean_eq (some d.expectExpr) expr (some d.expectMaxLatencyMs) maxLatencyMs
  rw [← clean] at expect
  rw [draftFromSaved, draftFromSaved, RequestDraft.mk.injEq]
  unfold savedFromDraft expectationOf
  dsimp only
  rw [format, fallback, fallback, fallback, fallback, headers, Number.finite.injEq, expect]
  constructor
  · rintro ⟨a, b, c, d, ⟨e, e'⟩, f, g, h, i, j, k⟩
    exact ⟨⟨a, b, c, d, e, f, g, h, i⟩, e', j, k⟩
  · rintro ⟨⟨a, b, c, d, e, f, g, h, i⟩, e', j, k⟩
    exact ⟨a, b, c, d, ⟨e, e'⟩, f, g, h, i, j, k⟩

omit [LinearOrder N] [OfNat N 0] [OfNat N 1] [OfNat N 5000] in
theorem getD_finite {a : Option (Number N)} (finite : ∀ n, a = some n → n.isFinite) (fallback : N) : (a.getD (.finite fallback)).isFinite := by
  cases a with
  | none => trivial
  | some n => exact finite n rfl

/-- A draft that sends what a template of a file does has finite numbers. -/
theorem Alike.countable {d : RequestDraft N} {t : SavedRequest N} (alike : Alike d t) (wellformed : Wellformed t) : Countable d where
  timeout request := by
    have same := alike.timeout
    rw [if_pos request] at same
    exact same ▸ getD_finite wellformed.timeout 5000
  count repeated := by
    have same := alike.count
    rw [if_pos repeated] at same
    exact same ▸ getD_finite wellformed.count 1
  concurrency repeated := by
    have same := alike.concurrency
    rw [if_pos repeated] at same
    exact same ▸ getD_finite wellformed.concurrency 1
  intervalMs repeated spaced := by
    have same := alike.intervalMs
    rw [if_pos ⟨repeated, spaced⟩] at same
    exact same ▸ getD_finite wellformed.intervalMs 0

theorem draftFromSaved_countable {t : SavedRequest N} (wellformed : Wellformed t) : Countable (draftFromSaved t) where
  timeout _ := getD_finite wellformed.timeout 5000
  count _ := getD_finite wellformed.count 1
  concurrency _ := getD_finite wellformed.concurrency 1
  intervalMs _ _ := getD_finite wellformed.intervalMs 0

/-- The draft of a template that is stored as saving stores it sends the same. -/
theorem Settled.alike {t : SavedRequest N} (settled : Settled t) : Alike (draftFromSaved t) t := by
  have counted : (t.count.getD (.finite 1)).above 1 ↔ t.count.isSome := by
    cases there : t.count with
    | none => exact iff_of_false (not_above 1) Bool.false_ne_true
    | some n => exact iff_of_true (settled.count n there) rfl
  have spaced : (t.intervalMs.getD (.finite 0)).above 0 ↔ t.intervalMs.isSome := by
    cases there : t.intervalMs with
    | none => exact iff_of_false (not_above 0) Bool.false_ne_true
    | some n => exact iff_of_true (settled.intervalMs n there).1 rfl
  have only {counts : Prop} [Decidable counts] {a : Option (Number N)} {fallback : Number N} (counts_ : a.isSome → counts) :
      (if counts then a.getD fallback else fallback) = a.getD fallback := by
    split
    · rfl
    · rename_i not_
      cases a with
      | none => rfl
      | some n => exact absurd (counts_ rfl) not_
  refine ⟨rfl, settled.subject, rfl, rfl, rfl, only settled.timeout.mp, only counted.mpr, only fun there => ?_, only fun there => ⟨?_, ?_⟩⟩
  · exact counted.mpr (settled.concurrency.mp there)
  · obtain ⟨n, there⟩ := Option.isSome_iff_exists.mp there
    exact counted.mpr (settled.intervalMs n there).2
  · exact spaced.mpr there

/-! ### What a file brings and keeps -/

section
variable [Browser N]

/-- A template that some file brings. -/
def Accepted (t : SavedRequest N) : Prop := ∃ uuid now text items, parseCollection uuid now text = some items ∧ t ∈ items

omit [OfNat N 1] [OfNat N 5000] in
theorem Accepted.wellformed {t : SavedRequest N} (accepted : Accepted t) : Wellformed t := by
  obtain ⟨uuid, now, text, items, parsed, member⟩ := accepted
  obtain ⟨doc, -, rfl⟩ := Option.map_eq_some_iff.mp parsed
  obtain ⟨⟨r, i⟩, -, read⟩ := List.mem_filterMap.mp member
  dsimp only [readItem] at read
  by_cases object : isObject r = true
  · rw [if_neg (not_not.mpr object)] at read
    obtain ⟨subject, -, read⟩ := Option.bind_eq_some_iff.mp read
    obtain rfl := Option.some.inj read
    have finite (v : Option (Json (Number N))) : ∀ n, (num v).map Number.finite = some n → n.isFinite := by
      intro n there
      obtain ⟨m, -, rfl⟩ := Option.map_eq_some_iff.mp there
      trivial
    refine ⟨finite _, finite _, finite _, finite _, ?_⟩
    dsimp only
    split
    · split
      · exact ⟨_, _, rfl⟩
      · exact ⟨none, none, rfl⟩
    · exact ⟨none, none, rfl⟩
  · rw [if_pos object] at read
    cases read

/-- A draft that is saved. -/
structure Saving (N : Type) [LinearOrder N] [OfNat N 0] where
  draft : RequestDraft N
  id : Str
  name : Str
  now : { n : N // 0 ≤ n }

def Saving.item (s : Saving N) : SavedRequest N := savedFromDraft s.draft s.id s.name s.now

def Number.natural : Number N → Prop
  | .finite n => 0 ≤ n
  | _ => False

/-- What a file keeps of a draft that is saved: an id, and numbers that are finite and not negative. -/
structure Storable (s : Saving N) : Prop where
  id : s.id ≠ []
  timeout : s.draft.mode = .request → s.draft.timeout.natural
  count : s.draft.count.above 1 → s.draft.count.natural
  concurrency : s.draft.count.above 1 → s.draft.concurrency.natural
  intervalMs : s.draft.count.above 1 ∧ s.draft.intervalMs.above 0 → s.draft.intervalMs.natural

/-- A template as it comes back from a file. -/
def reread (uuid : Str) (now : N) (x : SavedRequest N) : SavedRequest N := { x with
  id := if x.id = [] then uuid else x.id
  headers := x.headers.filter (·.key ≠ [])
  timeout := (num (x.timeout.map ofNumber)).map .finite
  count := (num (x.count.map ofNumber)).map .finite
  concurrency := (num (x.concurrency.map ofNumber)).map .finite
  intervalMs := (num (x.intervalMs.map ofNumber)).map .finite
  expect := x.expect.bind fun e => cleanExpectation e.expr (e.maxLatencyMs.map .finite)
  updatedAt := if 0 ≤ x.updatedAt then x.updatedAt else now }

omit [OfNat N 1] [OfNat N 5000] in
theorem readItem_ofSaved (uuid : Str) (now : N) (x : SavedRequest N) : readItem uuid now (ofSaved x) = some (reread uuid now x) := by
  have read (k : String) : property (ofSaved x) k = (List.lookup k.toList _).join := Json.lookup_defined (by
    change (["id", "name", "mode", "subject", "payload", "format", "headers", "timeout", "count", "concurrency", "intervalMs", "expect",
      "updatedAt"].map String.toList).Nodup
    decide) k.toList
  have id : property (ofSaved x) "id" = some (.string x.id) := read "id"
  have name : property (ofSaved x) "name" = some (.string x.name) := read "name"
  have mode : property (ofSaved x) "mode" = some (.string x.mode.text) := read "mode"
  have subject : property (ofSaved x) "subject" = some (.string x.subject) := read "subject"
  have payload : property (ofSaved x) "payload" = some (.string x.payload) := read "payload"
  have format : property (ofSaved x) "format" = x.format.map fun f => .string f.id := read "format"
  have headers : property (ofSaved x) "headers" = some (.array (x.headers.map ofHeader)) := read "headers"
  have timeout : property (ofSaved x) "timeout" = x.timeout.map ofNumber := read "timeout"
  have count : property (ofSaved x) "count" = x.count.map ofNumber := read "count"
  have concurrency : property (ofSaved x) "concurrency" = x.concurrency.map ofNumber := read "concurrency"
  have intervalMs : property (ofSaved x) "intervalMs" = x.intervalMs.map ofNumber := read "intervalMs"
  have expect : property (ofSaved x) "expect" = x.expect.map ofExpectation := read "expect"
  have updatedAt : property (ofSaved x) "updatedAt" = some (.number (.finite x.updatedAt)) := read "updatedAt"
  have object : isObject (ofSaved x) = true := rfl
  dsimp only [readItem]
  rw [if_neg (not_not.mpr object), id, name, mode, subject, payload, format, headers, timeout, count, concurrency, intervalMs, expect, updatedAt]
  refine congrArg some ?_
  rw [reread, SavedRequest.mk.injEq]
  refine ⟨?_, rfl, ?_, rfl, rfl, ?_, ?_, rfl, rfl, rfl, rfl, ?_, ?_⟩
  · cases x.id <;> rfl
  · cases x.mode <;> rfl
  · cases x.format with
    | none => rfl
    | some f => cases f <;> rfl
  · have objects : (x.headers.map (ofHeader (N := N))).filter isObject = x.headers.map ofHeader := by
      refine List.filter_eq_self.mpr fun v member => ?_
      obtain ⟨h, -, rfl⟩ := List.mem_map.mp member
      rfl
    dsimp only
    rw [objects, List.map_map]
    exact congrArg _ ((List.map_congr_left fun h _ => rfl).trans (List.map_id _))
  · cases x.expect with
    | none => rfl
    | some e =>
      have read (k : String) : property (ofExpectation e) k = (List.lookup k.toList _).join := Json.lookup_defined (by
        change (["expr", "maxLatencyMs"].map String.toList).Nodup
        decide) k.toList
      have expr : stringOf (property (ofExpectation e) "expr") = e.expr := by
        refine (congrArg stringOf (read "expr")).trans ?_
        change stringOf (e.expr.map .string) = e.expr
        cases e.expr <;> rfl
      have bound : numberOf (property (ofExpectation e) "maxLatencyMs") = e.maxLatencyMs.map .finite := by
        refine (congrArg numberOf (read "maxLatencyMs")).trans ?_
        change numberOf (e.maxLatencyMs.map fun n => .number (.finite n)) = e.maxLatencyMs.map .finite
        cases e.maxLatencyMs <;> rfl
      dsimp only [Option.map_some]
      rw [if_pos (show isObject (ofExpectation e) = true from rfl), expr, bound]
      rfl
  · dsimp only [num]
    split <;> rfl

omit [OfNat N 1] [OfNat N 5000] [Browser N] in
theorem num_natural (a : Option (Number N)) : (num (a.map ofNumber)).map .finite = a ↔ ∀ n, a = some n → n.natural := by
  cases a with
  | none => exact iff_of_true rfl fun n there => nomatch there
  | some n =>
    have only : (∀ m, some n = some m → m.natural) ↔ n.natural := ⟨fun all => all n rfl, fun holds m same => Option.some.inj same ▸ holds⟩
    rw [only]
    cases n with
    | finite n =>
      change (if 0 ≤ n then some n else none).map Number.finite = some (.finite n) ↔ 0 ≤ n
      split
      · rename_i natural
        exact iff_of_true rfl natural
      · rename_i negative
        exact iff_of_false nofun negative
    | infinite negative => exact iff_of_false nofun id
    | nan => exact iff_of_false nofun id

omit [OfNat N 5000] [Browser N] in
/-- A draft that is saved comes back from a file just if it is storable. -/
theorem reread_item (uuid : { id : Str // id ≠ [] }) (now : N) (s : Saving N) : reread uuid now s.item = s.item ↔ Storable s := by
  have id : (if s.id = [] then uuid.val else s.id) = s.id ↔ s.id ≠ [] := by
    by_cases empty : s.id = []
    · rw [if_pos empty, empty]
      exact iff_of_false uuid.property (fun some_ => some_ rfl)
    · rw [if_neg empty]
      exact iff_of_true rfl empty
  have headers : s.item.headers.filter (·.key ≠ []) = s.item.headers := by
    refine List.filter_eq_self.mpr fun h member => decide_eq_true fun empty => ?_
    have some_ := of_decide_eq_true (List.mem_filter.mp member).2
    rw [empty] at some_
    exact some_ rfl
  have expect : s.item.expect.bind (fun e => cleanExpectation e.expr (e.maxLatencyMs.map .finite)) = s.item.expect :=
    clean_clean _ _
  have counted {counts : Prop} [Decidable counts] (n : Number N) :
      (∀ m, (if counts then some n else none) = some m → m.natural) ↔ (counts → n.natural) := by
    by_cases holds : counts
    · rw [if_pos holds]
      exact ⟨fun all _ => all n rfl, fun natural m same => Option.some.inj same ▸ natural holds⟩
    · rw [if_neg holds]
      exact iff_of_true (fun _ there => nomatch there) fun there => absurd there holds
  have timeout := (num_natural s.item.timeout).trans (counted s.draft.timeout)
  have count := (num_natural s.item.count).trans (counted s.draft.count)
  have concurrency := (num_natural s.item.concurrency).trans (counted s.draft.concurrency)
  have intervalMs := (num_natural s.item.intervalMs).trans (counted s.draft.intervalMs)
  have updatedAt : (if (0 : N) ≤ s.item.updatedAt then s.item.updatedAt else now) = s.item.updatedAt := if_pos s.now.property
  constructor
  · intro same
    rw [reread, SavedRequest.mk.injEq] at same
    obtain ⟨same_id, -, -, -, -, -, -, same_timeout, same_count, same_concurrency, same_intervalMs, -⟩ := same
    exact ⟨id.mp same_id, timeout.mp same_timeout, count.mp same_count, concurrency.mp same_concurrency, intervalMs.mp same_intervalMs⟩
  · intro storable
    rw [reread, SavedRequest.mk.injEq]
    exact ⟨id.mpr storable.id, rfl, rfl, rfl, rfl, rfl, headers, timeout.mpr storable.timeout, count.mpr storable.count,
      concurrency.mpr storable.concurrency, intervalMs.mpr storable.intervalMs, expect, updatedAt⟩

omit [LinearOrder N] [OfNat N 0] [OfNat N 1] [OfNat N 5000] [Browser N] in
theorem defined_regular {members : List (Str × Option (Json (Number N)))} (once : (members.map Prod.fst).Nodup)
    (named : ∀ k ∈ members.map Prod.fst, ¬ k.all Char.isDigit) (each : ∀ m ∈ members, ∀ v, m.2 = some v → v.Regular) :
    (Json.object (Json.defined members)).Regular := by
  have keys := Json.defined_keys members
  refine .object (once.sublist keys) (fun k there => named k (keys.subset there)) fun m there => ?_
  obtain ⟨⟨k, v⟩, member, defined⟩ := List.mem_filterMap.mp there
  obtain ⟨v', some_, rfl⟩ := Option.map_eq_some_iff.mp defined
  exact each _ member v' some_

omit [LinearOrder N] [OfNat N 0] [OfNat N 1] [OfNat N 5000] [Browser N] in
theorem ofSaved_regular (x : SavedRequest N) : (ofSaved x).Regular := by
  have number (a : Option (Number N)) : ∀ v, a.map ofNumber = some v → v.Regular := by
    intro v there
    obtain ⟨n, -, rfl⟩ := Option.map_eq_some_iff.mp there
    cases n <;> first | exact .number _ | exact .null
  have headers := headers_regular x
  have expect : ∀ v, x.expect.map ofExpectation = some v → v.Regular := by
    intro v there
    obtain ⟨e, -, rfl⟩ := Option.map_eq_some_iff.mp there
    have keys : (["expr", "maxLatencyMs"].map String.toList).Nodup ∧ ∀ k ∈ ["expr", "maxLatencyMs"].map String.toList, ¬ k.all Char.isDigit := by decide
    refine defined_regular keys.1 keys.2 ?_
    simp only [List.forall_mem_cons]
    refine ⟨fun v there => ?_, fun v there => ?_, nofun⟩
    · obtain ⟨s, -, rfl⟩ := Option.map_eq_some_iff.mp there
      exact .string s
    · obtain ⟨n, -, rfl⟩ := Option.map_eq_some_iff.mp there
      exact .number _
  have format : ∀ v, x.format.map (fun f => (Json.string f.id : Json (Number N))) = some v → v.Regular := by
    intro v there
    obtain ⟨f, -, rfl⟩ := Option.map_eq_some_iff.mp there
    exact .string _
  have one {v : Json (Number N)} (regular : v.Regular) : ∀ v', some v = some v' → v'.Regular := fun v' same => Option.some.inj same ▸ regular
  have keys : (["id", "name", "mode", "subject", "payload", "format", "headers", "timeout", "count", "concurrency", "intervalMs", "expect",
      "updatedAt"].map String.toList).Nodup ∧ ∀ k ∈ ["id", "name", "mode", "subject", "payload", "format", "headers", "timeout", "count",
      "concurrency", "intervalMs", "expect", "updatedAt"].map String.toList, ¬ k.all Char.isDigit := by decide
  refine defined_regular keys.1 keys.2 ?_
  simp only [List.forall_mem_cons]
  exact ⟨one (.string _), one (.string _), one (.string _), one (.string _), one (.string _), format, one headers, number _, number _, number _,
    number _, expect, one (.number _), nofun⟩

omit [OfNat N 5000] [Browser N] in
/-- Items are read back just if each is. -/
theorem filterMap_items {back : ℕ → SavedRequest N → SavedRequest N} (read : Json (Number N) × ℕ → Option (SavedRequest N))
    (whole : ∀ s k, back k s.item = s.item ↔ Storable s) (reads : ∀ (s : Saving N) k, read (ofSaved s.item, k) = some (back k s.item))
    (l : List (Saving N)) (k : ℕ) :
    (((l.map Saving.item).map ofSaved).zipIdx k).filterMap read = l.map Saving.item ↔ ∀ s ∈ l, Storable s := by
  induction l generalizing k with
  | nil => exact iff_of_true rfl fun s there => absurd there List.not_mem_nil
  | cons s l ih =>
    rw [List.map_cons, List.map_cons, List.zipIdx_cons, List.filterMap_cons_some (reads s k), List.cons.injEq, whole, ih, List.forall_mem_cons]

omit [OfNat N 5000] in
/-- A file brings its items back just if all are storable. -/
theorem parse_serialize (uuid : ℕ → { id : Str // id ≠ [] }) (now : ℕ → { n : N // 0 ≤ n }) (exportedAt : Str) (savings : List (Saving N)) :
    parseCollection uuid now (serializeCollection exportedAt (savings.map Saving.item)) = some (savings.map Saving.item) ↔
      ∀ s ∈ savings, Storable s := by
  have regular : (Json.object [("format".toList, .string "nats-explorer-requests".toList), ("version".toList, .number (.finite (1 : N))),
      ("exportedAt".toList, .string exportedAt), ("items".toList, .array ((savings.map Saving.item).map ofSaved))]).Regular := by
    have keys : (["format", "version", "exportedAt", "items"].map String.toList).Nodup ∧
        ∀ k ∈ ["format", "version", "exportedAt", "items"].map String.toList, ¬ k.all Char.isDigit := by decide
    refine .object keys.1 keys.2 ?_
    simp only [List.forall_mem_cons]
    refine ⟨.string _, .number _, .string _, .array fun v member => ?_, nofun⟩
    obtain ⟨x, -, rfl⟩ := List.mem_map.mp member
    exact ofSaved_regular x
  rw [parseCollection, serializeCollection, Browser.parse_stringify regular, Option.map_some, Option.some.injEq]
  exact filterMap_items _ (fun s k => reread_item (uuid k) (now k).val s) (fun s k => readItem_ofSaved (uuid k).val (now k).val s.item) savings 0

omit [OfNat N 1] [OfNat N 5000] in
/-- A template that comes back as it is is one that a file brings. -/
theorem accepted_of_reread {x : SavedRequest N} (uuid : { id : Str // id ≠ [] }) (now : { n : N // 0 ≤ n }) (back : reread uuid now.val x = x) :
    Accepted x := by
  have regular : (Json.array [ofSaved x]).Regular := .array fun v member => List.mem_singleton.mp member ▸ ofSaved_regular x
  refine ⟨fun _ => uuid, fun _ => now, Browser.stringify true (.array [ofSaved x]), [x], ?_, List.mem_singleton_self x⟩
  rw [parseCollection, Browser.parse_stringify regular, Option.map_some]
  have read : (fun p : Json (Number N) × ℕ => readItem uuid.val now.val p.1) (ofSaved x, 0) = some x :=
    (readItem_ofSaved uuid.val now.val x).trans (congrArg some back)
  exact congrArg some (List.filterMap_cons_some read)

/-- Templates that files bring. -/
abbrev Template (N : Type) [LinearOrder N] [OfNat N 0] [Browser N] := { t : SavedRequest N // Accepted t }

end

/-! ### A template with an expectation -/

/-- A template whose reply has to hold something, and its draft without that. -/
def expecting : SavedRequest ℕ where
  id := "t".toList
  name := "T".toList
  mode := .request
  subject := "svc".toList
  payload := []
  format := none
  headers := []
  timeout := some (.finite 1000)
  count := none
  concurrency := none
  intervalMs := none
  expect := some { expr := some "ok".toList }
  updatedAt := 0

def unexpecting : RequestDraft ℕ := { draftFromSaved expecting with expectExpr := [] }

/-- A template that says it is sent once, as it would without. -/
def counted : SavedRequest ℕ := { expecting with count := some (.finite 1) }

end savedRequests
end NatsExplorer.Client
