import NatsExplorer.Client.SavedRequests
import NatsExplorer.Go.Json
import NatsExplorer.Handler.RunSpec

/-! `nats-explorer run collection.json` (`run_cli.go`): the templates of an exported file, and what is sent for one. -/

namespace Go.hex

def value (c : Char) : Option ℕ :=
  if '0' ≤ c ∧ c ≤ '9' then some (c.toNat - 48)
  else if 'a' ≤ c ∧ c ≤ 'f' then some (c.toNat - 87)
  else if 'A' ≤ c ∧ c ≤ 'F' then some (c.toNat - 55)
  else none

/-- `hex.DecodeString` -/
def decodeString : Str → Option (List UInt8)
  | [] => some []
  | [_] => none
  | a :: b :: rest => do
    let a ← value a
    let b ← value b
    let bytes ← decodeString rest
    some (UInt8.ofNat (a * 16 + b) :: bytes)

end Go.hex

namespace NatsExplorer.RunCli
open Go Go.json Go.json.Decoder Handler Client.savedRequests

/-- The numerals of JSON, which both sides round to the nearest double: a whole number is exact up to 2^53, its sign is
kept, and one beyond does not come back below. -/
class Numerals (N : Type) [LinearOrder N] [OfNat N 0] [OfNat N 1] [OfNat N 5000] where
  read : Str → Number N
  /-- What an `int` of Go makes of the number as `JSON.stringify` writes it. -/
  int : N → Option Int
  sign {text : Str} {k : Int} : parseInt text = some k → ∃ n, read text = .finite n ∧ (0 ≤ n ↔ 0 ≤ k)
  exact {text : Str} {k : Int} {n : N} : parseInt text = some k → read text = .finite n → 0 ≤ k → k ≤ 2 ^ 53 → int n = some k
  beyond {text : Str} {k m : Int} {n : N} :
    parseInt text = some k → read text = .finite n → 2 ^ 53 ≤ k → int n = some m → 2 ^ 53 ≤ m
  zero : int 0 = some 0
  one : int 1 = some 1
  timeout : int 5000 = some 5000

structure HeaderEntry where
  key : Str := []
  value : Str := []
  deriving DecidableEq

/-- One template of the export file. -/
structure CollectionItem (N : Type) where
  name : Str := []
  mode : Str := []
  subject : Str := []
  payload : Str := []
  format : Str := []
  headers : Option (Slice HeaderEntry) := none
  timeout : Int := 0
  count : Int := 0
  concurrency : Int := 0
  intervalMs : Int := 0
  expect : Option (Expect N) := none

structure Envelope (N : Type) where
  items : Option (Slice (CollectionItem N)) := none

section Load
variable {N : Type} [LinearOrder N] [OfNat N 0] [OfNat N 1] [OfNat N 5000] [Numerals N] [Folding]

/-- `strconv.ParseFloat`, which takes no number that is too large. -/
def parseFloat (text : Str) : Option N :=
  match Numerals.read text with
  | .finite n => some n
  | _ => none

def headerFields : List (String × Decoder HeaderEntry) :=
  [("Key", field (·.key) (fun h key => { h with key := key }) string),
    ("Value", field (·.value) (fun h value => { h with value := value }) string)]

def headerEntry : Decoder HeaderEntry := struct headerFields

def expectFields : List (String × Decoder (Expect N)) :=
  [("expr", field (·.expr) (fun e expr => { e with expr := expr }) string),
    ("maxLatencyMs", field (·.maxLatencyMs) (fun e n => { e with maxLatencyMs := n }) (float parseFloat))]

def expectation : Decoder (Expect N) := struct expectFields

def itemFields : List (String × Decoder (CollectionItem N)) :=
  [("name", field (·.name) (fun it s => { it with name := s }) string),
    ("mode", field (·.mode) (fun it s => { it with mode := s }) string),
    ("subject", field (·.subject) (fun it s => { it with subject := s }) string),
    ("payload", field (·.payload) (fun it s => { it with payload := s }) string),
    ("format", field (·.format) (fun it s => { it with format := s }) string),
    ("headers", field (·.headers) (fun it h => { it with headers := h }) (slice headerEntry {})),
    ("timeout", field (·.timeout) (fun it n => { it with timeout := n }) int),
    ("count", field (·.count) (fun it n => { it with count := n }) int),
    ("concurrency", field (·.concurrency) (fun it n => { it with concurrency := n }) int),
    ("intervalMs", field (·.intervalMs) (fun it n => { it with intervalMs := n }) int),
    ("expect", field (·.expect) (fun it e => { it with expect := e }) (pointer expectation ⟨[], 0⟩))]

def collectionItem : Decoder (CollectionItem N) := struct itemFields

def envelopeFields : List (String × Decoder (Envelope N)) :=
  [("items", field (·.items) (fun e items => { e with items := items }) (slice collectionItem {}))]

def envelope : Decoder (Envelope N) := struct envelopeFields

def notACollection : Str := "not a collection: expected \x7b\"items\": [...]\x7d or a list of templates".toList

/-- No more of a file is read. -/
def readLimit : ℕ := 64 * 2 ^ 20

/-- The export envelope, or a bare list of templates. -/
def templates (v : Value) : Except Str (List (CollectionItem N)) :=
  match envelope.into {} v with
  | some ⟨some items⟩ => .ok items.items
  | _ =>
    match (slice collectionItem {}).into none v with
    | some list => .ok ((list.map Slice.items).getD [])
    | none => .error notACollection

def loadCollection [Recognizer] (data : List UInt8) : Except Str (List (CollectionItem N)) :=
  match json.unmarshal (data.take readLimit) with
  | none => .error notACollection
  | some v => templates v

end Load

/-- The errors of the decoders. -/
structure DecodeErrors where
  hex : Str → Str
  base64 : Str → Str

/-- `strings.NewReplacer(" ", "", "\n", "", "\t", "", ":", "", "0x", "")` -/
def replaceHex : Str → Str
  | '0' :: 'x' :: s => replaceHex s
  | c :: s => if c = ' ' ∨ c = '\n' ∨ c = '\t' ∨ c = ':' then replaceHex s else c :: replaceHex s
  | [] => []

section Spec
variable {N : Type} [Tables] [Filter.Compiler]

/-- The payload and its type. -/
def payloadOf (errors : DecodeErrors) (format payload : Str) : Except Str (Str × Str) :=
  if format = "hex".toList then
    let clean := replaceHex payload
    match hex.decodeString clean with
    | some b => .ok (base64 b, "binary".toList)
    | none => .error ("hex payload: ".toList ++ errors.hex clean)
  else if format = "base64".toList then
    let clean := (strings.fields payload).flatten
    match base64.decodeString clean with
    | some _ => .ok (clean, "binary".toList)
    | none => .error ("base64 payload: ".toList ++ errors.base64 clean)
  else if format = "protobuf".toList then
    .error "a protobuf payload is encoded with the browser's decoder rules; run it from the module".toList
  else .ok (payload, [])

/-- A template as a run, with its payload encoded. -/
def CollectionItem.spec (it : CollectionItem N) (payload payloadType : Str) : RunSpec N where
  mode := it.mode
  subject := strings.trimSpace it.subject
  payload := payload
  payloadType := payloadType
  headers := collected strings.trimSpace (((it.headers.map Slice.items).getD []).map fun h => (h.key, h.value))
  timeout := millis it.timeout
  count := it.count
  concurrency := it.concurrency
  interval := millis it.intervalMs
  expect := it.expect

/-- What is sent for a template, if it is taken. -/
def specOf (errors : DecodeErrors) (it : CollectionItem N) : Except Str (RunSpec N) :=
  match payloadOf errors it.format it.payload with
  | .error err => .error err
  | .ok (payload, payloadType) => (it.spec payload payloadType).normalize errors.base64

omit [Filter.Compiler] in
theorem flatten_fields (s : Str) : (strings.fields s).flatten = s.filter fun c => !Tables.isSpace c := by
  have dropped (parts : List Str) : (parts.filter (· ≠ [])).flatten = parts.flatten := by
    induction parts with
    | nil => rfl
    | cons part parts ih =>
      by_cases empty : part = []
      · simpa [empty] using ih
      · simpa [empty] using ih
  rw [strings.fields, dropped]
  induction s with
  | nil => simp
  | cons c s ih =>
    rw [List.splitOnP_cons_eq_if_modifyHead]
    obtain ⟨part, parts, split⟩ := List.exists_cons_of_ne_nil (List.splitOnP_ne_nil Tables.isSpace s)
    rw [split] at ih
    cases space : Tables.isSpace c with
    | true => simpa [space, split] using ih
    | false => simpa [space, split] using ih

/-- The bytes the terminal reads in a payload. -/
def terminalBytes (format payload : Str) : Option (List UInt8) :=
  if format = "hex".toList then hex.decodeString (replaceHex payload)
  else if format = "base64".toList then base64.decodeString (payload.filter fun c => !Tables.isSpace c)
  else some (utf8 payload)

omit [Filter.Compiler] in
theorem payloadOf_ok {errors : DecodeErrors} {format payload p t : Str} (ok : payloadOf errors format payload = .ok (p, t)) :
    (∃ data, terminalBytes format payload = some data) ∧ sentBytes p t = terminalBytes format payload := by
  have text : sentBytes payload [] = some (utf8 payload) := rfl
  have binary (s : Str) : sentBytes s "binary".toList = base64.decodeString s := if_pos rfl
  unfold payloadOf at ok
  unfold terminalBytes
  split at ok
  · next isHex =>
    rw [if_pos isHex]
    dsimp only at ok
    split at ok
    · next b decoded =>
      obtain ⟨rfl, rfl⟩ := Prod.mk.inj (Except.ok.inj ok)
      rw [binary, base64.decodeString_base64, decoded]
      exact ⟨⟨b, rfl⟩, rfl⟩
    · cases ok
  · next notHex =>
    rw [if_neg notHex]
    split at ok
    · next isBase64 =>
      rw [if_pos isBase64]
      dsimp only at ok
      rw [flatten_fields] at ok
      split at ok
      · next b decoded =>
        obtain ⟨rfl, rfl⟩ := Prod.mk.inj (Except.ok.inj ok)
        rw [binary, decoded]
        exact ⟨⟨b, rfl⟩, rfl⟩
      · cases ok
    · next notBase64 =>
      rw [if_neg notBase64]
      split at ok
      · cases ok
      · obtain ⟨rfl, rfl⟩ := Prod.mk.inj (Except.ok.inj ok)
        exact ⟨⟨_, rfl⟩, text⟩

omit [Filter.Compiler] in
theorem payloadOf_some {errors : DecodeErrors} {format payload : Str} {data : List UInt8} (other : format ≠ "protobuf".toList)
    (read : terminalBytes format payload = some data) : ∃ p t, payloadOf errors format payload = .ok (p, t) := by
  unfold terminalBytes at read
  unfold payloadOf
  split at read
  · next isHex =>
    rw [if_pos isHex]
    dsimp only
    rw [read]
    exact ⟨_, _, rfl⟩
  · next notHex =>
    rw [if_neg notHex]
    split at read
    · next isBase64 =>
      rw [if_pos isBase64]
      dsimp only
      rw [flatten_fields, read]
      exact ⟨_, _, rfl⟩
    · next notBase64 =>
      rw [if_neg notBase64, if_neg other]
      exact ⟨_, _, rfl⟩

theorem specOf_ok {errors : DecodeErrors} {it : CollectionItem N} {s : RunSpec N} : specOf errors it = .ok s ↔
    ∃ p t, payloadOf errors it.format it.payload = .ok (p, t) ∧ s = (it.spec p t).limited ∧ (it.spec p t).Sound := by
  unfold specOf
  cases payloadOf errors it.format it.payload with
  | error err => exact iff_of_false nofun fun ⟨_, _, ok, _⟩ => nomatch ok
  | ok payload =>
    obtain ⟨p, t⟩ := payload
    refine RunSpec.normalize_ok.trans ⟨fun both => ⟨p, t, rfl, both⟩, fun ⟨p', t', same, both⟩ => ?_⟩
    obtain ⟨rfl, rfl⟩ := Prod.mk.inj (Except.ok.inj same)
    exact both

end Spec
end NatsExplorer.RunCli
