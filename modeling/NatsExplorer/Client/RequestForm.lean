import NatsExplorer.Client.PayloadFormat
import NatsExplorer.RunCli.Loaded

/-! A template in the browser: read from a file, put into the form, and sent as a run (`RequestForm.tsx`). -/
namespace NatsExplorer.Client.RequestForm
open Go Go.json Go.json.Decoder RunCli Handler savedRequests payloadFormat

section Parsed
variable {N : Type} [LinearOrder N] [OfNat N 0] [OfNat N 1] [OfNat N 5000] [Numerals N]

mutual

/-- What `JSON.parse` makes of a document; of members with one name the last counts. -/
def parsed : Value → Json (Number N)
  | .null => .null
  | .bool b => .bool b
  | .number text => .number (Numerals.read text)
  | .string s => .string s
  | .array items => .array (parsedItems items)
  | .object members => .object (parsedMembers members).reverse

def parsedItems : List Value → List (Json (Number N))
  | [] => []
  | v :: vs => parsed v :: parsedItems vs

def parsedMembers : List (Str × Value) → List (Str × Json (Number N))
  | [] => []
  | (k, v) :: members => (k, parsed v) :: parsedMembers members

end

theorem parsedItems_eq (vs : List Value) : parsedItems (N := N) vs = vs.map parsed := by
  induction vs with
  | nil => rfl
  | cons v vs ih => rw [parsedItems, ih, List.map_cons]

theorem parsedMembers_eq (members : List (Str × Value)) : parsedMembers (N := N) members = members.map fun m => (m.1, parsed m.2) := by
  induction members with
  | nil => rfl
  | cons m members ih => rw [parsedMembers, ih, List.map_cons]

variable [Folding]

/-- A name that is written once is read as its member; without one it might as well be `null`. -/
theorem property_parsed {v : Value} {name : String} (once : Once name v.inside) :
    property (parsed (N := N) v) name = some (parsed (given v.inside name)) ∨
      property (parsed (N := N) v) name = none ∧ given v.inside name = .null := by
  cases v with
  | object members =>
    have once : Once name members := once
    have read : property (parsed (N := N) (.object members)) name = (parsedMembers members).reverse.lookup name.toList := rfl
    rw [read, parsedMembers_eq]
    cases found : (members.map fun m => (m.1, parsed (N := N) m.2)).reverse.lookup name.toList with
    | some w =>
      obtain ⟨before, after, split, -⟩ := List.lookup_eq_some_iff.mp found
      have there : (name.toList, w) ∈ (members.map fun m => (m.1, parsed (N := N) m.2)).reverse := by
        rw [split]
        exact List.mem_append_right _ List.mem_cons_self
      rw [List.mem_reverse, List.mem_map] at there
      obtain ⟨m, here, same⟩ := there
      obtain ⟨named, rfl⟩ := Prod.mk.inj same
      exact Or.inl (congrArg some (congrArg parsed (given_eq once here (by rw [named])).symm))
    | none =>
      refine Or.inr ⟨rfl, ?_⟩
      have absent : members.lookup name.toList = none := by
        rw [List.lookup_eq_none_iff] at found ⊢
        intro m here
        exact found (m.1, parsed m.2) (List.mem_reverse.mpr (List.mem_map.mpr ⟨m, here, rfl⟩))
      change (members.lookup name.toList).getD .null = .null
      rw [absent]
      rfl
  | _ => exact Or.inr ⟨rfl, rfl⟩

/-- Nothing is told apart from `null`. -/
theorem read_parsed {α : Type} (f : Option (Json (Number N)) → α) (null : f none = f (some .null)) {v : Value} {name : String}
    (once : Once name v.inside) : f (property (parsed v) name) = f (some (parsed (given v.inside name))) := by
  rcases property_parsed (N := N) once with some_ | ⟨none, absent⟩
  · rw [some_]
  · rw [none, absent, null]
    rfl

omit [Folding] in
theorem stringOf_parsed (v : Value) : (stringOf (some (parsed (N := N) v))).getD [] = v.text := by
  cases v <;> rfl

/-- A number of a template, as the browser takes it. -/
def counted (v : Value) : Option N := num (some (parsed v))

/-- The names and values of the headers that are objects. -/
def headersOf [Browser N] (v : Value) : List HeaderPair :=
  (v.elements.filter fun h => isObject (parsed (N := N) h)).map fun h =>
    { key := textOf (property (parsed (N := N) h) "key"), value := textOf (property (parsed (N := N) h) "value") }

/-- A template of the members of an object. -/
structure Imported [Browser N] (members : List (Str × Value)) (t : SavedRequest N) : Prop where
  mode : t.mode = if (given members "mode").text = "request".toList then .request else .publish
  subject : t.subject = (given members "subject").text
  payload : t.payload = (given members "payload").text
  format : t.format = payloadFormats.find? (·.id = (given members "format").text)
  headers : t.headers = (headersOf (N := N) (given members "headers")).filter (·.key ≠ [])
  timeout : t.timeout = (counted (given members "timeout")).map .finite
  count : t.count = (counted (given members "count")).map .finite
  concurrency : t.concurrency = (counted (given members "concurrency")).map .finite
  intervalMs : t.intervalMs = (counted (given members "intervalMs")).map .finite
  expect : t.expect = cleanExpectation (some (given (given members "expect").inside "expr").text)
    (numberOf (some (parsed (given (given members "expect").inside "maxLatencyMs"))))

variable [Browser N]

/-- The headers of a list that is there. -/
def pairsOf : Option (Json (Number N)) → List HeaderPair
  | some (.array items) => ((items.filter isObject).map fun h =>
      { key := textOf (property h "key"), value := textOf (property h "value") : HeaderPair }).filter (·.key ≠ [])
  | _ => []

/-- The expectation of an object that is there. -/
def limitsOf : Option (Json (Number N)) → Option (Expectation N)
  | some e => if isObject e then cleanExpectation (stringOf (property e "expr")) (numberOf (property e "maxLatencyMs")) else none
  | none => none

theorem readItem_imported {members : List (Str × Value)} (spelled : SpelledItem members) {uuid : Str} {now : N} {t : SavedRequest N}
    (read : readItem uuid now (parsed (.object members)) = some t) : Imported members t := by
  have once (name : String) (there : name ∈ itemNames) : Once name (Value.object members).inside := spelled.names name there
  have texts (name : String) (there : name ∈ itemNames) :
      (stringOf (property (parsed (N := N) (.object members)) name)).getD [] = (given members name).text :=
    (read_parsed (fun p => (stringOf p).getD []) rfl (once name there)).trans (stringOf_parsed _)
  have numbers (name : String) (there : name ∈ itemNames) :
      num (property (parsed (N := N) (.object members)) name) = counted (given members name) :=
    read_parsed num rfl (once name there)
  have object : isObject (parsed (N := N) (.object members)) = true := rfl
  rw [readItem, if_neg (not_not.mpr object)] at read
  obtain ⟨subject, found, made⟩ := Option.bind_eq_some_iff.mp read
  obtain rfl := Option.some.inj made
  exact {
    mode := by
      have text := texts "mode" (by decide)
      dsimp only
      rw [← text]
      cases stringOf (property (parsed (N := N) (.object members)) "mode") with
      | none => rfl
      | some s => simp only [Option.some.injEq, Option.getD_some]
    subject := by
      have text := texts "subject" (by decide)
      rwa [found] at text
    payload := texts "payload" (by decide)
    format := by
      have text := texts "format" (by decide)
      dsimp only
      rw [← text]
      cases stringOf (property (parsed (N := N) (.object members)) "format") with
      | none => rfl
      | some s => rfl
    headers := by
      refine (read_parsed (pairsOf (N := N)) rfl (once "headers" (by decide))).trans ?_
      change pairsOf (N := N) (some (parsed (given members "headers"))) = _
      cases given members "headers" with
      | array vs =>
        change (((parsedItems (N := N) vs).filter isObject).map fun h =>
          { key := textOf (property h "key"), value := textOf (property h "value") : HeaderPair }).filter (·.key ≠ []) = _
        have objects : (parsedItems (N := N) vs).filter isObject = (vs.filter fun h => isObject (parsed (N := N) h)).map parsed := by
          rw [parsedItems_eq, List.filter_map]
          rfl
        rw [objects, List.map_map]
        rfl
      | _ => rfl
    timeout := congrArg (Option.map Number.finite) (numbers "timeout" (by decide))
    count := congrArg (Option.map Number.finite) (numbers "count" (by decide))
    concurrency := congrArg (Option.map Number.finite) (numbers "concurrency" (by decide))
    intervalMs := congrArg (Option.map Number.finite) (numbers "intervalMs" (by decide))
    expect := by
      refine (read_parsed (limitsOf (N := N)) rfl (once "expect" (by decide))).trans ?_
      change limitsOf (N := N) (some (parsed (given members "expect"))) = _
      have expr := (read_parsed (N := N) (fun p => (stringOf p).getD []) rfl (spelled.expect "expr" (by decide))).trans (stringOf_parsed _)
      have max := read_parsed (N := N) numberOf rfl (spelled.expect "maxLatencyMs" (by decide))
      have empty (s : Option Str) (n : Option (Number N)) : cleanExpectation s n = cleanExpectation (some (s.getD [])) n := by
        cases s <;> rfl
      generalize given members "expect" = e at expr max
      change (if isObject (parsed (N := N) e) then
        cleanExpectation (stringOf (property (parsed (N := N) e) "expr")) (numberOf (property (parsed (N := N) e) "maxLatencyMs"))
        else none) = _
      split
      · rw [empty, max]
        exact congrArg (fun s => cleanExpectation (some s) _) expr
      · next other =>
        cases e with
        | object es => simp [parsed, isObject] at other
        | array vs => simp [parsed, isObject] at other
        | _ => rfl }

end Parsed

section Run
variable {N : Type} [LinearOrder N] [OfNat N 0] [OfNat N 1] [OfNat N 5000] [Numerals N]

/-- What every object has from the start, so that a header of the name has no list to be added to. -/
def inherited : List Str :=
  ["constructor", "__defineGetter__", "__defineSetter__", "hasOwnProperty", "__lookupGetter__", "__lookupSetter__", "isPrototypeOf",
    "propertyIsEnumerable", "toString", "valueOf", "__proto__", "toLocaleString"].map String.toList

/-- What the decoder rules make of a message, and the errors of the server's decoders. -/
structure Sending where
  encodeWith : Str → Str → Except Str (List UInt8)
  notInt : Str
  notBase64 : Str → Str

/-- An `int` of the body; a number that is not finite is written as `null`. -/
def posted : Number N → Option Int
  | .finite n => Numerals.int n
  | _ => some 0

variable [Tables] [Filter.Compiler]

/-- A draft as a run, with its payload encoded and its numbers written. -/
def spec (d : RequestDraft N) (payload payloadType : Str) (timeout count concurrency intervalMs : Int) : RunSpec N where
  mode := d.mode.text
  subject := Connection.trim d.subject
  payload := payload
  payloadType := payloadType
  headers := collected Connection.trim (d.headers.map fun h => (h.key, h.value))
  timeout := millis timeout
  count := count
  concurrency := concurrency
  interval := millis intervalMs
  expect := (expectationOf d).map fun e => { expr := e.expr.getD [], maxLatencyMs := e.maxLatencyMs.getD 0 }

/-- What the form posts to `/run` for a draft and `Run` makes of it. Without a subject nothing is posted, and a header the
form cannot collect ends it. -/
def runOf (env : Sending) (d : RequestDraft N) : Option (Except Str (RunSpec N)) :=
  if Connection.trim d.subject = [] ∨ d.headers.any fun h => Connection.trim h.key ∈ inherited then none
  else
    some <|
      match toWire env.encodeWith d.format d.payload (Connection.trim d.subject) with
      | .error err => .error err
      | .ok (payload, payloadType) =>
        match posted d.timeout, posted d.count, posted d.concurrency, posted d.intervalMs with
        | some timeout, some count, some concurrency, some intervalMs =>
          (spec d payload payloadType timeout count concurrency intervalMs).normalize env.notBase64
        | _, _, _, _ => .error env.notInt

/-- What a draft needs to be sent, and as what. -/
structure Sent (env : Sending) (d : RequestDraft N) (s : RunSpec N) where
  subject : Connection.trim d.subject ≠ []
  headers : ∀ h ∈ d.headers, Connection.trim h.key ∉ inherited
  payload : Str
  payloadType : Str
  wire : toWire env.encodeWith d.format d.payload (Connection.trim d.subject) = .ok (payload, payloadType)
  timeout : Int
  count : Int
  concurrency : Int
  intervalMs : Int
  numbers : posted d.timeout = some timeout ∧ posted d.count = some count ∧ posted d.concurrency = some concurrency ∧
    posted d.intervalMs = some intervalMs
  limited : s = (spec d payload payloadType timeout count concurrency intervalMs).limited
  sound : (spec d payload payloadType timeout count concurrency intervalMs).Sound

theorem runOf_ok {env : Sending} {d : RequestDraft N} {s : RunSpec N} : runOf env d = some (.ok s) ↔ Nonempty (Sent env d s) := by
  have named : ¬ (d.headers.any fun h => Connection.trim h.key ∈ inherited) = true ↔
      ∀ h ∈ d.headers, Connection.trim h.key ∉ inherited := by
    simp
  constructor
  · intro ran
    unfold runOf at ran
    split at ran
    · cases ran
    · next clear =>
      obtain ⟨subject, headers⟩ := not_or.mp clear
      have ran := Option.some.inj ran
      split at ran
      · cases ran
      · next payload payloadType wire =>
        split at ran
        · next timeout count concurrency intervalMs first second third fourth =>
          obtain ⟨limited, sound⟩ := RunSpec.normalize_ok.mp ran
          exact ⟨⟨subject, named.mp headers, payload, payloadType, wire, timeout, count, concurrency, intervalMs,
            ⟨first, second, third, fourth⟩, limited, sound⟩⟩
        · cases ran
  · rintro ⟨subject, headers, payload, payloadType, wire, timeout, count, concurrency, intervalMs, ⟨first, second, third, fourth⟩,
      limited, sound⟩
    rw [runOf, if_neg (not_or.mpr ⟨subject, named.mpr headers⟩), wire, first, second, third, fourth]
    exact congrArg some (RunSpec.normalize_ok.mpr ⟨limited, sound⟩)

end Run
end NatsExplorer.Client.RequestForm
