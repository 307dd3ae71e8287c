import NatsExplorer.Filter
import NatsExplorer.Library.Asking

/-! The variables of an expression (`internal/filter/filter.go`). On the ingest path they
are produced from the record when the expression asks for them and remembered; the other
paths produce them up front, from the record or from its wire form. -/
namespace NatsExplorer
open Go

def Kind.name : Kind → Str
  | .string => "string".toList
  | .json => "json".toList
  | .binary => "binary".toList

namespace Filter

/-- What `json.Unmarshal` makes of a payload; the numbers are floats until they are
normalized, and `null` is Go's `nil`. -/
inductive Doc (F : Type) where
  | null
  | bool (b : Bool)
  | float (x : F)
  | int (n : Int)
  | text (s : Str)
  | array (items : List (Doc F))
  | object (fields : List (Str × Doc F))

def Doc.isNil {F : Type} : Doc F → Bool
  | .null => true
  | _ => false

class Documents (F : Type) where
  /-- `json.Unmarshal` into an `any`. -/
  unmarshal : Data → Option (Doc F)
  /-- A whole number between -1e15 and 1e15. -/
  whole : F → Option Int
  /-- Only the text `null`, after white space, is nil. -/
  document (runes : Str) (d : Doc F) : runes.head? = some '{' ∨ runes.head? = some '[' →
    unmarshal (.text runes) = some d → d.isNil = false

variable {F : Type}

mutual
/-- Turns whole numbers into ints, at every depth. -/
def normalize [Documents F] : Doc F → Doc F
  | .float x =>
    match Documents.whole x with
    | some n => .int n
    | none => .float x
  | .array items => .array (normalizeItems items)
  | .object fields => .object (normalizeFields fields)
  | d => d

def normalizeItems [Documents F] : List (Doc F) → List (Doc F)
  | [] => []
  | d :: rest => normalize d :: normalizeItems rest

def normalizeFields [Documents F] : List (Str × Doc F) → List (Str × Doc F)
  | [] => []
  | (key, d) :: rest => (key, normalize d) :: normalizeFields rest
end

/-- How a payload differs from the schema pinned for its subject, and the pattern. -/
abbrev SchemaChecker := Str → Str → Data → List Str × Str

/-- The variables of one evaluation; `rec` produces the others on first use. -/
structure Vars (F : Type) where
  subject : Str
  payload : Doc F
  raw : Str
  kind : Str
  headers : Option (List (Str × Str))
  size : Nat
  timestamp : Int
  reply : Str
  data : Option Data
  record : Option Record

structure Activation (F : Type) where
  v : Vars F
  headers : Option (List (Str × Str))
  payload : Doc F
  raw : Str
  kind : Str
  headersDone : Bool
  payloadDone : Bool
  rawDone : Bool
  kindDone : Bool
  violations : List Str
  checked : Bool

/-- What an expression gets for a name. -/
inductive Value (F : Type) where
  | text (s : Str)
  | int (n : Int)
  | bool (b : Bool)
  | dyn (d : Doc F)
  | headers (h : List (Str × Str))
  | texts (l : List Str)

/-- The first value of each header. -/
def firstValues (header : Header) : List (Str × Str) :=
  header.filterMap fun (k, vals) => vals.head?.map fun v => (k, v)

/-- Without a checker nothing is pinned, so nothing can be violated. -/
def schemaViolations (checker : Option SchemaChecker) (subject kind : Str) (payload : Data) : List Str × Str :=
  match checker with
  | none => ([], [])
  | some check => check subject kind payload

namespace Activation
variable [Tables] [Documents F]

def rawText (a : Activation F) : Str × Activation F :=
  if a.rawDone then (a.raw, a)
  else
    let raw :=
      if a.v.raw ≠ [] then a.v.raw
      else
        match a.v.record with
        | some r => r.text
        | none => a.raw
    (raw, { a with rawDone := true, raw := raw })

def kindOf (a : Activation F) : Str × Activation F :=
  if a.kindDone then (a.kind, a)
  else
    let kind :=
      match a.v.kind, a.v.record with
      | [], some r => r.kind.name
      | kind, _ => kind
    (kind, { a with kindDone := true, kind := kind })

/-- The document of a record, where there is one. -/
def parse (a : Activation F) : Option (Doc F) × Activation F :=
  match a.v.record with
  | none => (none, a)
  | some r =>
    if a.kindOf.1 = "json".toList then ((Documents.unmarshal r.data).map normalize, a.kindOf.2)
    else (none, a.kindOf.2)

/-- The parsed payload: the JSON document, or the text for anything else. -/
def doc (a : Activation F) : Doc F × Activation F :=
  if a.payloadDone then (a.payload, a)
  else
    let a := { a with payloadDone := true }
    if a.payload.isNil then
      match a.parse with
      | (some d, a) => (d, { a with payload := d })
      | (none, a) => (.text a.rawText.1, { a.rawText.2 with payload := .text a.rawText.1 })
    else (a.payload, a)

def headerMap (a : Activation F) : Option (List (Str × Str)) × Activation F :=
  if a.headersDone then (a.headers, a)
  else
    let headers :=
      match a.headers, a.v.record with
      | some h, _ => h
      | none, some r => firstValues r.header
      | none, none => []
    (some headers, { a with headersDone := true, headers := some headers })

/-- The raw payload; history results carry their text, not bytes. -/
def data (a : Activation F) : Data × Activation F :=
  match a.v.data with
  | some d => (d, a)
  | none => (.text a.rawText.1, a.rawText.2)

def resolveViolations (checker : Option SchemaChecker) (a : Activation F) : List Str × Activation F :=
  if a.checked then (a.violations, a)
  else
    let a := { a with checked := true }
    let kind := a.kindOf
    let data := kind.2.data
    let violations := (schemaViolations checker a.v.subject kind.1 data.1).1
    (violations, { data.2 with violations := violations })

def resolveName (checker : Option SchemaChecker) (name : String) (a : Activation F) :
    Option (Value F) × Activation F :=
  match name with
  | "subject" => (some (.text a.v.subject), a)
  | "payload" => (some (.dyn a.doc.1), a.doc.2)
  | "raw" => (some (.text a.rawText.1), a.rawText.2)
  | "kind" => (some (.text a.kindOf.1), a.kindOf.2)
  | "headers" => (a.headerMap.1.map .headers, a.headerMap.2)
  | "size" => (some (.int a.v.size), a)
  | "timestamp" => (some (.int a.v.timestamp), a)
  | "reply" => (some (.text a.v.reply), a)
  | "valid" => (some (.bool ((a.resolveViolations checker).1 = [])), (a.resolveViolations checker).2)
  | "violations" => (some (.texts (a.resolveViolations checker).1), (a.resolveViolations checker).2)
  | _ => (none, a)

end Activation

section Vars
variable [Tables] [Documents F]

/-- The variables of a record without touching its payload. -/
def varsOfRecord (r : Record) : Vars F where
  subject := r.subject
  payload := .null
  raw := []
  kind := []
  headers := none
  size := r.data.length
  timestamp := r.timestamp
  reply := r.reply
  data := some r.data
  record := some r

/-- The variables of a record, its payload parsed once here. -/
def varsOf (r : Record) : Vars F where
  subject := r.subject
  payload :=
    if r.kind.name = "json".toList then
      match Documents.unmarshal r.data with
      | some doc => normalize doc
      | none => .text r.text
    else .text r.text
  raw := r.text
  kind := r.kind.name
  headers := if 0 < r.header.length then some (firstValues r.header) else none
  size := r.data.length
  timestamp := r.timestamp
  reply := r.reply
  data := some r.data
  record := none

/-- The variables of a wire message. -/
def varsOfMessage (m : NatsMessage) : Vars F where
  subject := m.subject
  payload :=
    if m.payloadType.name = "json".toList then
      match Documents.unmarshal (.text m.payload) with
      | some doc => normalize doc
      | none => .text m.payload
    else .text m.payload
  raw := m.payload
  kind := m.payloadType.name
  headers := if 0 < m.headers.length then some (firstValues m.headers) else none
  size := m.size
  timestamp := m.timestamp
  reply := m.reply
  data := none
  record := none

/-- A compiled expression: which names it asks for, one after the other, and what it
makes of them. A runtime error is no match. -/
abbrev Expr (F : Type) := Asking.Program String (Option (Value F)) Bool

omit [Tables] [Documents F] in
/-- The activation an evaluation starts in. -/
def Vars.activation (v : Vars F) : Activation F where
  v := v
  headers := v.headers
  payload := v.payload
  raw := []
  kind := []
  headersDone := false
  payloadDone := false
  rawDone := false
  kindDone := false
  violations := []
  checked := false

namespace Expr
variable (checker : Option SchemaChecker) (p : Expr F)

def eval (v : Vars F) : Bool := Asking.run (Activation.resolveName checker) p v.activation

def onRecord (r : Record) : Bool := p.eval checker (varsOfRecord r)

def onMessage (m : NatsMessage) : Bool := p.eval checker (varsOfMessage m)

/-- The pair of predicates the other components see. -/
def program : Program := ⟨p.onRecord checker, p.onMessage checker⟩

end Expr

/-- The document of a record, or its text. -/
def docOf (r : Record) : Doc F :=
  if r.kind = .json then ((Documents.unmarshal r.data).map normalize).getD (.text r.text) else .text r.text

def violationsOf (checker : Option SchemaChecker) (r : Record) : List Str :=
  (schemaViolations checker r.subject r.kind.name r.data).1

def meaning (checker : Option SchemaChecker) (r : Record) : String → Option (Value F)
  | "subject" => some (.text r.subject)
  | "payload" => some (.dyn (docOf r))
  | "raw" => some (.text r.text)
  | "kind" => some (.text r.kind.name)
  | "headers" => some (.headers (firstValues r.header))
  | "size" => some (.int r.data.length)
  | "timestamp" => some (.int r.timestamp)
  | "reply" => some (.text r.reply)
  | "valid" => some (.bool (violationsOf checker r = []))
  | "violations" => some (.texts (violationsOf checker r))
  | _ => none

/-- The bytes of a payload that is no document do not count. -/
def DocumentsOnly (checker : SchemaChecker) : Prop :=
  ∀ subject kind payload payload', kind ≠ "json".toList → checker subject kind payload = checker subject kind payload'

end Vars

section Sees
variable {r : Record} {a b : Activation F}

/-- What a step leaves alone that only looks at text, kind and headers. -/
structure Keeps (a b : Activation F) : Prop where
  v : b.v = a.v
  payload : b.payload = a.payload
  payloadDone : b.payloadDone = a.payloadDone
  violations : b.violations = a.violations
  checked : b.checked = a.checked

theorem Keeps.trans {c : Activation F} (first : Keeps a b) (second : Keeps b c) : Keeps a c where
  v := second.v.trans first.v
  payload := second.payload.trans first.payload
  payloadDone := second.payloadDone.trans first.payloadDone
  violations := second.violations.trans first.violations
  checked := second.checked.trans first.checked

variable [Tables]

/-- An activation with the variables of a record, in one of the forms they come in, that
remembers the right text, kind and headers. -/
structure Sees (r : Record) (a : Activation F) : Prop where
  subject : a.v.subject = r.subject
  size : a.v.size = r.data.length
  timestamp : a.v.timestamp = r.timestamp
  reply : a.v.reply = r.reply
  data : a.v.data = some r.data ∨ a.v.data = none
  record : a.v.record = none ∨ a.v.record = some r
  raw : if a.rawDone then a.raw = r.text else
    a.raw = [] ∧ (a.v.raw = r.text ∨ a.v.raw = [] ∧ a.v.record = some r)
  kind : if a.kindDone then a.kind = r.kind.name else
    a.v.kind = r.kind.name ∨ a.v.kind = [] ∧ a.v.record = some r
  headers : if a.headersDone then a.headers = some (firstValues r.header) else
    a.headers = some (firstValues r.header) ∨
      a.headers = none ∧ (a.v.record = some r ∨ a.v.record = none ∧ r.header = [])

omit [Tables] in
theorem rawText_keeps (a : Activation F) : Keeps a a.rawText.2 := by
  unfold Activation.rawText
  split <;> exact ⟨rfl, rfl, rfl, rfl, rfl⟩

theorem kindOf_keeps (a : Activation F) : Keeps a a.kindOf.2 := by
  unfold Activation.kindOf
  split <;> exact ⟨rfl, rfl, rfl, rfl, rfl⟩

omit [Tables] in
theorem headerMap_keeps (a : Activation F) : Keeps a a.headerMap.2 := by
  unfold Activation.headerMap
  split <;> exact ⟨rfl, rfl, rfl, rfl, rfl⟩

omit [Tables] in
theorem data_keeps (a : Activation F) : Keeps a a.data.2 := by
  unfold Activation.data
  split
  · exact ⟨rfl, rfl, rfl, rfl, rfl⟩
  · exact rawText_keeps a

namespace Sees

theorem rawText (sees : Sees r a) : a.rawText.1 = r.text ∧ Sees r a.rawText.2 := by
  have known := sees.raw
  unfold Activation.rawText
  split
  · rename_i done
    rw [if_pos done] at known
    exact ⟨known, sees⟩
  · rename_i fresh
    rw [if_neg fresh] at known
    obtain ⟨unset, source⟩ := known
    have found : (if a.v.raw ≠ [] then a.v.raw else
        match a.v.record with
        | some r => r.text
        | none => a.raw) = r.text := by
      split
      · rename_i given
        exact source.resolve_right fun lazy => given lazy.1
      · rename_i empty
        rw [not_not] at empty
        rcases sees.record with none | some
        · have eager := source.resolve_right fun lazy => by
            rw [lazy.2] at none
            cases none
          simp only [none]
          rw [unset, ← empty, eager]
        · simp only [some]
    exact ⟨found, { sees with raw := (if_pos rfl).mpr found }⟩

theorem kindOf (sees : Sees r a) : a.kindOf.1 = r.kind.name ∧ Sees r a.kindOf.2 := by
  have known := sees.kind
  unfold Activation.kindOf
  split
  · rename_i done
    rw [if_pos done] at known
    exact ⟨known, sees⟩
  · rename_i fresh
    rw [if_neg fresh] at known
    have named : r.kind.name ≠ [] := by cases r.kind <;> decide
    have found : (match a.v.kind, a.v.record with
        | [], some r => r.kind.name
        | kind, _ => kind) = r.kind.name := by
      rcases known with eager | ⟨empty, record⟩
      · split
        · rename_i empty _
          exact absurd (eager.symm.trans empty) named
        · exact eager
      · rw [empty, record]
    exact ⟨found, { sees with kind := (if_pos rfl).mpr found }⟩

theorem headerMap (sees : Sees r a) :
    a.headerMap.1 = some (firstValues r.header) ∧ Sees r a.headerMap.2 := by
  have known := sees.headers
  unfold Activation.headerMap
  split
  · rename_i done
    rw [if_pos done] at known
    exact ⟨known, sees⟩
  · rename_i fresh
    rw [if_neg fresh] at known
    have found : some (match a.headers, a.v.record with
        | some h, _ => h
        | none, some r => firstValues r.header
        | none, none => []) = some (firstValues r.header) := by
      rcases known with eager | ⟨unset, record | ⟨none, empty⟩⟩
      · rw [eager]
      · rw [unset, record]
      · rw [unset, none, empty]
        rfl
    exact ⟨found, { sees with headers := (if_pos rfl).mpr found }⟩

/-- The bytes of a payload: its own, or those of its text. -/
theorem data_or (sees : Sees r a) :
    (a.data.1 = r.data ∨ a.data.1 = .text r.text) ∧ Sees r a.data.2 := by
  unfold Activation.data
  rcases sees.data with own | none
  · simp only [own]
    exact ⟨Or.inl trivial, sees⟩
  · simp only [none]
    exact ⟨Or.inr (congrArg Data.text sees.rawText.1), sees.rawText.2⟩

end Sees
end Sees

section Knows
variable [Tables] [Documents F] {checker : Option SchemaChecker} {r : Record} {a b : Activation F}

omit [Documents F] in
theorem document_of_json (json : r.kind = .json) :
    ∃ runes, r.data = .text runes ∧ (runes.head? = some '{' ∨ runes.head? = some '[') := by
  unfold Record.kind at json
  split at json
  · cases json
  · rename_i runes same
    by_cases opens : (runes.head? = some '{' ∨ runes.head? = some '[') ∧ Tables.jsonValid runes
    · exact ⟨runes, same, opens.1⟩
    · rw [if_neg opens] at json
      cases json

theorem text_of_json (json : r.kind = .json) : Data.text r.text = r.data := by
  obtain ⟨runes, same, -⟩ := document_of_json json
  unfold Record.text
  rw [same]

omit [Tables] in
theorem json_name (kind : Kind) : kind.name = "json".toList ↔ kind = .json := by
  cases kind <;> decide

omit [Tables] in
theorem normalize_isNil (d : Doc F) : (normalize d).isNil = d.isNil := by
  cases d with
  | float x =>
    unfold normalize
    split <;> rfl
  | array items => rw [normalize]; rfl
  | object fields => rw [normalize]; rfl
  | _ => rfl

/-- A JSON payload starts with a bracket, so its document is never nil. -/
theorem docOf_isNil (r : Record) : (docOf r : Doc F).isNil = false := by
  unfold docOf
  split
  · rename_i json
    cases parsed : (Documents.unmarshal r.data : Option (Doc F)) with
    | none => rfl
    | some d =>
      obtain ⟨runes, same, opens⟩ := document_of_json json
      rw [same] at parsed
      rw [Option.map_some, Option.getD_some, normalize_isNil]
      exact Documents.document runes d opens parsed
  · rfl

/-- It remembers the right document and verdict too. -/
structure Knows (checker : Option SchemaChecker) (r : Record) (a : Activation F) : Prop extends Sees r a where
  payload : if a.payloadDone then a.payload = docOf r else
    a.payload = docOf r ∨ a.payload = .null ∧ a.v.record = some r
  violations : a.checked = true → a.violations = violationsOf checker r

theorem Knows.keep (knows : Knows checker r a) (keeps : Keeps a b) (sees : Sees r b) : Knows checker r b where
  toSees := sees
  payload := by
    rw [keeps.payloadDone, keeps.payload, keeps.v]
    exact knows.payload
  violations := by
    rw [keeps.checked, keeps.violations]
    exact knows.violations

theorem Sees.parse (sees : Sees r a) (record : a.v.record = some r) :
    a.parse.1.getD (.text r.text) = docOf r ∧ Sees r a.parse.2 ∧ Keeps a a.parse.2 := by
  unfold Activation.parse
  simp only [record, sees.kindOf.1, json_name]
  unfold docOf
  by_cases document : r.kind = .json
  · rw [if_pos document, if_pos document]
    exact ⟨rfl, sees.kindOf.2, kindOf_keeps a⟩
  · rw [if_neg document, if_neg document]
    exact ⟨rfl, sees.kindOf.2, kindOf_keeps a⟩

theorem Knows.doc (knows : Knows checker r a) : a.doc.1 = docOf r ∧ Knows checker r a.doc.2 := by
  have known := knows.payload
  unfold Activation.doc
  split
  · rename_i done
    rw [if_pos done] at known
    exact ⟨known, knows⟩
  · rename_i fresh
    rw [if_neg fresh] at known
    have sees : Sees r { a with payloadDone := true } := { knows.toSees with }
    rcases known with eager | ⟨unset, record⟩
    · have shown : ¬a.payload.isNil = true := by
        rw [eager, docOf_isNil]
        exact Bool.false_ne_true
      simp only [if_neg shown]
      exact ⟨eager, { knows with payload := (if_pos rfl).mpr eager }⟩
    · have empty : a.payload.isNil = true := by
        rw [unset]
        rfl
      simp only [if_pos empty]
      obtain ⟨value, parsed, kept⟩ := sees.parse record
      split
      · rename_i d b same
        rw [same] at value parsed kept
        have right : d = docOf r := value
        refine ⟨right, { parsed with
          payload := (if_pos kept.payloadDone).mpr right
          violations := fun checked => kept.violations.trans (knows.violations (kept.checked.symm.trans checked)) }⟩
      · rename_i b same
        rw [same] at value parsed kept
        obtain ⟨text, shown⟩ := parsed.rawText
        have keeps := kept.trans (rawText_keeps b)
        have right : (Doc.text b.rawText.1 : Doc F) = docOf r := (congrArg Doc.text text).trans value
        refine ⟨right, { shown with
          payload := (if_pos keeps.payloadDone).mpr right
          violations := fun checked => keeps.violations.trans (knows.violations (keeps.checked.symm.trans checked)) }⟩

/-- So the text of a payload gets the verdict of its bytes. -/
theorem violations_text (only : ∀ check ∈ checker, DocumentsOnly check) :
    (schemaViolations checker r.subject r.kind.name (.text r.text)).1 = violationsOf checker r := by
  unfold violationsOf schemaViolations
  split
  · rfl
  · rename_i check
    by_cases json : r.kind = .json
    · rw [text_of_json json]
    · rw [only check rfl _ _ _ r.data (mt (json_name _).mp json)]

theorem Knows.resolveViolations (knows : Knows checker r a) (only : ∀ check ∈ checker, DocumentsOnly check) :
    (a.resolveViolations checker).1 = violationsOf checker r ∧ Knows checker r (a.resolveViolations checker).2 := by
  unfold Activation.resolveViolations
  split
  · rename_i done
    exact ⟨knows.violations done, knows⟩
  · have sees : Sees r { a with checked := true } := { knows.toSees with }
    obtain ⟨kind, named⟩ := sees.kindOf
    obtain ⟨bytes, shown⟩ := named.data_or
    have keeps := (kindOf_keeps { a with checked := true }).trans (data_keeps _)
    have found : (schemaViolations checker a.v.subject ({ a with checked := true } : Activation F).kindOf.1
        ({ a with checked := true } : Activation F).kindOf.2.data.1).1 = violationsOf checker r := by
      rw [knows.subject, kind]
      rcases bytes with own | text
      · rw [own]
        rfl
      · rw [text]
        exact violations_text only
    refine ⟨found, { shown with
      payload := ?_
      violations := fun _ => found }⟩
    rw [keeps.payloadDone, keeps.payload, keeps.v]
    exact knows.payload

/-- An activation that knows the record answers what the names mean of it. -/
theorem resolves (only : ∀ check ∈ checker, DocumentsOnly check) :
    Asking.Resolves (Activation.resolveName checker) (meaning checker r) (Knows (F := F) checker r) := by
  intro name a knows
  unfold Activation.resolveName
  split
  · exact ⟨congrArg (fun s => some (Value.text s)) knows.subject, knows⟩
  · obtain ⟨document, kept⟩ := knows.doc
    exact ⟨congrArg (fun d => some (Value.dyn d)) document, kept⟩
  · obtain ⟨text, sees⟩ := knows.rawText
    exact ⟨congrArg (fun s => some (Value.text s)) text, knows.keep (rawText_keeps a) sees⟩
  · obtain ⟨kind, sees⟩ := knows.kindOf
    exact ⟨congrArg (fun s => some (Value.text s)) kind, knows.keep (kindOf_keeps a) sees⟩
  · obtain ⟨headers, sees⟩ := knows.headerMap
    exact ⟨congrArg (Option.map Value.headers) headers, knows.keep (headerMap_keeps a) sees⟩
  · exact ⟨congrArg (fun n : Nat => some (Value.int n)) knows.size, knows⟩
  · exact ⟨congrArg (fun n => some (Value.int n)) knows.timestamp, knows⟩
  · exact ⟨congrArg (fun s => some (Value.text s)) knows.reply, knows⟩
  · obtain ⟨found, kept⟩ := knows.resolveViolations only
    exact ⟨congrArg (fun l : List Str => some (Value.bool (l = []))) found, kept⟩
  · obtain ⟨found, kept⟩ := knows.resolveViolations only
    exact ⟨congrArg (fun l => some (Value.texts l)) found, kept⟩
  · refine ⟨?_, knows⟩
    unfold meaning
    split <;> first | contradiction | rfl

omit [Tables] [Documents F] in
theorem headers_given (r : Record) {a : Activation F} (unset : a.v.record = none)
    (given : a.headers = if 0 < r.header.length then some (firstValues r.header) else none) :
    a.headers = some (firstValues r.header) ∨
      a.headers = none ∧ (a.v.record = some r ∨ a.v.record = none ∧ r.header = []) := by
  by_cases any : 0 < r.header.length
  · exact Or.inl (given.trans (if_pos any))
  · exact Or.inr ⟨given.trans (if_neg any), Or.inr ⟨unset, List.eq_nil_of_length_eq_zero (by omega)⟩⟩

/-- The document of the bytes, parsed up front. -/
theorem payload_given (r : Record) {bytes : Data} (same : r.kind = .json → bytes = r.data) :
    (if r.kind.name = "json".toList then
      match Documents.unmarshal bytes with
      | some doc => normalize doc
      | none => .text r.text
    else .text r.text) = (docOf r : Doc F) := by
  unfold docOf
  simp only [json_name]
  by_cases json : r.kind = .json
  · rw [if_pos json, if_pos json, same json]
    cases (Documents.unmarshal r.data : Option (Doc F)) <;> rfl
  · rw [if_neg json, if_neg json]

theorem knows_varsOf (r : Record) : Knows (F := F) checker r (varsOf r).activation where
  subject := rfl
  size := rfl
  timestamp := rfl
  reply := rfl
  data := Or.inl rfl
  record := Or.inl rfl
  raw := ⟨rfl, Or.inl rfl⟩
  kind := Or.inl rfl
  headers := headers_given r rfl rfl
  payload := Or.inl (payload_given r fun _ => rfl)
  violations := nofun

theorem knows_varsOfRecord (r : Record) : Knows (F := F) checker r (varsOfRecord r).activation where
  subject := rfl
  size := rfl
  timestamp := rfl
  reply := rfl
  data := Or.inl rfl
  record := Or.inr rfl
  raw := ⟨rfl, Or.inr ⟨rfl, rfl⟩⟩
  kind := Or.inr ⟨rfl, rfl⟩
  headers := Or.inr ⟨rfl, Or.inl rfl⟩
  payload := Or.inr ⟨rfl, rfl⟩
  violations := nofun

theorem knows_varsOfMessage (r : Record) (connID : Str) :
    Knows (F := F) checker r (varsOfMessage (r.wire connID)).activation where
  subject := rfl
  size := rfl
  timestamp := rfl
  reply := rfl
  data := Or.inr rfl
  record := Or.inl rfl
  raw := ⟨rfl, Or.inl rfl⟩
  kind := Or.inl rfl
  headers := headers_given r rfl rfl
  payload := Or.inl (payload_given r text_of_json)
  violations := nofun

/-- Evaluated on the record, on its variables or on its wire form, an expression gives one
answer. -/
theorem Expr.one_answer (only : ∀ check ∈ checker, DocumentsOnly check) (p : Expr F) (r : Record)
    (connID : Str) :
    p.eval checker (varsOf r) = (p.program checker).onRecord r ∧
      (p.program checker).onMessage (r.wire connID) = (p.program checker).onRecord r := by
  have answers {v : Vars F} (knows : Knows checker r v.activation) :
      p.eval checker v = Asking.eval (meaning checker r) p :=
    Asking.run_eq_eval (resolves only) p knows
  have onRecord := answers (knows_varsOfRecord r)
  exact ⟨(answers (knows_varsOf r)).trans onRecord.symm,
    (answers (knows_varsOfMessage r connID)).trans onRecord.symm⟩

end Knows

/-- Enough of the decoder to read an empty list. -/
@[reducible] def listDocuments : Documents Empty where
  unmarshal bytes := if bytes = .text ['[', ']'] then some (.array []) else none
  whole := nofun
  document runes d _ parsed := by
    split at parsed
    · cases parsed
      rfl
    · cases parsed

/-- Every JSON payload violates this schema. -/
def noDocuments : SchemaChecker := fun _ kind _ =>
  if kind = "json".toList then (["not expected".toList], "a.>".toList) else ([], [])

theorem one_answer_emptyList :
    let _ := asciiTables
    let _ := listDocuments
    let p : Expr Empty := .ask "valid" fun
      | some (.bool false) => .ask "payload" fun
        | some (.dyn (.array [])) => .answer true
        | _ => .answer false
      | _ => .answer false
    let r : Record := { subject := "a".toList, data := .text ['[', ']'], timestamp := 1, sequence := 1 }
    (∀ check ∈ some noDocuments, DocumentsOnly check) ∧
      (p.program (some noDocuments)).onRecord r = true ∧
      p.eval (some noDocuments) (varsOf r) = (p.program (some noDocuments)).onRecord r ∧
        (p.program (some noDocuments)).onMessage (r.wire ['c']) = (p.program (some noDocuments)).onRecord r := by
  let _ := asciiTables
  let _ := listDocuments
  have only : ∀ check ∈ some noDocuments, DocumentsOnly check := by
    rintro check ⟨⟩ subject kind payload payload' other
    unfold noDocuments
    rw [if_neg other]
  exact ⟨only, by decide, Expr.one_answer only _ _ _⟩

end Filter
end NatsExplorer
