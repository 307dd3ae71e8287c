import NatsExplorer.RunCli.Collection

/-! What is loaded of a file whose names are written once and as they are exported: every field is the member of its name. -/
namespace NatsExplorer.RunCli
open Go Go.json Go.json.Decoder Handler Client.savedRequests

section Views
variable {N : Type} [LinearOrder N] [OfNat N 0] [OfNat N 1] [OfNat N 5000] [Numerals N]

/-- A number as the terminal reads it. -/
def numeral : Value → N
  | .number text => (parseFloat text).getD 0
  | _ => 0

def entryOf (v : Value) : HeaderEntry := { key := (given v.inside "key").text, value := (given v.inside "value").text }

def expectOf : Value → Option (Expect N)
  | .null => none
  | v => some { expr := (given v.inside "expr").text, maxLatencyMs := numeral (given v.inside "maxLatencyMs") }

/-- A header as the terminal takes it. -/
structure PlainHeader (h : Value) : Prop where
  shape : h = .null ∨ ∃ members, h = .object members
  key : string.kind (given h.inside "key")
  value : string.kind (given h.inside "value")

/-- What an item holds of the members of an object. -/
structure View (members : List (Str × Value)) (it : CollectionItem N) : Prop where
  mode : it.mode = (given members "mode").text
  subject : it.subject = (given members "subject").text
  payload : it.payload = (given members "payload").text
  format : it.format = (given members "format").text
  headers : (it.headers.map Slice.items).getD [] = (given members "headers").elements.map entryOf
  plain : ∀ h ∈ (given members "headers").elements, PlainHeader h
  count : int.into 0 (given members "count") = some it.count
  concurrency : int.into 0 (given members "concurrency") = some it.concurrency
  intervalMs : int.into 0 (given members "intervalMs") = some it.intervalMs
  expect : it.expect = expectOf (given members "expect")

/-- The names of an item that are read from it. -/
def itemNames : List String := ["mode", "subject", "payload", "format", "headers", "timeout", "count", "concurrency", "intervalMs", "expect"]

variable [Folding]

/-- The names are written once, as they are exported. -/
structure SpelledItem (members : List (Str × Value)) : Prop where
  names : Spelled itemNames members
  headers : ∀ h ∈ (given members "headers").elements, Spelled ["key", "value"] h.inside
  expect : Spelled ["expr", "maxLatencyMs"] (given members "expect").inside

section Fields

omit [Folding] in
theorem numeral_eq {v : Value} {x : N} (into : (float parseFloat).into 0 v = some x) : x = numeral v := by
  cases v with
  | number text =>
    have parsed : parseFloat text = some x := into
    rw [numeral, parsed]
    rfl
  | null =>
    cases into
    rfl
  | _ => cases into

theorem headerFields_apart : foldName "Key".toList ≠ foldName "Value".toList := by
  change "KEY".toList ≠ "VALUE".toList
  decide

theorem headerFields_key : Fills headerFields "Key" HeaderEntry.key string := fills_first headerFields_apart (fun _ _ => rfl) fun _ _ => rfl

theorem headerFields_value : Fills headerFields "Value" HeaderEntry.value string :=
  fills_second headerFields_apart (fun _ _ => rfl) fun _ _ => rfl

/-- A header takes its name and its value from the members. -/
theorem headerEntry_into {v : Value} (spelled : Spelled ["key", "value"] v.inside) {h : HeaderEntry} (into : headerEntry.into {} v = some h) :
    (v = .null ∨ ∃ members, v = .object members) ∧ string.into [] (given v.inside "key") = some h.key ∧
      string.into [] (given v.inside "value") = some h.value := by
  cases v with
  | null =>
    cases into
    exact ⟨Or.inl rfl, rfl, rfl⟩
  | object members =>
    have key : foldName "key".toList = "KEY".toList ∧ foldName "Key".toList = "KEY".toList := ⟨rfl, rfl⟩
    have value : foldName "value".toList = "VALUE".toList ∧ foldName "Value".toList = "VALUE".toList := ⟨rfl, rfl⟩
    exact ⟨Or.inr ⟨members, rfl⟩, headerFields_key.get_eq (key.1.trans key.2.symm) (spelled "key" (by decide)) into rfl,
      headerFields_value.get_eq (value.1.trans value.2.symm) (spelled "value" (by decide)) into rfl⟩
  | _ => cases into

theorem headerEntry_eq {v : Value} (spelled : Spelled ["key", "value"] v.inside) {h : HeaderEntry} (into : headerEntry.into {} v = some h) :
    h = entryOf v := by
  obtain ⟨-, key, value⟩ := headerEntry_into spelled into
  cases h
  rw [entryOf, HeaderEntry.mk.injEq]
  exact ⟨string_eq key, string_eq value⟩

theorem headerEntry_plain {v : Value} (spelled : Spelled ["key", "value"] v.inside) {h : HeaderEntry}
    (into : headerEntry.into {} v = some h) : PlainHeader v := by
  obtain ⟨shape, key, value⟩ := headerEntry_into spelled into
  exact ⟨shape, (string.takes _ _).mp (Option.isSome_of_eq_some key), (string.takes _ _).mp (Option.isSome_of_eq_some value)⟩

theorem expectFields_apart : foldName "expr".toList ≠ foldName "maxLatencyMs".toList := by
  change "EXPR".toList ≠ "MAXLATENCYMS".toList
  decide

theorem expectFields_expr : Fills (expectFields (N := N)) "expr" Expect.expr string :=
  fills_first expectFields_apart (fun _ _ => rfl) fun _ _ => rfl

theorem expectFields_max : Fills (expectFields (N := N)) "maxLatencyMs" Expect.maxLatencyMs (float parseFloat) :=
  fills_second expectFields_apart (fun _ _ => rfl) fun _ _ => rfl

theorem expectation_eq {v : Value} (spelled : Spelled ["expr", "maxLatencyMs"] v.inside) {e : Option (Expect N)}
    (into : (pointer expectation ⟨[], 0⟩).into none v = some e) : e = expectOf v := by
  cases v with
  | null =>
    cases into
    rfl
  | object members =>
    have into : ((expectation (N := N)).into ⟨[], 0⟩ (.object members)).map some = some e := into
    obtain ⟨e, filled, rfl⟩ := Option.map_eq_some_iff.mp into
    have expr := (expectFields_expr (N := N)).get_eq rfl (spelled "expr" (by decide)) filled rfl
    have max := (expectFields_max (N := N)).get_eq rfl (spelled "maxLatencyMs" (by decide)) filled rfl
    cases e
    exact congrArg some (Expect.mk.injEq .. ▸ ⟨string_eq expr, numeral_eq max⟩)
  | _ => cases into

theorem itemFields_apart : ((itemFields (N := N)).map fun f => foldName f.1.toList).Nodup := by
  have names : ((itemFields (N := N)).map fun f => foldName f.1.toList) = ["NAME".toList, "MODE".toList, "SUBJECT".toList, "PAYLOAD".toList,
    "FORMAT".toList, "HEADERS".toList, "TIMEOUT".toList, "COUNT".toList, "CONCURRENCY".toList, "INTERVALMS".toList, "EXPECT".toList] := by
    simp only [itemFields, List.map_cons, List.map_nil]
    rfl
  rw [names]
  decide

/-- Each of the fields holds what its member makes. -/
theorem itemFields_fill :
    Fills (itemFields (N := N)) "mode" CollectionItem.mode string ∧
    Fills (itemFields (N := N)) "subject" CollectionItem.subject string ∧
    Fills (itemFields (N := N)) "payload" CollectionItem.payload string ∧
    Fills (itemFields (N := N)) "format" CollectionItem.format string ∧
    Fills (itemFields (N := N)) "headers" CollectionItem.headers (slice headerEntry {}) ∧
    Fills (itemFields (N := N)) "count" CollectionItem.count int ∧
    Fills (itemFields (N := N)) "concurrency" CollectionItem.concurrency int ∧
    Fills (itemFields (N := N)) "intervalMs" CollectionItem.intervalMs int ∧
    Fills (itemFields (N := N)) "expect" CollectionItem.expect (pointer expectation ⟨[], 0⟩) := by
  refine ⟨?_, ?_, ?_, ?_, ?_, ?_, ?_, ?_, ?_⟩
  all_goals
    refine ⟨itemFields_apart, by simp [itemFields], fun f member named => ?_, fun f member other => ?_⟩
    all_goals
      simp only [itemFields, List.mem_cons, List.not_mem_nil, or_false] at member
  all_goals
    rcases member with rfl | rfl | rfl | rfl | rfl | rfl | rfl | rfl | rfl | rfl | rfl
    all_goals
      first
      | (simp at named; done)
      | exact absurd rfl other
      | exact field_own _ fun _ _ => rfl
      | (intro _ _ _ into; exact field_other into fun _ _ => rfl)

/-- An item holds what the members of its object say. -/
theorem item_view {members : List (Str × Value)} {it : CollectionItem N} (spelled : SpelledItem members)
    (into : collectionItem.into {} (.object members) = some it) : View members it := by
  obtain ⟨mode, subject, payload, format, headers, count, concurrency, intervalMs, expect⟩ := itemFields_fill (N := N)
  have once (name : String) (there : name ∈ itemNames) := spelled.names name there
  exact {
    mode := string_eq (mode.get_eq rfl (once "mode" (by decide)) into rfl)
    subject := string_eq (subject.get_eq rfl (once "subject" (by decide)) into rfl)
    payload := string_eq (payload.get_eq rfl (once "payload" (by decide)) into rfl)
    format := string_eq (format.get_eq rfl (once "format" (by decide)) into rfl)
    headers := slice_eq (fun h there a filled => headerEntry_eq (spelled.headers h there) filled)
      (headers.get_eq rfl (once "headers" (by decide)) into rfl)
    plain := fun h there =>
      (slice_each (headers.get_eq rfl (once "headers" (by decide)) into rfl) h there).elim fun _ filled =>
        headerEntry_plain (spelled.headers h there) filled
    count := count.get_eq rfl (once "count" (by decide)) into rfl
    concurrency := concurrency.get_eq rfl (once "concurrency" (by decide)) into rfl
    intervalMs := intervalMs.get_eq rfl (once "intervalMs" (by decide)) into rfl
    expect := expectation_eq spelled.expect (expect.get_eq rfl (once "expect" (by decide)) into rfl) }

end Fields

section Load

/-- The templates of a file, in the envelope or bare. -/
def listed : Value → List Value
  | .array items => items
  | .object members => (given members "items").elements
  | _ => []

theorem envelopeFields_items : Fills (envelopeFields (N := N)) "items" Envelope.items (slice collectionItem {}) where
  apart := List.nodup_singleton _
  here := List.mem_cons_self
  own := by
    simp only [envelopeFields, List.forall_mem_cons]
    exact ⟨fun _ => field_own _ fun _ _ => rfl, nofun⟩
  other := by
    simp only [envelopeFields, List.forall_mem_cons]
    exact ⟨fun other => absurd rfl other, nofun⟩

/-- An envelope is taken exactly if each of its items is. -/
theorem envelope_isSome {members : List (Str × Value)} (once : Once "items" members) {vs : List Value}
    (items : given members "items" = .array vs) :
    (∃ e, (envelope (N := N)).into {} (.object members) = some e) ↔ ∀ v ∈ vs, (collectionItem (N := N)).kind v := by
  refine Option.isSome_iff_exists.symm.trans ((members_isSome envelopeFields {} members).trans ?_)
  have field (key : Str) (d : Decoder (Envelope N)) : fieldOf envelopeFields key = some d ↔
      foldName key = foldName "items".toList ∧ d = field (·.items) (fun e items => { e with items := items }) (slice collectionItem {}) := by
    rw [fieldOf, envelopeFields, List.find?_singleton]
    by_cases same : foldName key = foldName "items".toList
    · rw [if_pos (decide_eq_true same)]
      exact ⟨fun found => ⟨same, (Option.some.inj found).symm⟩, fun both => congrArg some both.2.symm⟩
    · rw [if_neg fun equal => same (of_decide_eq_true equal)]
      exact iff_of_false (Option.some_ne_none d).symm fun both => same both.1
  simp only [field]
  constructor
  · intro each v member
    have there : ∃ m ∈ members, m.1 = "items".toList := by
      by_contra absent
      have none : members.lookup "items".toList = none := List.lookup_eq_none_iff.mpr fun m member =>
        bne_iff_ne.mpr fun same => absent ⟨m, member, same.symm⟩
      rw [given, none] at items
      cases items
    obtain ⟨m, here, named⟩ := there
    have kind := each m here _ ⟨by rw [named], rfl⟩
    rw [← given_eq once here (by rw [named]), items] at kind
    rcases kind with null | ⟨vs', same, each⟩
    · cases null
    · cases same
      exact each v member
  · rintro each m here d ⟨named, rfl⟩
    rw [← given_eq once here named, items]
    exact Or.inr ⟨vs, rfl, each⟩

/-- What is loaded is what each entry makes alone. -/
theorem templates_eq {v : Value} {vs : List Value} (once : Once "items" v.inside)
    (shape : v = .array vs ∨ ∃ members, v = .object members ∧ given members "items" = .array vs) :
    (templates (N := N) v).toOption = collectionItem.intoItems {} [] vs := by
  rcases shape with rfl | ⟨members, rfl, items⟩
  · have wrapped : (envelope (N := N)).into {} (.array vs) = none := rfl
    have bare : (slice (collectionItem (N := N)) {}).into none (.array vs) =
        (collectionItem.intoItems {} [] vs).map fun items => some ⟨items, if vs = [] then [] else [].drop vs.length⟩ := rfl
    rw [templates, wrapped, bare]
    cases (collectionItem (N := N)).intoItems {} [] vs <;> rfl
  · have once : Once "items" members := once
    have bare : (slice (collectionItem (N := N)) {}).into none (.object members) = none := rfl
    rw [templates]
    cases filled : (envelope (N := N)).into {} (.object members) with
    | none =>
      rw [bare]
      cases made : (collectionItem (N := N)).intoItems {} [] vs with
      | none => rfl
      | some items' =>
        have each := (intoItems_isSome collectionItem {} [] vs).mp (Option.isSome_iff_exists.mpr ⟨items', made⟩)
        obtain ⟨e, some_⟩ := (envelope_isSome once items).mpr each
        rw [filled] at some_
        cases some_
    | some e =>
      have holds := (envelopeFields_items (N := N)).get_eq rfl once filled rfl
      rw [items] at holds
      obtain ⟨items', made, same⟩ := Option.map_eq_some_iff.mp holds
      cases e
      cases same
      exact made.symm

end Load

end Views
end NatsExplorer.RunCli
