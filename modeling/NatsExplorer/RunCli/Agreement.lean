import NatsExplorer.Client.RequestForm

/-! One template of a collection file, sent from the terminal and from the browser. Each reads the file for itself; where
its names are spelled as they are exported, what they send differs exactly where one of them takes what the other does
not, or trims, rounds or tidies it. -/
namespace NatsExplorer.RunCli.Agreement
open Go Go.json Go.json.Decoder Handler Client savedRequests payloadFormat RequestForm AlertDialog

attribute [local instance] goTables

theorem mem_filterMap_zipIdx {α β : Type} {l : List α} {f : α × ℕ → Option β} {b : β} :
    b ∈ l.zipIdx.filterMap f ↔ ∃ i a, l[i]? = some a ∧ f (a, i) = some b := by
  simp only [List.mem_filterMap, Prod.exists, List.mem_zipIdx_iff_getElem?]
  exact ⟨fun ⟨a, i, there, made⟩ => ⟨i, a, there, made⟩, fun ⟨i, a, there, made⟩ => ⟨a, i, there, made⟩⟩

section Claim
variable {N : Type} [LinearOrder N] [OfNat N 0] [OfNat N 1] [OfNat N 5000] [Numerals N] [Browser N] [Folding] [Recognizer]

/-- A file that is read as one document: by the browser as a whole, by the terminal unless it is cut off or nested too
deep. -/
structure CollectionFile (N : Type) [LinearOrder N] [OfNat N 0] [OfNat N 1] [OfNat N 5000] [Numerals N] [Browser N] [Recognizer] where
  data : List UInt8
  text : Str
  value : Value
  parse : Browser.parse text = some (parsed (N := N) value)
  unmarshal (v : Value) : json.unmarshal (data.take readLimit) = some v → v = value

/-- What the terminal sends for the item at a place. -/
def terminal [Filter.Compiler] (errors : DecodeErrors) (data : List UInt8) (i : ℕ) : Option (RunSpec N) := do
  let items ← (loadCollection data).toOption
  let it ← items[i]?
  (specOf errors it).toOption

/-- What the browser sends for a template. -/
def browser [Filter.Compiler] (env : Sending) (t : SavedRequest N) : Option (RunSpec N) := (runOf env (draftFromSaved t)).bind Except.toOption

/-- The browser reads a template at a place of the file. -/
def Accepted (uuid : ℕ → { id : Str // id ≠ [] }) (now : ℕ → { n : N // 0 ≤ n }) (file : CollectionFile N) (i : ℕ) (t : SavedRequest N) : Prop :=
  ∃ r, (entries (parsed (N := N) file.value))[i]? = some r ∧ readItem (uuid i).val (now i).val r = some t

/-- Two runs send the same. -/
structure SameSpec (s s' : RunSpec N) : Prop where
  mode : s.mode = s'.mode
  subject : s.subject = s'.subject
  bytes : s.bytes = s'.bytes
  headers : s.headers = s'.headers
  count : s.count = s'.count
  concurrency : s.concurrency = s'.concurrency
  interval : s.interval = s'.interval
  expect : s.expect = s'.expect

/-- Both send the same message, or neither sends one. -/
structure SameMessage (s s' : Option (RunSpec N)) : Prop where
  accepted : s.isSome ↔ s'.isSome
  same : ∀ spec spec', s = some spec → s' = some spec' → SameSpec spec spec'

omit [Folding] in
/-- The places are those of `parseCollection`. -/
theorem accepted_iff {uuid : ℕ → { id : Str // id ≠ [] }} {now : ℕ → { n : N // 0 ≤ n }} {file : CollectionFile N} {items : List (SavedRequest N)}
    (read : parseCollection uuid now file.text = some items) {t : SavedRequest N} : t ∈ items ↔ ∃ i, Accepted uuid now file i t := by
  rw [parseCollection, file.parse, Option.map_some, Option.some.injEq] at read
  rw [← read, mem_filterMap_zipIdx]
  rfl

end Claim

section Condition
variable {N : Type} [LinearOrder N] [OfNat N 0] [OfNat N 1] [OfNat N 5000] [Numerals N] [Browser N] [Folding] [Recognizer]

/-- The members of the item at a place. -/
def entry (v : Value) (i : ℕ) : List (Str × Value) := (((listed v)[i]?).map Value.inside).getD []

/-- The names of the file and of the item are written once, as they are exported. -/
structure SpelledAt (v : Value) (i : ℕ) : Prop where
  items : Once "items" v.inside
  item : SpelledItem (entry v i)

def exprOf (members : List (Str × Value)) : Str := (given (given members "expect").inside "expr").text

def boundOf (members : List (Str × Value)) : N := numeral (given (given members "expect").inside "maxLatencyMs")

/-- A number of a template as it is written to the server, or the one that stands for it. -/
def sent (v : Value) (default : N) : Option Int := Numerals.int ((counted v).getD default)

def Compiles [Filter.Compiler] (expr : Str) : Prop :=
  strings.trimSpace expr ≠ [] → ∃ prog, Filter.Compiler.compile expr = .ok prog

/-- The terminal reads the whole file, and in it no field of any item is of another kind. -/
structure Loads (file : CollectionFile N) : Prop where
  whole : (json.unmarshal (file.data.take readLimit)).isSome
  kinds : ∀ v ∈ listed file.value, (collectionItem (N := N)).kind v

/-- What the terminal asks of an item. -/
structure Takes [Filter.Compiler] (members : List (Str × Value)) : Prop where
  subject : strings.trimSpace (given members "subject").text ≠ []
  hex : (given members "format").text = "hex".toList → (hex.decodeString (replaceHex (given members "payload").text)).isSome
  base64 : (given members "format").text = "base64".toList →
    (base64.decodeString ((given members "payload").text.filter fun c => !unicodeSpace c)).isSome
  count : (given members "count").whole ≤ runMaxCount
  expr : Compiles (exprOf members)

/-- What the browser and its server ask of an item. -/
structure Sends (N : Type) [LinearOrder N] [OfNat N 0] [OfNat N 1] [OfNat N 5000] [Numerals N] [Browser N] [Filter.Compiler]
    (members : List (Str × Value)) : Prop where
  subject : Connection.trim (given members "subject").text ≠ []
  headers : ∀ h ∈ headersOf (N := N) (given members "headers"), Connection.trim h.key ∉ inherited
  hex : (given members "format").text = "hex".toList →
    let clean := Connection.trim ((withoutMarks (given members "payload").text).filter fun c => !hexNoise c)
    clean.length % 2 = 0 ∧ clean.all isHex = true
  base64 : (given members "format").text = "base64".toList →
    let clean := (given members "payload").text.filter fun c => !Connection.trimmed c
    clean = [] ∨ base64Shape clean = true ∧ (atob clean).isSome
  timeout : (sent (given members "timeout") (5000 : N)).isSome
  count : ∃ n, sent (given members "count") (1 : N) = some n ∧ n ≤ runMaxCount
  concurrency : (sent (given members "concurrency") (1 : N)).isSome
  intervalMs : (sent (given members "intervalMs") (0 : N)).isSome
  expr : Compiles (Connection.trim (exprOf members))

/-- What both take is trimmed, rounded and tidied alike. -/
structure SameRead (N : Type) [LinearOrder N] [OfNat N 0] [OfNat N 1] [OfNat N 5000] [Numerals N] (members : List (Str × Value)) : Prop where
  subject : strings.trimSpace (given members "subject").text = Connection.trim (given members "subject").text
  headers : ∀ h ∈ (given members "headers").elements,
    strings.trimSpace (given h.inside "key").text = Connection.trim (given h.inside "key").text
  intervalMs : ∀ n, sent (given members "intervalMs") (0 : N) = some n →
    pause (millis (given members "intervalMs").whole) = pause (millis n)
  expect : given members "expect" = .null ∨
    Connection.trim (exprOf members) = exprOf members ∧ 0 ≤ boundOf (N := N) members ∧ (exprOf members ≠ [] ∨ 0 < boundOf (N := N) members)

/-- One takes the item if the other does, and what both take they read alike. -/
structure Alike [Filter.Compiler] (file : CollectionFile N) (i : ℕ) : Prop where
  taken : Loads file ∧ Takes (entry file.value i) ↔ Sends N (entry file.value i)
  read : Loads file → Takes (entry file.value i) → SameRead N (entry file.value i)

end Condition

section Trims
variable {p q : Char → Bool} {s : Str}

theorem dropWhile_agree (first : ∀ a t, s.dropWhile p = a :: t → q a = false) (second : ∀ b t, s.dropWhile q = b :: t → p b = false) :
    s.dropWhile p = s.dropWhile q := by
  induction s with
  | nil => rfl
  | cons c s ih =>
    cases hp : p c with
    | false =>
      have keep : (c :: s).dropWhile p = c :: s := List.dropWhile_cons_of_neg (by simp [hp])
      rw [keep, List.dropWhile_cons_of_neg (by simp [first c s keep])]
    | true =>
      cases hq : q c with
      | false =>
        have keep : (c :: s).dropWhile q = c :: s := List.dropWhile_cons_of_neg (by simp [hq])
        exact absurd (second c s keep) (by simp [hp])
      | true =>
        rw [List.dropWhile_cons_of_pos hp, List.dropWhile_cons_of_pos hq] at *
        exact ih first second

theorem head_kept {a : Char} {t : Str} (kept : (a :: t).dropWhile q = a :: t) : q a = false := by
  cases passed : q a with
  | false => rfl
  | true =>
    rw [List.dropWhile_cons_of_pos passed] at kept
    have := (List.dropWhile_sublist (l := t) q).length_le
    rw [kept, List.length_cons] at this
    omega

/-- A text without its ends. -/
def strip (p : Char → Bool) (s : Str) : Str := ((s.dropWhile p).reverse.dropWhile p).reverse

theorem strip_kept (kept : strip q s = s) : s.dropWhile q = s ∧ s.reverse.dropWhile q = s.reverse := by
  have shorter := (List.dropWhile_sublist (l := (s.dropWhile q).reverse) q).length_le
  have shortest := (List.dropWhile_sublist (l := s) q).length_le
  have length := congrArg List.length kept
  rw [strip, List.length_reverse] at length
  rw [List.length_reverse] at shorter
  have front : s.dropWhile q = s := (List.dropWhile_sublist q).eq_of_length (by omega)
  refine ⟨front, ?_⟩
  rw [strip, front] at kept
  rw [← List.reverse_reverse (s.reverse.dropWhile q), kept]

theorem strip_first {a : Char} {t : Str} (starts : s.dropWhile p = a :: t) : ∃ t', strip p s = a :: t' := by
  have out : p a = false := by
    have := List.head_dropWhile_not p (by rw [starts]; exact List.cons_ne_nil a t)
    simpa [starts] using this
  have split : a :: t = strip p s ++ ((a :: t).reverse.takeWhile p).reverse := by
    rw [strip, starts, ← List.reverse_append, List.takeWhile_append_dropWhile, List.reverse_reverse]
  cases shape : strip p s with
  | nil =>
    rw [shape, List.nil_append] at split
    have there : a ∈ (a :: t).reverse.takeWhile p := List.mem_reverse.mp (split ▸ List.mem_cons_self)
    have := List.mem_takeWhile_imp there
    rw [out] at this
    cases this
  | cons b t' =>
    rw [shape, List.cons_append] at split
    exact ⟨t', by rw [(List.cons.inj split).1]⟩

/-- Where each leaves what the other would leave, both leave the same. -/
theorem strip_agree (first : strip q (strip p s) = strip p s) (second : strip p (strip q s) = strip q s) : strip p s = strip q s := by
  have front : s.dropWhile p = s.dropWhile q := by
    refine dropWhile_agree (fun a t starts => ?_) fun b t starts => ?_
    · obtain ⟨t', shape⟩ := strip_first starts
      exact head_kept (shape ▸ (strip_kept first).1)
    · obtain ⟨t', shape⟩ := strip_first starts
      exact head_kept (shape ▸ (strip_kept second).1)
  refine congrArg List.reverse ?_
  have back : (s.dropWhile q).reverse.dropWhile p = (s.dropWhile q).reverse.dropWhile q := by
    refine dropWhile_agree (fun a t starts => ?_) fun b t starts => ?_
    · have left : (strip p s).reverse = a :: t := by
        rw [strip, List.reverse_reverse, front, starts]
      exact head_kept (left ▸ (strip_kept first).2)
    · have left : (strip q s).reverse = b :: t := by
        rw [strip, List.reverse_reverse, starts]
      exact head_kept (left ▸ (strip_kept second).2)
  rw [front, back]

theorem trims_same {headers : List (Str × Str)} : collected strings.trimSpace headers = collected Connection.trim headers ↔
    ∀ h ∈ headers, strings.trimSpace h.1 = Connection.trim h.1 :=
  collected_same strings.trimSpace_trimSpace trim_trim (fun _ first second => strip_agree first second) rfl rfl

end Trims

section Reading
variable {N : Type} [LinearOrder N] [OfNat N 0] [OfNat N 1] [OfNat N 5000] [Numerals N]

/-- A whole number comes out of the browser as it is, or as what stands for one that is not positive, or both are huge. -/
theorem sent_cases {v : Value} {default : N} {k m fallback : Int} (whole : int.into 0 v = some k) (stands : Numerals.int default = some fallback)
    (written : sent v default = some m) : m = k ∨ (k ≤ 0 ∧ m = fallback) ∨ (2 ^ 53 ≤ k ∧ 2 ^ 53 ≤ m) := by
  cases v with
  | null =>
    cases whole
    exact Or.inr (Or.inl ⟨le_rfl, Option.some.inj (written.symm.trans stands)⟩)
  | number text =>
    have whole : parseInt text = some k := whole
    obtain ⟨n, read, sign⟩ := Numerals.sign (N := N) whole
    have taken : counted (N := N) (.number text) = if 0 ≤ n then some n else none := by
      change num (some (.number (Numerals.read text))) = _
      rw [read]
      rfl
    rw [sent, taken] at written
    by_cases natural : 0 ≤ k
    · rw [if_pos (sign.mpr natural), Option.getD_some] at written
      rcases le_total k (2 ^ 53) with small | large
      · exact Or.inl (Option.some.inj (written.symm.trans (Numerals.exact whole read natural small)))
      · exact Or.inr (Or.inr ⟨large, Numerals.beyond whole read large written⟩)
    · rw [if_neg fun taken => natural (sign.mp taken), Option.getD_none] at written
      exact Or.inr (Or.inl ⟨by omega, Option.some.inj (written.symm.trans stands)⟩)
  | _ => cases whole

/-- Formats are known by their names; another one is text. -/
theorem format_cases (f : Str) :
    let format := (payloadFormats.find? (·.id = f)).getD .json
    (f = "hex".toList ↔ format = .hex) ∧ (f = "base64".toList ↔ format = .base64) ∧ (f = "protobuf".toList ↔ format = .protobuf) := by
  cases found : payloadFormats.find? (·.id = f) with
  | some g =>
    obtain rfl : g.id = f := by simpa using List.find?_some found
    cases g <;> decide
  | none =>
    have other (g : PayloadFormat) (there : g ∈ payloadFormats) : f ≠ g.id := fun same => by
      simpa [same] using List.find?_eq_none.mp found g there
    exact ⟨iff_of_false (other .hex (by decide)) nofun, iff_of_false (other .base64 (by decide)) nofun,
      iff_of_false (other .protobuf (by decide)) nofun⟩

theorem terminalBytes_format (f payload : Str) :
    terminalBytes f payload = terminalBytes ((payloadFormats.find? (·.id = f)).getD .json).id payload := by
  obtain ⟨hex, base64, -⟩ := format_cases f
  have id_hex (g : PayloadFormat) : g.id = "hex".toList ↔ g = .hex := by cases g <;> decide
  have id_base64 (g : PayloadFormat) : g.id = "base64".toList ↔ g = .base64 := by cases g <;> decide
  simp only [terminalBytes, id_hex, id_base64, hex, base64]

/-- What the server is asked to expect of an expression and a bound. -/
def cleaned (expr : Str) (bound : N) : Option (Expect N) :=
  if Connection.trim expr = [] ∧ ¬ 0 < bound then none
  else some { expr := Connection.trim expr, maxLatencyMs := if 0 < bound then bound else 0 }

theorem bound_numeral (v : Value) : bound (numberOf (some (parsed (N := N) v))) = if 0 < numeral (N := N) v then some (numeral v) else none := by
  have nothing : (none : Option N) = if (0 : N) < 0 then some 0 else none := (if_neg (lt_irrefl _)).symm
  cases v with
  | number text =>
    change bound (some (Numerals.read text)) = if 0 < ((parseFloat text).getD 0 : N) then some ((parseFloat text).getD 0) else none
    rw [parseFloat]
    cases (Numerals.read text : Number N) with
    | finite n => rfl
    | _ => exact nothing
  | _ => exact nothing

/-- An expectation that is cleaned for the file, for the form and for the server is cleaned once. -/
theorem expect_cleaned {expr : Str} {v : Value} {t : SavedRequest N}
    (expect : t.expect = cleanExpectation (some expr) (numberOf (some (parsed (N := N) v)))) :
    ((expectationOf (draftFromSaved t)).map fun e => (⟨e.expr.getD [], e.maxLatencyMs.getD 0⟩ : Expect N)) = cleaned expr (numeral v) := by
  have draft : expectationOf (draftFromSaved t) =
      cleanExpectation (some ((t.expect.bind Expectation.expr).getD [])) (some (.finite ((t.expect.bind Expectation.maxLatencyMs).getD 0))) := rfl
  have blank : Connection.trim [] = [] := rfl
  have imported : t.expect = if Connection.trim expr = [] ∧ ¬ 0 < numeral (N := N) v then none
      else some { expr := if Connection.trim expr = [] then none else some (Connection.trim expr),
                  maxLatencyMs := if 0 < numeral (N := N) v then some (numeral v) else none } := by
    rw [expect, cleanExpectation, bound_numeral]
    by_cases empty : Connection.trim expr = [] <;> by_cases positive : 0 < numeral (N := N) v <;> simp [empty, positive, Option.filter]
  rw [draft, imported]
  by_cases empty : Connection.trim expr = [] <;> by_cases positive : 0 < numeral (N := N) v <;>
    simp [cleanExpectation, cleaned, empty, positive, Option.filter, bound, trim_trim, blank]

end Reading

section Entry
variable {N : Type} [LinearOrder N] [OfNat N 0] [OfNat N 1] [OfNat N 5000] [Numerals N] [Folding]

/-- The items of a list that is there. -/
def itemsOf : Option (Json (Number N)) → List (Json (Number N))
  | some (.array items) => items
  | _ => []

theorem entries_parsed {v : Value} (once : Once "items" v.inside) : entries (parsed (N := N) v) = (listed v).map parsed := by
  cases v with
  | array vs => exact parsedItems_eq vs
  | object members =>
    have read : entries (parsed (N := N) (.object members)) = itemsOf (property (parsed (N := N) (.object members)) "items") := rfl
    have list : listed (.object members) = (given members "items").elements := rfl
    rw [read, list]
    rcases property_parsed (N := N) once with some_ | ⟨none, absent⟩
    · rw [some_]
      change itemsOf (some (parsed (N := N) (given members "items"))) = _
      cases given members "items" with
      | array vs => exact parsedItems_eq vs
      | _ => rfl
    · have absent : given members "items" = .null := absent
      rw [none, absent]
      rfl
  | _ => rfl

omit [Folding] in
/-- Where there is an item, the file lists its items. -/
theorem listed_shape {v w : Value} {i : ℕ} (there : (listed v)[i]? = some w) :
    v = .array (listed v) ∨ ∃ members, v = .object members ∧ given members "items" = .array (listed v) := by
  cases v with
  | array vs => exact Or.inl rfl
  | object members =>
    refine Or.inr ⟨members, rfl, ?_⟩
    have list : listed (.object members) = (given members "items").elements := rfl
    rw [list] at there ⊢
    cases shape : given members "items" with
    | array vs => rfl
    | _ =>
      rw [shape] at there
      cases there
  | _ => cases there

variable [Browser N] [Recognizer]

/-- Only an object with a subject is read as a template. -/
theorem accepted_entry {uuid : ℕ → { id : Str // id ≠ [] }} {now : ℕ → { n : N // 0 ≤ n }} {file : CollectionFile N} {i : ℕ}
    {t : SavedRequest N} (spelled : SpelledAt file.value i) (accepted : Accepted uuid now file i t) :
    (listed file.value)[i]? = some (.object (entry file.value i)) ∧ Imported (entry file.value i) t := by
  obtain ⟨r, there, read⟩ := accepted
  rw [entries_parsed spelled.items, List.getElem?_map] at there
  obtain ⟨v, listed, rfl⟩ := Option.map_eq_some_iff.mp there
  have members : entry file.value i = v.inside := by rw [entry, listed]; rfl
  have item := spelled.item
  rw [members] at item ⊢
  cases v with
  | object members => exact ⟨listed, readItem_imported item read⟩
  | _ => cases read

variable [Filter.Compiler]

/-- The terminal sends what its reading of the item makes, if it reads the file. -/
theorem terminal_eq_some {errors : DecodeErrors} {file : CollectionFile N} {i : ℕ} {members : List (Str × Value)} {s : RunSpec N}
    (once : Once "items" file.value.inside) (there : (listed file.value)[i]? = some (.object members)) :
    terminal errors file.data i = some s ↔
      Loads file ∧ ∃ it, collectionItem.into {} (.object members) = some it ∧ specOf errors it = .ok s := by
  have loaded : (loadCollection (N := N) file.data).toOption =
      (json.unmarshal (file.data.take readLimit)).bind fun _ => collectionItem.intoItems {} [] (listed file.value) := by
    unfold loadCollection
    cases read : json.unmarshal (file.data.take readLimit) with
    | none => rfl
    | some v =>
      obtain rfl := file.unmarshal v read
      exact templates_eq once (listed_shape there)
  have option {α : Type} {e : Except Str α} {a : α} : e.toOption = some a ↔ e = .ok a := by
    cases e <;> simp [Except.toOption]
  simp only [terminal, Option.bind_eq_bind, Option.bind_eq_some_iff, loaded, option]
  constructor
  · rintro ⟨items, ⟨v, whole, made⟩, it, found, sent⟩
    rw [intoItems_getElem? made, there] at found
    exact ⟨⟨Option.isSome_of_eq_some whole, (intoItems_isSome _ _ _ _).mp (Option.isSome_of_eq_some made)⟩, it, found, sent⟩
  · rintro ⟨⟨whole, kinds⟩, it, found, sent⟩
    obtain ⟨v, whole⟩ := Option.isSome_iff_exists.mp whole
    obtain ⟨items, made⟩ := Option.isSome_iff_exists.mp ((intoItems_isSome collectionItem {} [] _).mpr kinds)
    exact ⟨items, ⟨v, whole, made⟩, it, by rw [intoItems_getElem? made, there]; exact found, sent⟩

end Entry

section Taken
variable {N : Type} [LinearOrder N] [OfNat N 0] [OfNat N 1] [OfNat N 5000] [Numerals N] [Browser N] [Filter.Compiler]
variable {members : List (Str × Value)}

omit [Browser N] in
theorem compiles_iff (v : Value) : (∃ prog, compileExpect (expectOf (N := N) v) = .ok prog) ↔ Compiles (given v.inside "expr").text := by
  cases v with
  | null => exact iff_of_true ⟨_, rfl⟩ fun some_ => absurd rfl some_
  | _ => exact compileExpect_ok _

omit [OfNat N 1] [OfNat N 5000] [Numerals N] [Browser N] in
theorem compiles_cleaned (expr : Str) (bound : N) :
    (∃ prog, compileExpect (cleaned expr bound) = .ok prog) ↔ Compiles (Connection.trim expr) := by
  rw [cleaned]
  split
  · next nothing =>
    refine iff_of_true ⟨_, rfl⟩ fun some_ => absurd ?_ some_
    rw [nothing.1]
    rfl
  · exact compileExpect_ok _

omit [Browser N] in
/-- The terminal sends an item exactly if it takes it. -/
theorem takes_iff {errors : DecodeErrors} {it : CollectionItem N} (view : View members it)
    (other : (given members "format").text ≠ "protobuf".toList) : (∃ s, specOf errors it = .ok s) ↔ Takes members := by
  have bytes : (∃ data, terminalBytes (given members "format").text (given members "payload").text = some data) ↔
      ((given members "format").text = "hex".toList → (hex.decodeString (replaceHex (given members "payload").text)).isSome) ∧
      ((given members "format").text = "base64".toList →
        (base64.decodeString ((given members "payload").text.filter fun c => !unicodeSpace c)).isSome) := by
    rw [← Option.isSome_iff_exists, terminalBytes]
    by_cases isHex : (given members "format").text = "hex".toList
    · rw [if_pos isHex, isHex]
      exact ⟨fun read => ⟨fun _ => read, fun same => absurd same (by decide)⟩, fun both => both.1 rfl⟩
    · by_cases isBase64 : (given members "format").text = "base64".toList
      · rw [if_neg isHex, if_pos isBase64]
        exact ⟨fun read => ⟨fun same => absurd same isHex, fun _ => read⟩, fun both => both.2 isBase64⟩
      · rw [if_neg isHex, if_neg isBase64]
        exact iff_of_true rfl ⟨fun same => absurd same isHex, fun same => absurd same isBase64⟩
  have count := int_eq view.count
  constructor
  · rintro ⟨s, ok⟩
    obtain ⟨p, t, payload, -, sound⟩ := specOf_ok.mp ok
    rw [view.format, view.payload] at payload
    obtain ⟨hex, base64⟩ := bytes.mp (payloadOf_ok payload).1
    have expect := sound.expect
    have subject := sound.subject
    have counts := sound.count
    simp only [CollectionItem.spec, view.expect, compiles_iff, view.subject, count] at expect subject counts
    exact ⟨subject, hex, base64, counts, expect⟩
  · intro takes
    obtain ⟨data, read⟩ := bytes.mpr ⟨takes.hex, takes.base64⟩
    have encoded : ∃ p t, payloadOf errors (given members "format").text (given members "payload").text = .ok (p, t) :=
      payloadOf_some other read
    obtain ⟨p, t, payload⟩ := encoded
    have sound : (it.spec p t).Sound := {
      subject := by
        change strings.trimSpace it.subject ≠ []
        rw [view.subject]
        exact takes.subject
      count := by
        change it.count ≤ runMaxCount
        rw [count]
        exact takes.count
      payload := ⟨data, ((payloadOf_ok payload).2).trans read⟩
      expect := by
        change ∃ prog, compileExpect it.expect = .ok prog
        rw [view.expect, compiles_iff]
        exact takes.expr }
    rw [← view.format, ← view.payload] at payload
    exact ⟨_, specOf_ok.mpr ⟨p, t, payload, rfl, sound⟩⟩

omit [Browser N] [Filter.Compiler] in
theorem posted_counted (v : Value) (default : N) : posted (((counted v).map Number.finite).getD (.finite default)) = sent v default := by
  rw [sent]
  cases counted (N := N) v <;> rfl

/-- A draft of the members of an object. -/
structure Drafted (members : List (Str × Value)) (d : RequestDraft N) : Prop where
  mode : d.mode = if (given members "mode").text = "request".toList then .request else .publish
  subject : d.subject = (given members "subject").text
  payload : d.payload = (given members "payload").text
  format : d.format = (payloadFormats.find? (·.id = (given members "format").text)).getD .json
  headers : d.headers = (headersOf (N := N) (given members "headers")).filter (·.key ≠ [])
  timeout : posted d.timeout = sent (given members "timeout") (5000 : N)
  count : posted d.count = sent (given members "count") (1 : N)
  concurrency : posted d.concurrency = sent (given members "concurrency") (1 : N)
  intervalMs : posted d.intervalMs = sent (given members "intervalMs") (0 : N)
  expect : ((expectationOf d).map fun e => (⟨e.expr.getD [], e.maxLatencyMs.getD 0⟩ : Expect N)) = cleaned (exprOf members) (boundOf members)

omit [Filter.Compiler] in
theorem draft_drafted {t : SavedRequest N} (imported : Imported members t) : Drafted members (draftFromSaved t) where
  mode := imported.mode
  subject := imported.subject
  payload := imported.payload
  format := by
    change t.format.getD .json = _
    rw [imported.format]
  headers := imported.headers
  timeout := by
    change posted (t.timeout.getD (.finite 5000)) = _
    rw [imported.timeout, posted_counted]
  count := by
    change posted (t.count.getD (.finite 1)) = _
    rw [imported.count, posted_counted]
  concurrency := by
    change posted (t.concurrency.getD (.finite 1)) = _
    rw [imported.concurrency, posted_counted]
  intervalMs := by
    change posted (t.intervalMs.getD (.finite 0)) = _
    rw [imported.intervalMs, posted_counted]
  expect := expect_cleaned imported.expect

omit [Filter.Compiler] in
/-- The browser finds bytes in a payload exactly if it is written as its format says. -/
theorem browserBytes_iff {d : RequestDraft N} (drafted : Drafted members d) : (∃ data, browserBytes d.format d.payload = some data) ↔
    ((given members "format").text = "hex".toList →
      let clean := Connection.trim ((withoutMarks (given members "payload").text).filter fun c => !hexNoise c)
      clean.length % 2 = 0 ∧ clean.all isHex = true) ∧
    ((given members "format").text = "base64".toList →
      let clean := (given members "payload").text.filter fun c => !Connection.trimmed c
      clean = [] ∨ base64Shape clean = true ∧ (atob clean).isSome) := by
  obtain ⟨hex, base64, -⟩ := format_cases (given members "format").text
  rw [hex, base64, ← drafted.format, ← drafted.payload, ← parseHex_isSome, ← parseBase64_isSome, ← Option.isSome_iff_exists]
  cases d.format <;> simp [browserBytes]

/-- The browser sends an item exactly if it and its server take it. -/
theorem sends_iff {env : Sending} {d : RequestDraft N} (drafted : Drafted members d) (other : d.format ≠ .protobuf) :
    (∃ s, runOf env d = some (.ok s)) ↔ Sends N members := by
  have headers : (∀ h ∈ d.headers, Connection.trim h.key ∉ inherited) ↔
      ∀ h ∈ headersOf (N := N) (given members "headers"), Connection.trim h.key ∉ inherited := by
    rw [drafted.headers]
    refine ⟨fun all h there => ?_, fun all h there => all h (List.mem_filter.mp there).1⟩
    by_cases empty : h.key = []
    · rw [empty]
      decide
    · exact all h (List.mem_filter.mpr ⟨there, decide_eq_true empty⟩)
  constructor
  · rintro ⟨s, ran⟩
    obtain ⟨sent⟩ := runOf_ok.mp ran
    obtain ⟨hex, base64⟩ := (browserBytes_iff drafted).mp (toWire_ok other sent.wire).1
    obtain ⟨timeout, count, concurrency, intervalMs⟩ := sent.numbers
    have expect : ∃ prog, compileExpect ((expectationOf d).map fun e => (⟨e.expr.getD [], e.maxLatencyMs.getD 0⟩ : Expect N)) = .ok prog :=
      sent.sound.expect
    rw [drafted.expect, compiles_cleaned] at expect
    exact {
      subject := drafted.subject ▸ sent.subject
      headers := headers.mp sent.headers
      hex := hex
      base64 := base64
      timeout := by
        rw [← drafted.timeout, timeout]
        rfl
      count := ⟨sent.count, drafted.count ▸ count, sent.sound.count⟩
      concurrency := by
        rw [← drafted.concurrency, concurrency]
        rfl
      intervalMs := by
        rw [← drafted.intervalMs, intervalMs]
        rfl
      expr := expect }
  · intro sends
    obtain ⟨data, read⟩ := (browserBytes_iff drafted).mpr ⟨sends.hex, sends.base64⟩
    have wired : ∃ p t, toWire env.encodeWith d.format d.payload (Connection.trim d.subject) = .ok (p, t) := toWire_some other read
    obtain ⟨p, t, wire⟩ := wired
    obtain ⟨timeout, first⟩ := Option.isSome_iff_exists.mp sends.timeout
    obtain ⟨count, second, most⟩ := sends.count
    obtain ⟨concurrency, third⟩ := Option.isSome_iff_exists.mp sends.concurrency
    obtain ⟨intervalMs, fourth⟩ := Option.isSome_iff_exists.mp sends.intervalMs
    have subject : Connection.trim d.subject ≠ [] := drafted.subject ▸ sends.subject
    exact ⟨_, runOf_ok.mpr ⟨{
      subject := subject
      headers := headers.mpr sends.headers
      payload := p
      payloadType := t
      wire := wire
      timeout := timeout
      count := count
      concurrency := concurrency
      intervalMs := intervalMs
      numbers := ⟨drafted.timeout.trans first, drafted.count.trans second, drafted.concurrency.trans third, drafted.intervalMs.trans fourth⟩
      limited := rfl
      sound := {
        subject := subject
        count := most
        payload := ⟨data, (toWire_ok other wire).2.trans read⟩
        expect := by
          change ∃ prog, compileExpect ((expectationOf d).map fun e => (⟨e.expr.getD [], e.maxLatencyMs.getD 0⟩ : Expect N)) = .ok prog
          rw [drafted.expect, compiles_cleaned]
          exact sends.expr } }⟩⟩

omit [OfNat N 1] [OfNat N 5000] [Numerals N] [Browser N] [Filter.Compiler] in
/-- Cleaning changes an expectation that has white space at an end of its expression, a negative bound or nothing in it. -/
theorem cleaned_same (expr : Str) (bound : N) : some ⟨expr, bound⟩ = cleaned expr bound ↔
    Connection.trim expr = expr ∧ 0 ≤ bound ∧ (expr ≠ [] ∨ 0 < bound) := by
  rw [cleaned]
  split
  · next nothing =>
    refine iff_of_false nofun fun ⟨same, _, something⟩ => ?_
    exact something.elim (fun some_ => some_ (same.symm.trans nothing.1)) nothing.2
  · next something =>
    have bounds : bound = (if 0 < bound then bound else 0) ↔ 0 ≤ bound := by
      split
      · next positive => exact iff_of_true rfl positive.le
      · next small => exact ⟨fun zero => zero.ge, fun natural => le_antisymm (not_lt.mp small) natural⟩
    rw [Option.some.injEq, Expect.mk.injEq, bounds]
    constructor
    · rintro ⟨same, natural⟩
      refine ⟨same.symm, natural, ?_⟩
      by_contra neither
      obtain ⟨empty, small⟩ := not_or.mp neither
      exact something ⟨same.symm.trans (not_not.mp empty), small⟩
    · exact fun ⟨same, natural, _⟩ => ⟨same.symm, natural⟩

omit [Browser N] [Filter.Compiler] in
theorem expectOf_cleaned (v : Value) :
    expectOf v = cleaned (given v.inside "expr").text (numeral (N := N) (given v.inside "maxLatencyMs")) ↔
      v = .null ∨ Connection.trim (given v.inside "expr").text = (given v.inside "expr").text ∧
        0 ≤ numeral (N := N) (given v.inside "maxLatencyMs") ∧
        ((given v.inside "expr").text ≠ [] ∨ 0 < numeral (N := N) (given v.inside "maxLatencyMs")) := by
  cases v with
  | null => exact iff_of_true (if_pos ⟨rfl, lt_irrefl _⟩).symm (Or.inl rfl)
  | _ => exact (cleaned_same _ _).trans (or_iff_right nofun).symm

/-- A header by its texts. -/
def pair (h : Value) : Str × Str := ((given h.inside "key").text, (given h.inside "value").text)

omit [Filter.Compiler] in
theorem textOf_string {v : Value} (kind : string.kind v) : textOf (some (parsed (N := N) v)) = v.text := by
  rcases kind with rfl | ⟨s, rfl⟩ <;> rfl

variable [Folding]

omit [Filter.Compiler] in
/-- What the browser leaves out of the headers has no name. -/
theorem headers_collected {v : Value} (plain : ∀ h ∈ v.elements, PlainHeader h) (spelled : ∀ h ∈ v.elements, Spelled ["key", "value"] h.inside) :
    collected Connection.trim (((headersOf (N := N) v).filter (·.key ≠ [])).map fun h => (h.key, h.value)) =
      collected Connection.trim (v.elements.map pair) := by
  have texts (h : Value) (there : h ∈ v.elements) (name : String) (named : name ∈ ["key", "value"]) (kind : string.kind (given h.inside name)) :
      textOf (property (parsed (N := N) h) name) = (given h.inside name).text :=
    (read_parsed textOf rfl (spelled h there name named)).trans (textOf_string kind)
  have read : headersOf (N := N) v = (v.elements.filter fun h => isObject (parsed (N := N) h)).map fun h =>
      (⟨(pair h).1, (pair h).2⟩ : HeaderPair) := by
    refine List.map_congr_left fun h there => ?_
    have there := (List.mem_filter.mp there).1
    rw [texts h there "key" (by decide) (plain h there).key, texts h there "value" (by decide) (plain h there).value]
    rfl
  have kept : ((headersOf (N := N) v).filter (·.key ≠ [])).map (fun h => (h.key, h.value)) =
      ((v.elements.filter fun h => isObject (parsed (N := N) h)).map pair).filter fun h => h.1 ≠ [] := by
    rw [read, List.filter_map, List.map_map, List.filter_map]
    rfl
  have named : ((v.elements.filter fun h => isObject (parsed (N := N) h)).map pair).filter (fun h => h.1 ≠ []) =
      (v.elements.map pair).filter fun h => h.1 ≠ [] := by
    rw [List.filter_map, List.filter_map, List.filter_filter]
    refine congrArg _ (List.filter_congr fun h there => ?_)
    rcases (plain h there).shape with rfl | ⟨members, rfl⟩
    · rfl
    · exact Bool.and_true _
  rw [kept, named]
  refine collected_filter fun h there dropped => ?_
  have empty : h.1 = [] := not_not.mp (of_decide_eq_false dropped)
  rw [empty]
  rfl

section Specs
variable {errors : DecodeErrors} {env : Sending} {it : CollectionItem N} {d : RequestDraft N} {s s' : RunSpec N}

omit [LinearOrder N] [OfNat N 0] [OfNat N 1] [OfNat N 5000] [Numerals N] [Browser N] [Folding] [Filter.Compiler] in
/-- Counts that are taken, and their shares, come out the same. -/
theorem counts_same {a b : RunSpec N} {k m c n : Int} (first : a.count = k ∧ a.concurrency = c)
    (second : b.count = m ∧ b.concurrency = n) (few : k ≤ runMaxCount) (few' : m ≤ runMaxCount) (counts : m = k ∨ (k ≤ 0 ∧ m = 1) ∨ (2 ^ 53 ≤ k ∧ 2 ^ 53 ≤ m))
    (shares : n = c ∨ (c ≤ 0 ∧ n = 1) ∨ (2 ^ 53 ≤ c ∧ 2 ^ 53 ≤ n)) :
    a.limited.count = b.limited.count ∧ a.limited.concurrency = b.limited.concurrency := by
  have limit : runMaxCount = 10000 := rfl
  have share : runMaxConcurrency = 64 := rfl
  simp only [RunSpec.limited, first, second, share]
  rw [limit] at few few'
  have count : (if k < 1 then 1 else k) = if m < 1 then 1 else m := by
    split <;> split <;> omega
  refine ⟨count, ?_⟩
  rw [count]
  have share : (if 64 < (if c < 1 then 1 else c) then 64 else if c < 1 then 1 else c) =
      if 64 < (if n < 1 then 1 else n) then 64 else if n < 1 then 1 else n := by
    rcases shares with rfl | ⟨low, rfl⟩ | ⟨high, high'⟩
    · rfl
    · have least : c < 1 := by omega
      simp [least]
    · have more : ¬ c < 1 ∧ 64 < c := by omega
      have more' : ¬ n < 1 ∧ 64 < n := by omega
      simp [more, more']
  rw [share]

/-- What both send is the same exactly if they read it alike. -/
theorem same_iff (spelled : SpelledItem members) (view : View members it) (drafted : Drafted members d) (text : d.format ≠ .protobuf)
    (ok : specOf errors it = .ok s) (ran : Sent env d s') : SameSpec s s' ↔ SameRead N members := by
  obtain ⟨p, t, payload, rfl, sound⟩ := specOf_ok.mp ok
  obtain ⟨subject, headers, p', t', wire, timeout, count, concurrency, intervalMs, ⟨-, counts, shares, pauses⟩, rfl, sound'⟩ := ran
  rw [drafted.count] at counts
  rw [drafted.concurrency] at shares
  rw [drafted.intervalMs] at pauses
  have counted := counts_same (a := it.spec p t) (b := spec d p' t' timeout count concurrency intervalMs) ⟨rfl, rfl⟩ ⟨rfl, rfl⟩ sound.count
    sound'.count (sent_cases view.count Numerals.one counts) (sent_cases view.concurrency Numerals.one shares)
  have mode : (it.spec p t).limited.mode = (spec d p' t' timeout count concurrency intervalMs).limited.mode := by
    change (if it.mode ≠ "request".toList then _ else it.mode) = if d.mode.text ≠ "request".toList then _ else d.mode.text
    rw [view.mode, drafted.mode]
    by_cases asks : (given members "mode").text = "request".toList
    · rw [if_neg (not_not.mpr asks), if_pos asks, asks]
      rfl
    · rw [if_pos asks, if_neg asks]
      rfl
  have bytes : (it.spec p t).limited.bytes = (spec d p' t' timeout count concurrency intervalMs).limited.bytes := by
    change sentBytes p t = sentBytes p' t'
    obtain ⟨⟨data, read⟩, sent⟩ := payloadOf_ok payload
    obtain ⟨taken, sent'⟩ := toWire_ok text wire
    rw [view.format, view.payload, terminalBytes_format, ← drafted.format, ← drafted.payload] at read sent
    rw [sent, sent', read, bytes_same read (Option.isSome_iff_exists.mpr taken)]
  have subjects : (it.spec p t).limited.subject = (spec d p' t' timeout count concurrency intervalMs).limited.subject ↔
      strings.trimSpace (given members "subject").text = Connection.trim (given members "subject").text := by
    change strings.trimSpace it.subject = Connection.trim d.subject ↔ _
    rw [view.subject, drafted.subject]
  have names : (it.spec p t).limited.headers = (spec d p' t' timeout count concurrency intervalMs).limited.headers ↔
      ∀ h ∈ (given members "headers").elements,
        strings.trimSpace (given h.inside "key").text = Connection.trim (given h.inside "key").text := by
    change collected strings.trimSpace (((it.headers.map Slice.items).getD []).map fun h => (h.key, h.value)) =
      collected Connection.trim (d.headers.map fun h => (h.key, h.value)) ↔ _
    rw [view.headers, drafted.headers, headers_collected view.plain spelled.headers, List.map_map]
    exact trims_same.trans List.forall_mem_map
  have paused : (it.spec p t).limited.interval = (spec d p' t' timeout count concurrency intervalMs).limited.interval ↔
      ∀ n, sent (given members "intervalMs") (0 : N) = some n → pause (millis (given members "intervalMs").whole) = pause (millis n) := by
    change pause (millis it.intervalMs) = pause (millis intervalMs) ↔ _
    rw [int_eq view.intervalMs]
    exact ⟨fun same n there => Option.some.inj (pauses.symm.trans there) ▸ same, fun all => all _ pauses⟩
  have expected : (it.spec p t).limited.expect = (spec d p' t' timeout count concurrency intervalMs).limited.expect ↔
      given members "expect" = .null ∨ Connection.trim (exprOf members) = exprOf members ∧ 0 ≤ boundOf (N := N) members ∧
        (exprOf members ≠ [] ∨ 0 < boundOf (N := N) members) := by
    change it.expect = (expectationOf d).map _ ↔ _
    rw [drafted.expect, view.expect]
    exact expectOf_cleaned _
  constructor
  · intro same
    exact ⟨subjects.mp same.subject, names.mp same.headers, paused.mp same.interval, expected.mp same.expect⟩
  · intro read
    exact ⟨mode, subjects.mpr read.subject, bytes, names.mpr read.headers, counted.1, counted.2, paused.mpr read.intervalMs,
      expected.mpr read.expect⟩

end Specs

section Same
variable [Recognizer] {errors : DecodeErrors} {env : Sending} {file : CollectionFile N} {i : ℕ} {t : SavedRequest N}
variable {uuid : ℕ → { id : Str // id ≠ [] }} {now : ℕ → { n : N // 0 ≤ n }}

omit [Browser N] [Folding] [Recognizer] in
theorem browser_eq_some {s : RunSpec N} : browser env t = some s ↔ runOf env (draftFromSaved t) = some (.ok s) := by
  unfold browser
  cases runOf env (draftFromSaved t) with
  | none => exact iff_of_false nofun nofun
  | some ran => cases ran <;> simp [Except.toOption]

/-- The terminal sends an item exactly if it reads the file and takes the item. -/
theorem terminal_isSome (spelled : SpelledAt file.value i) (there : (listed file.value)[i]? = some (.object (entry file.value i)))
    (named : (given (entry file.value i) "format").text ≠ "protobuf".toList) :
    (terminal (N := N) errors file.data i).isSome ↔ Loads file ∧ Takes (entry file.value i) := by
  rw [Option.isSome_iff_exists]
  constructor
  · rintro ⟨s, sent⟩
    obtain ⟨loads, it, filled, ok⟩ := (terminal_eq_some spelled.items there).mp sent
    exact ⟨loads, (takes_iff (item_view spelled.item filled) named).mp ⟨s, ok⟩⟩
  · rintro ⟨loads, takes⟩
    have kind := loads.kinds _ (List.mem_of_getElem? there)
    obtain ⟨it, filled⟩ := Option.isSome_iff_exists.mp ((collectionItem.takes {} _).mpr kind)
    obtain ⟨s, ok⟩ := (takes_iff (item_view spelled.item filled) named).mpr takes
    exact ⟨s, (terminal_eq_some spelled.items there).mpr ⟨loads, it, filled, ok⟩⟩

omit [Folding] [Recognizer] in
theorem browser_isSome {members : List (Str × Value)} (drafted : Drafted members (draftFromSaved t))
    (text : (draftFromSaved t).format ≠ .protobuf) : (browser env t).isSome ↔ Sends N members := by
  rw [← sends_iff drafted text, Option.isSome_iff_exists]
  exact exists_congr fun s => browser_eq_some

omit [Filter.Compiler] [Folding] [Recognizer] in
theorem format_other {members : List (Str × Value)} (imported : Imported members t) (other : t.format ≠ some .protobuf) :
    (given members "format").text ≠ "protobuf".toList ∧ (draftFromSaved t).format ≠ .protobuf := by
  have text : (draftFromSaved t).format ≠ .protobuf := by
    change t.format.getD .json ≠ .protobuf
    cases shape : t.format with
    | none => decide
    | some g => exact fun same => other (shape.trans (congrArg some same))
  exact ⟨fun same => text ((draft_drafted imported).format.trans ((format_cases _).2.2.mp same)), text⟩

/-- A template that is no protobuf, and whose names are written once as they are exported, is sent alike from the terminal
and from the browser exactly if one takes it whenever the other does and both read it alike. -/
theorem template_same_iff (accepted : Accepted uuid now file i t) (other : t.format ≠ some .protobuf) (spelled : SpelledAt file.value i) :
    SameMessage (terminal errors file.data i) (browser env t) ↔ Alike file i := by
  obtain ⟨there, imported⟩ := accepted_entry spelled accepted
  obtain ⟨named, text⟩ := format_other imported other
  have drafted := draft_drafted imported
  have taken : (terminal (N := N) errors file.data i).isSome ↔ _ := terminal_isSome spelled there named
  have sends : (browser env t).isSome ↔ _ := browser_isSome drafted text
  have read {s s' : RunSpec N} (sent : terminal errors file.data i = some s) (sent' : browser env t = some s') :
      SameSpec s s' ↔ SameRead N (entry file.value i) := by
    obtain ⟨-, it, filled, ok⟩ := (terminal_eq_some spelled.items there).mp sent
    obtain ⟨ran⟩ := runOf_ok.mp (browser_eq_some.mp sent')
    exact same_iff spelled.item (item_view spelled.item filled) drafted text ok ran
  constructor
  · intro same
    refine ⟨taken.symm.trans (same.accepted.trans sends), fun loads takes => ?_⟩
    have first := taken.mpr ⟨loads, takes⟩
    obtain ⟨s, sent⟩ := Option.isSome_iff_exists.mp first
    obtain ⟨s', sent'⟩ := Option.isSome_iff_exists.mp (same.accepted.mp first)
    exact (read sent sent').mp (same.same s s' sent sent')
  · intro alike
    refine ⟨taken.trans (alike.taken.trans sends.symm), fun s s' sent sent' => ?_⟩
    obtain ⟨loads, takes⟩ := taken.mp (Option.isSome_of_eq_some sent)
    exact (read sent sent').mpr (alike.read loads takes)

end Same

end Taken

end NatsExplorer.RunCli.Agreement

/-! ### A printer of documents -/

namespace NatsExplorer.Client.Json
open Go savedRequests

/-- A text and its end. -/
def quoted (s : Str) : Str := s.flatMap (fun c => ['-', c]) ++ ['.']

def numbered : Number ℤ → Str
  | .finite (.ofNat n) => quoted ('p' :: List.replicate n '1')
  | .finite (.negSucc n) => quoted ('m' :: List.replicate n '1')
  | .infinite true => quoted ['i']
  | .infinite false => quoted ['j']
  | .nan => quoted ['n']

mutual

/-- A text for every document, none of which starts another. -/
def printed : Json (Number ℤ) → Str
  | .null => ['n']
  | .bool b => [if b then 't' else 'f']
  | .number n => 'd' :: numbered n
  | .string s => 's' :: quoted s
  | .array items => 'a' :: printedItems items
  | .object members => 'o' :: printedMembers members

def printedItems : List (Json (Number ℤ)) → Str
  | [] => ['.']
  | v :: vs => '-' :: printed v ++ printedItems vs

def printedMembers : List (Str × Json (Number ℤ)) → Str
  | [] => ['.']
  | (k, v) :: ms => '-' :: quoted k ++ printed v ++ printedMembers ms

end

theorem quoted_append {s s' r r' : Str} (same : quoted s ++ r = quoted s' ++ r') : s = s' ∧ r = r' := by
  induction s generalizing s' with
  | nil =>
    cases s' with
    | nil => exact ⟨rfl, (List.cons.inj same).2⟩
    | cons c s' => exact absurd (List.cons.inj same).1 (by decide)
  | cons c s ih =>
    cases s' with
    | nil => exact absurd (List.cons.inj same).1 (by decide)
    | cons c' s' =>
      obtain ⟨same_c, rest⟩ := List.cons.inj (List.cons.inj same).2
      obtain ⟨rfl, rfl⟩ := ih rest
      exact ⟨congrArg (· :: s) same_c, rfl⟩

theorem numbered_append {n n' : Number ℤ} {r r' : Str} (same : numbered n ++ r = numbered n' ++ r') : n = n' ∧ r = r' := by
  have plain {a b : Char} {k k' : ℕ} (same : a :: List.replicate k '1' = b :: List.replicate k' '1') : a = b ∧ k = k' := by
    obtain ⟨first, rest⟩ := List.cons.inj same
    exact ⟨first, by simpa using congrArg List.length rest⟩
  rcases n with (n | n) | (_ | _) | _ <;> rcases n' with (n' | n') | (_ | _) | _ <;>
    obtain ⟨texts, rfl⟩ := quoted_append same <;> first
      | exact ⟨rfl, rfl⟩
      | (obtain ⟨-, rfl⟩ := plain texts; exact ⟨rfl, rfl⟩)
      | exact absurd (List.cons.inj texts).1 (by decide)

mutual

theorem printed_append (v v' : Json (Number ℤ)) {r r' : Str} (same : printed v ++ r = printed v' ++ r') : v = v' ∧ r = r' := by
  cases v <;> cases v' <;> simp only [printed, List.cons_append] at same <;> obtain ⟨first, rest⟩ := List.cons.inj same
  case null.null => exact ⟨rfl, rest⟩
  case bool.bool b b' =>
    refine ⟨congrArg Json.bool ?_, rest⟩
    cases b <;> cases b' <;> first | rfl | exact absurd first (by decide)
  case number.number n n' =>
    obtain ⟨rfl, rfl⟩ := numbered_append rest
    exact ⟨rfl, rfl⟩
  case string.string s s' =>
    obtain ⟨rfl, rfl⟩ := quoted_append rest
    exact ⟨rfl, rfl⟩
  case array.array items items' =>
    obtain ⟨rfl, rfl⟩ := printedItems_append items items' rest
    exact ⟨rfl, rfl⟩
  case object.object members members' =>
    obtain ⟨rfl, rfl⟩ := printedMembers_append members members' rest
    exact ⟨rfl, rfl⟩
  all_goals
    first
    | exact absurd first (by decide)
    | (split at first <;> exact absurd first (by decide))

theorem printedItems_append (vs vs' : List (Json (Number ℤ))) {r r' : Str} (same : printedItems vs ++ r = printedItems vs' ++ r') :
    vs = vs' ∧ r = r' := by
  cases vs <;> cases vs' <;> simp only [printedItems, List.cons_append, List.append_assoc] at same <;> obtain ⟨first, rest⟩ := List.cons.inj same
  case nil.nil => exact ⟨rfl, rest⟩
  case cons.cons v vs v' vs' =>
    obtain ⟨rfl, later⟩ := printed_append v v' rest
    obtain ⟨rfl, rfl⟩ := printedItems_append vs vs' later
    exact ⟨rfl, rfl⟩
  all_goals exact absurd first (by decide)

theorem printedMembers_append (ms ms' : List (Str × Json (Number ℤ))) {r r' : Str}
    (same : printedMembers ms ++ r = printedMembers ms' ++ r') : ms = ms' ∧ r = r' := by
  rcases ms with _ | ⟨⟨k, v⟩, ms⟩ <;> rcases ms' with _ | ⟨⟨k', v'⟩, ms'⟩ <;>
    simp only [printedMembers, List.cons_append, List.append_assoc] at same <;> obtain ⟨first, rest⟩ := List.cons.inj same
  · exact ⟨rfl, rest⟩
  · exact absurd first (by decide)
  · exact absurd first (by decide)
  · obtain ⟨rfl, inner⟩ := quoted_append rest
    obtain ⟨rfl, later⟩ := printed_append v v' inner
    obtain ⟨rfl, rfl⟩ := printedMembers_append ms ms' later
    exact ⟨rfl, rfl⟩

end

theorem printed_injective : Function.Injective printed := fun v v' same =>
  (printed_append v v' (congrArg (· ++ []) same)).1

end NatsExplorer.Client.Json

/-! ### A file with one template in hex -/

namespace NatsExplorer.RunCli.Agreement
open Go Go.json Go.json.Decoder Handler Client savedRequests payloadFormat RequestForm AlertDialog

attribute [local instance] goTables

/-- Whole numbers, written as they are. -/
@[reducible] def wholeNumbers : Numerals ℤ where
  read text := ((parseInt text).map Number.finite).getD .nan
  int n := if -2 ^ 63 ≤ n ∧ n < 2 ^ 63 then some n else none
  sign {text k} parsed := ⟨k, by rw [parsed]; rfl, Iff.rfl⟩
  exact {text k n} parsed read natural small := by
    rw [parsed] at read
    cases read
    exact if_pos ⟨by omega, by omega⟩
  beyond {text k m n} parsed read large int := by
    rw [parsed] at read
    cases read
    obtain ⟨-, same⟩ := Option.ite_none_right_eq_some.mp int
    exact Option.some.inj same ▸ large
  zero := rfl
  one := rfl
  timeout := rfl

attribute [local instance] wholeNumbers

@[reducible] def asciiFolding : Folding where
  foldRune := id

attribute [local instance] asciiFolding

@[reducible] def noFilters : Filter.Compiler where
  compile _ := .error []

attribute [local instance] noFilters

/-- The members of the one template, whose payload is in hex. -/
def hexMembers (payload : String) : List (Str × Value) :=
  [("subject".toList, .string "orders".toList), ("format".toList, .string "hex".toList), ("payload".toList, .string payload.toList)]

def hexValue (payload : String) : Value := .array [.object (hexMembers payload)]

def hexText (payload : String) : Str :=
  "[\x7b\"subject\":\"orders\",\"format\":\"hex\",\"payload\":\"".toList ++ payload.toList ++ "\"\x7d]".toList

@[reducible] def hexRecognizer (payload : String) : Recognizer where
  value text := if text = utf8 (hexText payload) then some (hexValue payload, []) else none
  foldName := id

open Classical in
@[reducible] noncomputable def hexBrowser (payload : String) : Browser ℤ where
  stringify _ v := if v = parsed (hexValue payload) then hexText payload else ' ' :: v.printed
  parse s :=
    if s = hexText payload then some (parsed (hexValue payload))
    else if made : ∃ v, ' ' :: Json.printed v = s then some made.choose
    else none
  parse_stringify {indented v} _ := by
    split
    · next same => rw [if_pos rfl, same]
    · next other =>
      rw [if_neg nofun]
      split
      · next made =>
        have same := made.choose_spec
        exact congrArg some (Json.printed_injective (List.cons.inj same).2)
      · next none => exact absurd ⟨v, rfl⟩ none
  string _ := "[object Object]".toList

def hexErrors : DecodeErrors where
  hex _ := "encoding/hex: invalid byte".toList
  base64 _ := "illegal base64 data".toList

def hexSending : Sending where
  encodeWith _ _ := .error "no type".toList
  notInt := "json: cannot unmarshal number".toList
  notBase64 _ := "illegal base64 data".toList

theorem hexText_unmarshal {payload : String} (short : (utf8 (hexText payload)).length ≤ readLimit) :
    let := hexRecognizer payload
    json.unmarshal ((utf8 (hexText payload)).take readLimit) = some (hexValue payload) := by
  intro _
  have value : Recognizer.value (utf8 (hexText payload)) = some (hexValue payload, []) := if_pos rfl
  rw [List.take_of_length_le short, json.unmarshal, value]
  rfl

noncomputable def hexFile (payload : String) (short : (utf8 (hexText payload)).length ≤ readLimit) :
    let := hexBrowser payload
    let := hexRecognizer payload
    CollectionFile ℤ :=
  let := hexBrowser payload
  let := hexRecognizer payload
  { data := utf8 (hexText payload)
    text := hexText payload
    value := hexValue payload
    parse := if_pos rfl
    unmarshal := fun _ read => Option.some.inj (read.symm.trans (hexText_unmarshal short)) }

def hexTemplate (payload : String) : SavedRequest ℤ where
  id := "t".toList
  name := []
  mode := .publish
  subject := "orders".toList
  payload := payload.toList
  format := some .hex
  headers := []
  timeout := none
  count := none
  concurrency := none
  intervalMs := none
  expect := none
  updatedAt := 0

theorem hexTemplate_accepted (payload : String) (short : (utf8 (hexText payload)).length ≤ readLimit) :
    let := hexBrowser payload
    let := hexRecognizer payload
    Accepted (fun _ => ⟨"t".toList, nofun⟩) (fun _ => ⟨0, le_rfl⟩) (hexFile payload short) 0 (hexTemplate payload) :=
  ⟨_, rfl, rfl⟩

theorem hexMembers_spelled (payload : String) : SpelledAt (hexValue payload) 0 where
  items := ⟨nofun, Nat.zero_le 1⟩
  item := {
    names := fun name there => by
      have keys : (hexMembers payload).map Prod.fst = ["subject".toList, "format".toList, "payload".toList] := rfl
      have exact_ : ∀ name ∈ itemNames, ∀ k ∈ ["subject".toList, "format".toList, "payload".toList],
          foldName k = foldName name.toList → k = name.toList := by decide
      have single : ∀ name ∈ itemNames,
          (["subject".toList, "format".toList, "payload".toList].filter fun k => foldName k = foldName name.toList).length ≤ 1 := by decide
      refine ⟨fun m here same => exact_ name there m.1 (keys ▸ List.mem_map_of_mem here) same, ?_⟩
      have only := single name there
      rw [← keys, List.filter_map, List.length_map] at only
      exact only
    headers := nofun
    expect := fun _ _ => ⟨nofun, Nat.zero_le 1⟩ }

/-- A payload of hex digits is sent by the browser. -/
theorem hexTemplate_sends (payload : String) (digits : (parseHex payload.toList).isSome) :
    let := hexBrowser payload
    Sends ℤ (hexMembers payload) := by
  intro _
  exact {
    subject := (by decide : Connection.trim "orders".toList ≠ [])
    headers := nofun
    hex := fun _ => parseHex_isSome.mp digits
    base64 := fun same => absurd (show "hex".toList = "base64".toList from same) (by decide)
    timeout := rfl
    count := ⟨1, rfl, by decide⟩
    concurrency := rfl
    intervalMs := rfl
    expr := fun some_ => absurd rfl some_ }

/-- Both take the bytes of a template that is spaced. -/
theorem hexTemplate_alike :
    let := hexBrowser "de ad"
    let := hexRecognizer "de ad"
    Alike (hexFile "de ad" (by decide)) 0 := by
  intro _ _
  have loads : Loads (hexFile "de ad" (by decide)) := {
    whole := Option.isSome_of_eq_some (hexText_unmarshal (by decide))
    kinds := fun v there => by
      obtain rfl := List.mem_singleton.mp there
      exact (collectionItem.takes {} _).mp rfl }
  have takes : Takes (hexMembers "de ad") := {
    subject := by decide
    hex := fun _ => by decide
    base64 := fun same => absurd same (by decide)
    count := by decide
    expr := fun some_ => absurd rfl some_ }
  have read : SameRead ℤ (hexMembers "de ad") := {
    subject := by decide
    headers := nofun
    intervalMs := fun n there => by
      cases there
      rfl
    expect := Or.inl rfl }
  exact ⟨iff_of_true ⟨loads, takes⟩ (hexTemplate_sends "de ad" (by decide)), fun _ _ => read⟩

theorem template_same_spaced :
    let := hexBrowser "de ad"
    let := hexRecognizer "de ad"
    SameMessage (terminal hexErrors (utf8 (hexText "de ad")) 0) (browser hexSending (hexTemplate "de ad")) := by
  intro _ _
  exact (template_same_iff (hexTemplate_accepted "de ad" (by decide)) (by decide) (hexMembers_spelled "de ad")).mpr hexTemplate_alike

/-- A comma between the bytes is passed over by the browser alone. -/
theorem template_differs :
    let := hexBrowser "de,ad"
    let := hexRecognizer "de,ad"
    ¬ ∀ (uuid : ℕ → { id : Str // id ≠ [] }) (now : ℕ → { n : ℤ // 0 ≤ n }) (file : CollectionFile ℤ) (i : ℕ) (t : SavedRequest ℤ),
      Accepted uuid now file i t → t.format ≠ some .protobuf →
        SameMessage (terminal hexErrors file.data i) (browser hexSending t) := by
  intro _ _ same
  have accepted := hexTemplate_accepted "de,ad" (by decide)
  have spelled : SpelledAt (hexFile "de,ad" (by decide)).value 0 := hexMembers_spelled "de,ad"
  obtain ⟨there, imported⟩ := accepted_entry spelled accepted
  have sent : (browser hexSending (hexTemplate "de,ad")).isSome :=
    (browser_isSome (draft_drafted imported) (by decide)).mpr (hexTemplate_sends "de,ad" (by decide))
  have taken := (same _ _ _ 0 _ accepted (by decide)).accepted.mpr sent
  have takes := ((terminal_isSome spelled there (by decide)).mp taken).2
  exact absurd (takes.hex rfl) (by decide)

end NatsExplorer.RunCli.Agreement
