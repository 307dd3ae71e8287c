import NatsExplorer.Feature.Schemas
import NatsExplorer.Schema.Collected
import Mathlib.Algebra.Order.Field.Basic
import Mathlib.Algebra.Order.Field.Rat

/-! Validating payloads against a schema someone pinned as the expected one (`internal/schema`). -/
namespace NatsExplorer.schema
open Go Go.json
open Feature (ExpectedField)

/-- A schema pinned for a subject pattern. -/
structure Expected where
  fields : List ExpectedField
  /-- Also report paths the pinned schema does not know. -/
  strict : Bool := false

inductive Violation.Kind where
  | missing
  | type
  | enum
  | unexpected
  | payload
  deriving DecidableEq, Repr

/-- One way a payload differs from what was pinned. -/
structure Violation where
  path : Str := []
  kind : Violation.Kind
  want : Str := []
  got : Str := []
  deriving DecidableEq, Repr

/-- A field as it is expected. -/
def Field.pinned {F : Type} (f : Field F) : ExpectedField where
  path := f.path
  types := (f.types.map (·.type.name)).mergeSort (· ≤ ·)
  required := decide ((1 : ℚ) ≤ f.presence)

/-- Fields that every sampled message carried become required, the observed types the allowed ones. -/
def FromSchema {F : Type} (s : Schema F) : Expected where
  fields := s.fields.map Field.pinned

/-- An integer is a whole number. -/
def accepts (want : List Str) (got : JsonType) : Bool :=
  decide (got.name ∈ want) || decide (got = .integer) && decide (JsonType.number.name ∈ want)

def join (list : List Str) : Str := List.intercalate " or ".toList list

namespace Expected

/-- The last of the fields with a path. -/
def byPath (e : Expected) (path : Str) : Option ExpectedField := e.fields.reverse.find? (·.path = path)

def typeViolation (f : ExpectedField) (path : Str) (v : Value) : List Violation :=
  if f.types ≠ [] ∧ ¬ accepts f.types (typeOf v) then
    [{ path := path, kind := .type, want := join f.types, got := (typeOf v).name }]
  else []

def enumViolation (f : ExpectedField) (path : Str) (v : Value) : List Violation :=
  match v with
  | .string s => if f.enum ≠ [] ∧ s ∉ f.enum then [{ path := path, kind := .enum, want := join f.enum, got := s }] else []
  | _ => []

/-- The visitor of `Check`; below an unknown branch there are no expectations. -/
def visit (e : Expected) (path : Str) (v : Value) (s : List Str × List Violation) : Bool × (List Str × List Violation) :=
  let (seen, out) := s
  match e.byPath path with
  | none => (e.strict, (path :: seen, if e.strict then out ++ [{ path := path, kind := .unexpected }] else out))
  | some f => (true, (path :: seen, out ++ typeViolation f path v ++ enumViolation f path v))

def missing (e : Expected) (seen : List Str) : List Violation :=
  (e.fields.filter fun f => f.required && decide (f.path ∉ seen)).map fun f => { path := f.path, kind := .missing }

/-- How a payload differs from the pinned schema. -/
def Check [Recognizer] (e : Expected) (kind : Kind) (payload : Str) : List Violation :=
  if e.fields = [] then []
  else if kind ≠ .json then [{ kind := .payload, got := "payload is not JSON".toList }]
  else
    match decode payload with
    | none => [{ kind := .payload, got := "payload is not valid JSON".toList }]
    | some doc =>
      let (seen, out) := WalkDoc [] doc 0 e.visit ([], [])
      (out ++ e.missing seen).mergeSort fun a b => a.path ≤ b.path

end Expected

section Pinned
variable {F : Type} [Formats F]

omit [Formats F] in
/-- A type that was seen is among the types of the field, or is an integer and numbers are. -/
theorem numbersMerged_seen {types : Map JsonType ℕ} {t : JsonType} (seen : 0 < (types.lookup t).getD 0) :
    t ∈ numbersMerged types ∨ t = .integer ∧ JsonType.number ∈ numbersMerged types := by
  have there : t ∈ types := by
    refine AList.lookup_isSome.mp ?_
    cases found : types.lookup t with
    | none => simp [found] at seen
    | some => rfl
  unfold numbersMerged
  simp only
  split
  · exact .inl there
  · have number : JsonType.number ∈ (types.insert .number ((types.lookup .number).getD 0 + (types.lookup .integer).getD 0)).erase .integer :=
      AList.mem_erase.mpr ⟨nofun, (AList.mem_insert ..).mpr (.inl rfl)⟩
    by_cases integer : t = .integer
    · exact .inr ⟨integer, number⟩
    · exact .inl (AList.mem_erase.mpr ⟨integer, (AList.mem_insert ..).mpr (.inr there)⟩)

omit [Formats F] in
theorem mem_field_types (rt : Runtime) (n : ℕ) (p : Str) (st : Stat F) (t : JsonType) :
    t ∈ (st.field rt n p).types.map (·.type) ↔ t ∈ numbersMerged st.types := by
  simp only [Stat.field, List.mem_map, rt.mem_sortSlice, rt.mem_range]
  constructor
  · rintro ⟨count, ⟨e, member, rfl⟩, rfl⟩
    exact AList.mem_keys.mpr (List.mem_map.mpr ⟨e, member, rfl⟩)
  · intro there
    obtain ⟨e, member, same⟩ := List.mem_map.mp (AList.mem_keys.mp there)
    exact ⟨⟨e.1, e.2⟩, ⟨e, member, rfl⟩, same⟩

omit [Formats F] in
/-- The fields are those of the paths a collector knows. -/
theorem mem_fields (rt : Runtime) (c : Collector F) (f : Field F) :
    f ∈ c.fields rt ↔ ∃ p st, c.paths.lookup p = some st ∧ f = st.field rt c.samples p := by
  simp only [Collector.fields, List.mem_map, rt.mem_sortSlice, rt.mem_range]
  constructor
  · rintro ⟨e, member, rfl⟩
    exact ⟨e.1, e.2, AList.mem_lookup_iff.mpr member, rfl⟩
  · rintro ⟨p, st, found, rfl⟩
    exact ⟨⟨p, st⟩, AList.mem_lookup_iff.mp found, rfl⟩

omit [Formats F] in
/-- A value of a type that was seen is accepted. -/
theorem seen_accepted (rt : Runtime) (n : ℕ) (p : Str) (st : Stat F) {t : JsonType} (seen : 0 < (st.types.lookup t).getD 0) :
    accepts (st.field rt n p).pinned.types t = true := by
  have listed {t : JsonType} (there : t ∈ numbersMerged st.types) : t.name ∈ (st.field rt n p).pinned.types := by
    obtain ⟨count, member, same⟩ := List.mem_map.mp ((mem_field_types rt n p st t).mpr there)
    exact List.mem_mergeSort.mpr (List.mem_map.mpr ⟨count, member, congrArg JsonType.name same⟩)
  unfold accepts
  obtain here | ⟨integer, number⟩ := numbersMerged_seen seen
  · rw [decide_eq_true (listed here), Bool.true_or]
  · rw [decide_eq_true integer, decide_eq_true (listed number), Bool.true_and, Bool.or_true]

/-- What every document carried is in each of them. -/
theorem required_carried (rt : Runtime) {p : Str} {shown : List (List (Str × Value))} {first : ℕ}
    (required : ((Stat.of p shown first : Stat F).field rt shown.length p).pinned.required = true) {doc : List (Str × Value)}
    (member : doc ∈ shown) : p ∈ doc.map Prod.fst := by
  have some_ : 0 < shown.length := List.length_pos_of_mem member
  have all : (1 : ℚ) ≤ (Stat.carried p shown : ℚ) / (max 1 shown.length : ℕ) := of_decide_eq_true required
  rw [max_eq_right some_, one_le_div (by exact_mod_cast some_)] at all
  have every : shown.countP (fun doc => decide (p ∈ doc.map Prod.fst)) = shown.length :=
    le_antisymm List.countP_le_length (by exact_mod_cast all)
  exact of_decide_eq_true (List.countP_eq_length.mp every doc member)

variable [Recognizer]

/-- What is pinned are the paths the inference knows. -/
theorem mem_pinned (rt : Runtime) {msgs : List NatsMessage} (some_ : msgs ≠ []) (f : ExpectedField) :
    let c : Collector F := collect (inOrder msgs)
    f ∈ (FromSchema (Infer (F := F) rt msgs)).fields ↔
      ∃ p st, c.paths.lookup p = some st ∧ f = (st.field rt c.samples p).pinned := by
  simp only [FromSchema, infer_fields rt some_, List.mem_map, mem_fields]
  constructor
  · rintro ⟨field, ⟨p, st, found, rfl⟩, rfl⟩
    exact ⟨p, st, found, rfl⟩
  · rintro ⟨p, st, found, rfl⟩
    exact ⟨_, ⟨p, st, found, rfl⟩, rfl⟩

omit [Formats F] [Recognizer] in
theorem byPath_some {e : Expected} {p : Str} {f : ExpectedField} (found : e.byPath p = some f) : f ∈ e.fields ∧ f.path = p :=
  ⟨List.mem_reverse.mp (List.mem_of_find?_eq_some found), of_decide_eq_true (List.find?_some found :)⟩

/-- A path has an expectation exactly if the inference knows it. -/
theorem byPath_known (rt : Runtime) {msgs : List NatsMessage} (some_ : msgs ≠ []) (p : Str) :
    ((FromSchema (Infer (F := F) rt msgs)).byPath p).isSome = (collect (inOrder msgs) : Collector F).knows p := by
  rw [Bool.eq_iff_iff]
  constructor
  · intro found
    obtain ⟨f, found⟩ := Option.isSome_iff_exists.mp found
    obtain ⟨member, path⟩ := byPath_some found
    obtain ⟨q, st, known, rfl⟩ := (mem_pinned rt some_ f).mp member
    have same : q = p := path
    exact decide_eq_true (AList.lookup_isSome.mp (same ▸ known ▸ rfl))
  · intro known
    obtain ⟨st, found⟩ := Option.isSome_iff_exists.mp (AList.lookup_isSome.mpr (of_decide_eq_true known))
    have member := (mem_pinned rt some_ _).mpr ⟨p, st, found, rfl⟩
    exact List.find?_isSome.mpr ⟨_, List.mem_reverse.mpr member, decide_eq_true rfl⟩

omit [Formats F] [Recognizer] in
/-- A walk through values that are all accepted. -/
theorem visit_accepted {e : Expected} (lax : e.strict = false) {nodes : List (Str × Value)}
    (accepted : ∀ n ∈ nodes, ∀ f ∈ e.byPath n.1, accepts f.types (typeOf n.2) = true ∧ f.enum = []) (seen : List Str)
    (out : List Violation) :
    nodes.foldl (fun s n => (e.visit n.1 n.2 s).2) (seen, out) = ((nodes.map Prod.fst).reverse ++ seen, out) := by
  induction nodes generalizing seen out with
  | nil => rfl
  | cons n nodes ih =>
    have clean : (e.visit n.1 n.2 (seen, out)).2 = (n.1 :: seen, out) := by
      unfold Expected.visit
      cases found : e.byPath n.1 with
      | none => simp only [lax, Bool.false_eq_true, if_false]
      | some f =>
        obtain ⟨type, enum⟩ := accepted n List.mem_cons_self f found
        have typed : Expected.typeViolation f n.1 n.2 = [] := if_neg fun wrong => wrong.2 type
        have listed : Expected.enumViolation f n.1 n.2 = [] := by
          unfold Expected.enumViolation
          split
          · exact if_neg fun wrong => wrong.1 enum
          · rfl
        simp only [typed, listed, List.append_nil]
    rw [List.foldl_cons, clean, ih fun n' member => accepted n' (List.mem_cons_of_mem _ member)]
    simp only [List.map_cons, List.reverse_cons, List.append_assoc, List.singleton_append]

/-- A schema pinned from messages accepts every one of them that is JSON. -/
theorem accepts_samples (rt : Runtime) (msgs : List NatsMessage) (m : NatsMessage) (sampled : m ∈ msgs)
    (json : m.payloadType = .json) (decodes : (decode m.payload).isSome = true) :
    (FromSchema (Infer (F := F) rt msgs)).Check .json m.payload = [] := by
  have some_ : msgs ≠ [] := List.ne_nil_of_mem sampled
  obtain ⟨doc, decoded⟩ := Option.isSome_iff_exists.mp decodes
  let c : Collector F := collect (inOrder msgs)
  let docs := (inOrder msgs).filterMap docOf
  let e := FromSchema (Infer (F := F) rt msgs)
  obtain ⟨tracks, samples⟩ := Collector.collected (F := F) docs
  have samples : c.samples = (docs.map (visited c.knows)).length := samples.trans (List.length_map _).symm
  have among : visited c.knows doc ∈ docs.map (visited c.knows) := by
    refine List.mem_map_of_mem (List.mem_filterMap.mpr ⟨m, List.mem_mergeSort.mpr sampled, ?_⟩)
    rw [docOf, if_pos json, decoded]
  -- the stat behind an expectation is made of everything the documents showed
  have made {f : ExpectedField} (pinned : f ∈ e.fields) : ∃ p first, c.knows p = true ∧
      f = ((Stat.of p (docs.map (visited c.knows)) first : Stat F).field rt c.samples p).pinned := by
    obtain ⟨p, st, found, rfl⟩ := (mem_pinned rt some_ f).mp pinned
    obtain ⟨kept, there⟩ := tracks.known (AList.lookup_isSome.mp (Option.isSome_iff_exists.mpr ⟨st, found⟩))
    obtain ⟨first, stat⟩ := tracks.stats kept there
    exact ⟨p, first, kept, congrArg (fun st => (Stat.field rt c.samples p st).pinned) (Option.some.inj (found.symm.trans stat))⟩
  have answers (p : Str) (v : Value) (s : List Str × List Violation) : (e.visit p v s).1 = c.knows p := by
    rw [← byPath_known rt some_ p]
    unfold Expected.visit
    cases e.byPath p <;> rfl
  have accepted : ∀ n ∈ visited c.knows doc, ∀ f ∈ e.byPath n.1, accepts f.types (typeOf n.2) = true ∧ f.enum = [] := by
    intro n shown f found
    obtain ⟨pinned, path⟩ := byPath_some found
    obtain ⟨p, first, -, rfl⟩ := made pinned
    have here : p = n.1 := path
    refine ⟨seen_accepted rt _ _ _ ?_, rfl⟩
    rw [Stat.of_types, List.countP_pos_iff]
    exact ⟨n.2, Stat.mem_values.mpr ⟨_, among, here ▸ shown⟩, decide_eq_true rfl⟩
  have walked : WalkDoc [] doc 0 e.visit ([], []) = (((visited c.knows doc).map Prod.fst).reverse ++ [], []) :=
    (walkDoc_settled answers doc ([], [])).trans (visit_accepted rfl accepted [] [])
  have present : e.missing (((visited c.knows doc).map Prod.fst).reverse ++ []) = [] := by
    refine List.map_eq_nil_iff.mpr (List.filter_eq_nil_iff.mpr fun f pinned lacks => ?_)
    obtain ⟨p, first, -, rfl⟩ := made pinned
    rw [Bool.and_eq_true, samples] at lacks
    refine of_decide_eq_true lacks.2 ?_
    rw [List.append_nil, List.mem_reverse]
    exact required_carried rt lacks.1 among
  unfold Expected.Check
  split
  · rfl
  · rw [if_neg nofun, decoded]
    change (let (seen, out) := WalkDoc [] doc 0 e.visit ([], []); (out ++ e.missing seen).mergeSort _) = []
    rw [walked]
    change ([] ++ e.missing (((visited c.knows doc).map Prod.fst).reverse ++ [])).mergeSort _ = []
    rw [present, List.append_nil, List.mergeSort_nil]

end Pinned

/-- `{"n":1}` and `{"n":1.5}` -/
def samplePayloads : List (Str × Value) :=
  [("\x7b\"n\":1\x7d".toList, .object [(['n'], .number ['1'])]), ("\x7b\"n\":1.5\x7d".toList, .object [(['n'], .number "1.5".toList)])]

@[reducible] def sampleRecognizer : Recognizer where
  value text := (samplePayloads.find? fun sample => decide (utf8 sample.1 = text)).map fun sample => (sample.2, [])
  foldName key := key.map asciiLower

/-- Numbers in tenths, of the samples. -/
@[reducible] def sampleFormats : Formats ℕ where
  float text := if text = ['1'] then some 10 else if text = "1.5".toList then some 15 else none
  lt a b := a < b
  marshal v := match v with
    | .number text => text
    | _ => []
  quote text := text
  rfc3339 _ := false

def sampleMessage (payload : Str) (timestamp : Int) : NatsMessage where
  subject := ['s']
  payload := payload
  payloadType := .json
  headers := []
  timestamp := timestamp
  reply := []
  size := payload.length
  sequence := 0
  connID := ['l']

def sampleMessages : List NatsMessage := samplePayloads.map fun sample => sampleMessage sample.1 0

theorem accepts_samples_first :
    let := sampleRecognizer
    let := sampleFormats
    (FromSchema (Infer (F := ℕ) Runtime.plain sampleMessages)).Check .json ((samplePayloads.map Prod.fst).headD []) = [] := by
  intro _ _
  exact accepts_samples (F := ℕ) Runtime.plain sampleMessages _ List.mem_cons_self rfl (by decide)

end NatsExplorer.schema
