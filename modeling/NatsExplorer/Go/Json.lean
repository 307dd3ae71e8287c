import NatsExplorer.Go.Text
import Mathlib.Data.List.Basic

/-! `encoding/json` into structs. The recognizer stays a parameter: it reads the first
value of a text and leaves the rest, which `Decode` ignores and `Unmarshal` refuses. -/
namespace Go.json

inductive Value where
  | null
  | bool (b : Bool)
  | number (text : Str)
  | string (s : Str)
  | array (items : List Value)
  | object (fields : List (Str × Value))

class Recognizer where
  value : List UInt8 → Option (Value × List UInt8)
  /-- Keys that differ in case are one. -/
  foldName : Str → Str

def isSpace (b : UInt8) : Bool := b = 32 || b = 9 || b = 10 || b = 13

variable [Recognizer]

/-- `Decoder.Decode` -/
def decode (text : List UInt8) : Option Value := (Recognizer.value text).map Prod.fst

/-- `Unmarshal` -/
def unmarshal (text : List UInt8) : Option Value :=
  match Recognizer.value text with
  | some (v, rest) => if rest.all isSpace then some v else none
  | none => none

/-- The string field of a struct and whether it decodes; the last value of a key
counts, and a `null` changes nothing. -/
def stringField (name : Str) : Value → Str × Bool
  | .null => ([], true)
  | .object fields => fields.foldl (fun (current, ok) (key, v) =>
      if Recognizer.foldName key ≠ Recognizer.foldName name then (current, ok)
      else
        match v with
        | .string s => (s, ok)
        | .null => (current, ok)
        | _ => (current, false)) ([], true)
  | _ => ([], false)

end Go.json

/-! How `encoding/json` fills a struct: by the name of a field in any case, a value over what an earlier one left there,
and nothing at all where a value of another kind turns up. -/
namespace Go.json

/-- The letters beyond ASCII that differ in case only. -/
class Folding where
  foldRune : Char → Char

section Names
variable [Folding]

def foldName (name : Str) : Str :=
  name.map fun c => if c.toNat < 128 then if 'a' ≤ c ∧ c ≤ 'z' then Char.ofNat (c.toNat - 32) else c else Folding.foldRune c

/-- Only one member has the name in any case, and that has it as it is here. -/
structure Once {α : Type} (name : String) (members : List (Str × α)) : Prop where
  exact : ∀ m ∈ members, foldName m.1 = foldName name.toList → m.1 = name.toList
  single : (members.filter fun m => foldName m.1 = foldName name.toList).length ≤ 1

def Spelled {α : Type} (names : List String) (members : List (Str × α)) : Prop := ∀ name ∈ names, Once name members

end Names

/-- `strconv.ParseInt` of a number of JSON, in 64 bits. -/
def parseInt (text : Str) : Option Int :=
  let (negative, digits) :=
    match text with
    | '-' :: digits => (true, digits)
    | digits => (false, digits)
  let n : Int := digits.foldl (fun n c => 10 * n + (c.toNat - '0'.toNat : Nat)) 0
  let n := if negative then -n else n
  if digits = [] ∨ ¬ digits.all Char.isDigit ∨ n < -2 ^ 63 ∨ 2 ^ 63 ≤ n then none else some n

namespace Value

def text : Value → Str
  | .string s => s
  | _ => []

def whole : Value → Int
  | .number text => (parseInt text).getD 0
  | _ => 0

def elements : Value → List Value
  | .array items => items
  | _ => []

def inside : Value → List (Str × Value)
  | .object members => members
  | _ => []

end Value

/-- What a value makes of what was there before, if it is of the kind. -/
structure Decoder (α : Type) where
  into : α → Value → Option α
  kind : Value → Prop
  takes (a : α) (v : Value) : (into a v).isSome ↔ kind v

/-- A slice, and what is behind its end from an earlier one. -/
structure Slice (α : Type) where
  items : List α
  spare : List α := []

namespace Decoder
variable {α β : Type}

def string : Decoder Str where
  into
    | s, .null => some s
    | _, .string s => some s
    | _, _ => none
  kind v := v = .null ∨ ∃ s, v = .string s
  takes a v := by cases v <;> simp

def int : Decoder Int where
  into
    | n, .null => some n
    | _, .number text => parseInt text
    | _, _ => none
  kind v := v = .null ∨ ∃ text n, v = .number text ∧ parseInt text = some n
  takes a v := by
    cases v with
    | number text => simp [Option.isSome_iff_exists]
    | _ => simp

/-- `float64`, which the numeral has to fit. -/
def float (parse : Str → Option α) : Decoder α where
  into
    | x, .null => some x
    | _, .number text => parse text
    | _, _ => none
  kind v := v = .null ∨ ∃ text x, v = .number text ∧ parse text = some x
  takes a v := by
    cases v with
    | number text => simp [Option.isSome_iff_exists]
    | _ => simp

def pointer (d : Decoder α) (zero : α) : Decoder (Option α) where
  into
    | _, .null => some none
    | a, v => (d.into (a.getD zero) v).map some
  kind v := v = .null ∨ d.kind v
  takes a v := by
    cases v <;> simp [d.takes]

/-- One item after the other, each over what is there in memory. -/
def intoItems (d : Decoder α) (zero : α) : List α → List Value → Option (List α)
  | _, [] => some []
  | memory, v :: vs => do
    let a ← d.into (memory.headD zero) v
    let rest ← intoItems d zero memory.tail vs
    some (a :: rest)

theorem intoItems_isSome (d : Decoder α) (zero : α) (memory : List α) (vs : List Value) :
    (d.intoItems zero memory vs).isSome ↔ ∀ v ∈ vs, d.kind v := by
  induction vs generalizing memory with
  | nil => simp [intoItems]
  | cons v vs ih =>
    rw [intoItems, List.forall_mem_cons, ← d.takes (memory.headD zero) v, ← ih memory.tail]
    cases d.into (memory.headD zero) v with
    | none => simp
    | some a => cases d.intoItems zero memory.tail vs <;> simp

def slice (d : Decoder α) (zero : α) : Decoder (Option (Slice α)) where
  into
    | _, .null => some none
    | s, .array vs =>
      let memory := (s.map fun s => s.items ++ s.spare).getD []
      (d.intoItems zero memory vs).map fun items => some { items := items, spare := if vs = [] then [] else memory.drop vs.length }
    | _, _ => none
  kind v := v = .null ∨ ∃ vs, v = .array vs ∧ ∀ item ∈ vs, d.kind item
  takes s v := by
    cases v with
    | array vs => simp [d.intoItems_isSome]
    | _ => simp

/-- A field of a struct. -/
def field (get : α → β) (set : α → β → α) (d : Decoder β) : Decoder α where
  into a v := (d.into (get a) v).map (set a)
  kind := d.kind
  takes a v := by rw [Option.isSome_map, d.takes]

variable [Folding]

def fieldOf (fields : List (String × Decoder α)) (key : Str) : Option (Decoder α) :=
  (fields.find? fun f => foldName key = foldName f.1.toList).map Prod.snd

/-- A member of an object; one that no field is named after is skipped. -/
def member (fields : List (String × Decoder α)) (a : α) (m : Str × Value) : Option α :=
  match fieldOf fields m.1 with
  | some d => d.into a m.2
  | none => some a

theorem members_isSome (fields : List (String × Decoder α)) (a : α) (members : List (Str × Value)) :
    (members.foldlM (member fields) a).isSome ↔ ∀ m ∈ members, ∀ d, fieldOf fields m.1 = some d → d.kind m.2 := by
  induction members generalizing a with
  | nil => simp
  | cons m members ih =>
    have first : (member fields a m).isSome ↔ ∀ d, fieldOf fields m.1 = some d → d.kind m.2 := by
      unfold member
      cases fieldOf fields m.1 with
      | none => simp
      | some d => simp [d.takes]
    rw [List.foldlM_cons, List.forall_mem_cons, ← first]
    cases member fields a m with
    | none => simp
    | some b => simpa using ih b

def struct (fields : List (String × Decoder α)) : Decoder α where
  into
    | a, .null => some a
    | a, .object members => members.foldlM (member fields) a
    | _, _ => none
  kind v := v = .null ∨ ∃ members, v = .object members ∧ ∀ m ∈ members, ∀ d, fieldOf fields m.1 = some d → d.kind m.2
  takes a v := by
    cases v with
    | object members => simp [members_isSome]
    | _ => simp

omit [Folding] in
theorem string_eq {v : Value} {s : Str} (into : string.into [] v = some s) : s = v.text := by
  cases v <;> cases into <;> rfl

omit [Folding] in
theorem int_eq {v : Value} {n : Int} (into : int.into 0 v = some n) : n = v.whole := by
  cases v with
  | number text =>
    have parsed : parseInt text = some n := into
    rw [Value.whole, parsed]
    rfl
  | null =>
    cases into
    rfl
  | _ => cases into

omit [Folding] in
/-- Over an empty memory the items are what each value makes alone. -/
theorem intoItems_eq {d : Decoder α} {zero : α} {f : Value → α} {vs : List Value} {items : List α}
    (each : ∀ v ∈ vs, ∀ a, d.into zero v = some a → a = f v) (into : d.intoItems zero [] vs = some items) : items = vs.map f := by
  induction vs generalizing items with
  | nil =>
    cases into
    rfl
  | cons v vs ih =>
    simp only [intoItems, Option.bind_eq_bind, Option.bind_eq_some_iff, Option.some.injEq] at into
    obtain ⟨a, first, rest, later, rfl⟩ := into
    obtain ⟨here, each⟩ := List.forall_mem_cons.mp each
    rw [here a first, ih each later]
    rfl

omit [Folding] in
theorem intoItems_getElem? {d : Decoder α} {zero : α} {vs : List Value} {items : List α} (into : d.intoItems zero [] vs = some items) (i : ℕ) :
    items[i]? = (vs[i]?).bind (d.into zero) := by
  induction vs generalizing items i with
  | nil =>
    cases into
    rfl
  | cons v vs ih =>
    simp only [intoItems, Option.bind_eq_bind, Option.bind_eq_some_iff, Option.some.injEq] at into
    obtain ⟨a, first, rest, later, rfl⟩ := into
    cases i with
    | zero => exact first.symm
    | succ i => simpa using ih later i

omit [Folding] in
theorem slice_each {d : Decoder α} {zero : α} {v : Value} {s : Option (Slice α)} (into : (slice d zero).into none v = some s) :
    ∀ item ∈ v.elements, ∃ a, d.into zero item = some a := by
  intro item there
  rcases ((slice d zero).takes none v).mp (Option.isSome_of_eq_some into) with rfl | ⟨vs, rfl, each⟩
  · cases there
  · exact Option.isSome_iff_exists.mp ((d.takes zero item).mpr (each item there))

omit [Folding] in
/-- Where there was no slice, its items are what each value makes alone. -/
theorem slice_eq {d : Decoder α} {zero : α} {f : Value → α} {v : Value} {s : Option (Slice α)}
    (each : ∀ item ∈ v.elements, ∀ a, d.into zero item = some a → a = f item) (into : (slice d zero).into none v = some s) :
    (s.map Slice.items).getD [] = v.elements.map f := by
  cases v with
  | null =>
    cases into
    rfl
  | array vs =>
    obtain ⟨items, made, rfl⟩ := Option.map_eq_some_iff.mp into
    exact intoItems_eq each made
  | _ => cases into

/-! ### What a field holds in the end -/

/-- One field decides what `get` shows. -/
structure Fills (fields : List (String × Decoder α)) (name : String) (get : α → β) (d : Decoder β) : Prop where
  apart : (fields.map fun f => foldName f.1.toList).Nodup
  here : name ∈ fields.map Prod.fst
  own : ∀ f ∈ fields, f.1 = name → ∀ a v, (f.2.into a v).map get = d.into (get a) v
  other : ∀ f ∈ fields, f.1 ≠ name → ∀ a v a', f.2.into a v = some a' → get a' = get a

/-- The member of a name, `null` if there is none. -/
def given (members : List (Str × Value)) (name : String) : Value := (members.lookup name.toList).getD .null

theorem given_eq {members : List (Str × Value)} {name : String} (once : Once name members) {m : Str × Value} (here : m ∈ members)
    (named : foldName m.1 = foldName name.toList) : given members name = m.2 := by
  induction members with
  | nil => cases here
  | cons first members ih =>
    have single := once.single
    by_cases same : foldName first.1 = foldName name.toList
    · rw [List.filter_cons_of_pos (by simpa using same), List.length_cons] at single
      have none : members.filter (fun m => foldName m.1 = foldName name.toList) = [] := List.length_eq_zero_iff.mp (by omega)
      rcases List.mem_cons.mp here with rfl | later
      · rw [given, List.lookup_cons, once.exact m List.mem_cons_self same, beq_self_eq_true]
        rfl
      · exact absurd named (by simpa using List.filter_eq_nil_iff.mp none m later)
    · rcases List.mem_cons.mp here with rfl | later
      · exact absurd named same
      · have other : (name.toList == first.1) = false := beq_false_of_ne fun equal => same (by rw [equal])
        rw [List.filter_cons_of_neg (by simpa using same)] at single
        have once : Once name members := ⟨fun m member => once.exact m (List.mem_cons_of_mem _ member), single⟩
        rw [← ih once later, given, given, List.lookup_cons, other]

theorem fieldOf_own {fields : List (String × Decoder α)} (apart : (fields.map fun f => foldName f.1.toList).Nodup) {name : String}
    {e : Decoder α} (here : (name, e) ∈ fields) {key : Str} (same : foldName key = foldName name.toList) : fieldOf fields key = some e := by
  induction fields with
  | nil => cases here
  | cons f fields ih =>
    rw [List.map_cons, List.nodup_cons] at apart
    rcases List.mem_cons.mp here with rfl | later
    · simp [fieldOf, same]
    · have passed : foldName key ≠ foldName f.1.toList := by
        intro first
        refine apart.1 (List.mem_map.mpr ⟨_, later, ?_⟩)
        rw [← first, same]
      have := ih apart.2 later
      simpa [fieldOf, passed] using this

section Filled
variable {fields : List (String × Decoder α)} {name : String} {get : α → β} {d : Decoder β} {members : List (Str × Value)} {a a' : α}

theorem Fills.step_other (fills : Fills fields name get d) {m : Str × Value} (different : foldName m.1 ≠ foldName name.toList)
    (step : member fields a m = some a') : get a' = get a := by
  unfold member at step
  cases found : fieldOf fields m.1 with
  | none =>
    rw [found] at step
    cases step
    rfl
  | some e =>
    rw [found] at step
    obtain ⟨f, first, rfl⟩ := Option.map_eq_some_iff.mp found
    refine fills.other f (List.mem_of_find?_eq_some first) (fun same => different ?_) a m.2 a' step
    rw [← same]
    simpa using List.find?_some first

theorem Fills.absent (fills : Fills fields name get d) (absent : ∀ m ∈ members, foldName m.1 ≠ foldName name.toList)
    (run : members.foldlM (member fields) a = some a') : get a' = get a := by
  induction members generalizing a with
  | nil =>
    cases run
    rfl
  | cons m members ih =>
    obtain ⟨next, step, rest⟩ := Option.bind_eq_some_iff.mp run
    obtain ⟨different, absent⟩ := List.forall_mem_cons.mp absent
    rw [ih absent rest, fills.step_other different step]

/-- What is left in a field is what its member makes of what was there, in whatever case it is written. -/
theorem Fills.get_eq (fills : Fills fields name get d) {key : String} (cased : foldName key.toList = foldName name.toList)
    (once : Once key members) (run : members.foldlM (member fields) a = some a') (null : d.into (get a) .null = some (get a)) :
    d.into (get a) (given members key) = some (get a') := by
  induction members generalizing a with
  | nil =>
    cases run
    exact null
  | cons m members ih =>
    obtain ⟨next, step, rest⟩ := Option.bind_eq_some_iff.mp run
    by_cases same : foldName m.1 = foldName key.toList
    · have exact_ := once.exact m List.mem_cons_self same
      have absent : ∀ m ∈ members, foldName m.1 ≠ foldName name.toList := by
        have single := once.single
        rw [List.filter_cons_of_pos (by simpa using same), List.length_cons] at single
        have none : members.filter (fun m => foldName m.1 = foldName key.toList) = [] := List.length_eq_zero_iff.mp (by omega)
        rw [← cased]
        simpa using List.filter_eq_nil_iff.mp none
      obtain ⟨⟨_, e⟩, here, rfl⟩ := List.mem_map.mp fills.here
      have into : e.into a m.2 = some next := by
        rwa [member, fieldOf_own fills.apart here (same.trans cased)] at step
      have own := fills.own _ here rfl a m.2
      have shown : given (m :: members) key = m.2 := by
        rw [given, List.lookup_cons, exact_, beq_self_eq_true]
        rfl
      rw [shown, ← own, into, fills.absent absent rest]
      rfl
    · have kept := fills.step_other (fun folded => same (folded.trans cased.symm)) step
      have skipped : given (m :: members) key = given members key := by
        have other : (key.toList == m.1) = false := beq_false_of_ne fun equal => same (by rw [equal])
        rw [given, List.lookup_cons, other]
        rfl
      have once : Once key members := by
        refine ⟨fun m member => once.exact m (List.mem_cons_of_mem _ member), ?_⟩
        have single := once.single
        rwa [List.filter_cons_of_neg (by simpa using same)] at single
      rw [skipped, ← kept]
      exact ih once rest (kept ▸ null)

end Filled

omit [Folding]

theorem field_own {get : α → β} {set : α → β → α} (d : Decoder β) (back : ∀ a b, get (set a b) = b) (a : α) (v : Value) :
    ((field get set d).into a v).map get = d.into (get a) v := by
  have same : get ∘ set a = id := funext (back a)
  rw [field, Option.map_map, same, Option.map_id, id]

theorem field_other {γ : Type} {get : α → β} {set : α → β → α} {d : Decoder β} {g : α → γ} {a a' : α} {v : Value}
    (into : (field get set d).into a v = some a') (keeps : ∀ a b, g (set a b) = g a) : g a' = g a := by
  obtain ⟨b, -, rfl⟩ := Option.map_eq_some_iff.mp into
  exact keeps a b

section Pair
variable [Folding] {γ : Type} {name name' : String} {get : α → β} {set : α → β → α} {get' : α → γ} {set' : α → γ → α} {d : Decoder β}
  {d' : Decoder γ}

/-- In a struct of two fields each takes what is given by its name, as long as the other leaves it alone. -/
theorem fills_first (apart : foldName name.toList ≠ foldName name'.toList) (back : ∀ a b, get (set a b) = b)
    (keeps : ∀ a c, get (set' a c) = get a) : Fills [(name, field get set d), (name', field get' set' d')] name get d where
  apart := List.nodup_cons.mpr ⟨fun there => apart (List.mem_singleton.mp there), List.nodup_singleton _⟩
  here := List.mem_cons_self
  own := by
    simp only [List.forall_mem_cons]
    exact ⟨fun _ => field_own d back, fun same => absurd (congrArg (fun n => foldName n.toList) same.symm) apart, nofun⟩
  other := by
    simp only [List.forall_mem_cons]
    exact ⟨fun other => absurd rfl other, fun _ _ _ _ into => field_other into keeps, nofun⟩

theorem fills_second (apart : foldName name.toList ≠ foldName name'.toList) (back : ∀ a c, get' (set' a c) = c)
    (keeps : ∀ a b, get' (set a b) = get' a) : Fills [(name, field get set d), (name', field get' set' d')] name' get' d' where
  apart := List.nodup_cons.mpr ⟨fun there => apart (List.mem_singleton.mp there), List.nodup_singleton _⟩
  here := List.mem_cons_of_mem _ List.mem_cons_self
  own := by
    simp only [List.forall_mem_cons]
    exact ⟨fun same => absurd (congrArg (fun n => foldName n.toList) same) apart, fun _ => field_own d' back, nofun⟩
  other := by
    simp only [List.forall_mem_cons]
    exact ⟨fun _ _ _ _ into => field_other into keeps, fun other => absurd rfl other, nofun⟩

end Pair

end Decoder
end Go.json
