import NatsExplorer.Go.Runtime
import NatsExplorer.Library.Wire
import Mathlib.Algebra.Order.Field.Rat
import Mathlib.Data.List.Forall2
import Mathlib.Tactic.Ring

/-! Reading a protobuf message without its `.proto` (`client/src/lib/protoRaw.ts`): the numbers that are there, with the shape
guessed from the bytes. Bytes are read as text when they are printable from end to end, and as a nested message otherwise;
what is neither is shown as hex. -/
namespace NatsExplorer.Client
open Go Wire

namespace proto

inductive RawValue where
  | number (n : ℚ)
  | text (s : Str)
  | message (fields : List (Str × RawValue))
  | array (values : List RawValue)

abbrev RawMessage := List (Str × RawValue)

/-- What the browser brings for numbers. -/
class Numbers where
  /-- `String(Number(n))` -/
  string : ℕ → Str
  /-- Whole numbers up to this are what they are. -/
  string_eq {n : ℕ} : n ≤ 2 ^ 53 → string n = (toString n).toList
  /-- `Number(f.toPrecision(7))` -/
  toPrecision7 : ℚ → ℚ

/-- Seven bits at a time, the low ones first; more bytes than `shift` has room for are too long. -/
def varintFrom (shift result : ℕ) : List UInt8 → Option (ℕ × List UInt8)
  | [] => none
  | b :: rest =>
    let result := result ||| (b.toNat &&& 0x7f) <<< shift
    if b.toNat &&& 0x80 = 0 then some (result, rest)
    else
      let shift := shift + 7
      if 70 < shift then none else varintFrom shift result rest

def varint (bytes : List UInt8) : Option (ℕ × List UInt8) := varintFrom 0 0 bytes

def takeBytes (n : ℕ) (bytes : List UInt8) : Option (List UInt8 × List UInt8) :=
  if bytes.length < n then none else some (bytes.take n, bytes.drop n)

/-- The lowest byte first. -/
def littleEndian (bytes : List UInt8) : ℕ := bytes.foldr (fun b n => b.toNat + 256 * n) 0

/-- A binary floating-point number of `w` bits of exponent and `p` bits of fraction; none where it is not finite. -/
def float (w p n : ℕ) : Option ℚ :=
  let fraction := n % 2 ^ p
  let exponent := n / 2 ^ p % 2 ^ w
  let bias : ℤ := 2 ^ (w - 1) - 1
  let q : ℚ := if exponent = 0 then fraction * 2 ^ (1 - bias - p) else (2 ^ p + fraction) * 2 ^ (exponent - bias - p)
  if exponent = 2 ^ w - 1 then none else some (if n / 2 ^ (w + p) % 2 = 1 then -q else q)

/-- `1e-4`, as the nearest double. -/
def tenThousandth : ℚ := 7378697629483821 / 2 ^ 66

/-- A number a reader would recognise as a measurement rather than a bit pattern. -/
def readableFloat (v : Option ℚ) : Option ℚ := v.filter fun q => q = 0 || (decide (tenThousandth ≤ |q|) && decide (|q| < 10 ^ 13))

def number (v : ℕ) : RawValue := if v ≤ 2 ^ 53 - 1 then .number v else .text (toString v).toList

def printable (text : Str) : Bool :=
  text.all fun c => c.toNat ≠ 0x7f ∧ ¬(c.toNat < 0x20 ∧ c.toNat ≠ 9 ∧ c.toNat ≠ 10 ∧ c.toNat ≠ 13)

def hex (bytes : List UInt8) : Str :=
  [' '].intercalate (bytes.map fun b => [Nat.digitChar (b.toNat / 16), Nat.digitChar (b.toNat % 16)])

/-- `utf8.decode`, which drops a byte order mark. -/
def decode (bytes : List UInt8) : Option Str :=
  bytes.toByteArray.utf8Decode?.map fun text =>
    match text.toList with
    | '\uFEFF' :: text => text
    | text => text

def textOf (bytes : List UInt8) : Option Str := (decode bytes).filter fun text => text ≠ [] ∧ printable text

def hexOf (bytes : List UInt8) : Str :=
  if bytes = [] then []
  else (toString bytes.length).toList ++ " bytes · ".toList ++ hex (bytes.take 32) ++ if 32 < bytes.length then " …".toList else []

/-- One more value of a field: the second makes it an array. -/
def add (out : RawMessage) (key : Str) (value : RawValue) : RawMessage :=
  match out.lookup key with
  | none => out ++ [(key, value)]
  | some (.array values) => out.map fun (k, v) => (k, if k = key then .array (values ++ [value]) else v)
  | some seen => out.map fun (k, v) => (k, if k = key then .array [seen, value] else v)

section
variable [Numbers]

def fixed64 (b : List UInt8) : RawValue := ((readableFloat (float 11 52 (littleEndian b))).map .number).getD (number (littleEndian b))

def fixed32 (b : List UInt8) : RawValue :=
  ((readableFloat (float 8 23 (littleEndian b))).map fun f => .number (Numbers.toPrecision7 f)).getD (number (littleEndian b))

/-- One field: its number, its value and what is left. -/
def field (lengthDelimited : List UInt8 → RawValue) (bytes : List UInt8) : Option ((ℕ × RawValue) × List UInt8) := do
  let (key, rest) ← varint bytes
  let field := key >>> 3
  if field = 0 then none
  else
    match key &&& 7 with
    | 0 =>
      let (v, rest) ← varint rest
      some ((field, number v), rest)
    | 1 =>
      let (b, rest) ← takeBytes 8 rest
      some ((field, fixed64 b), rest)
    | 2 =>
      let (n, rest) ← varint rest
      let (b, rest) ← takeBytes n rest
      some ((field, lengthDelimited b), rest)
    | 5 =>
      let (b, rest) ← takeBytes 4 rest
      some ((field, fixed32 b), rest)
    | _ => none

end

/-! ### Fields -/

/-- What the reader takes: numbers of up to eleven bytes. -/
def loose : Limits := { len := 11, value := 2 ^ 77, field := 2 ^ 74 }

/-- What protobuf writes. -/
def strict : Limits := { len := 10, value := 2 ^ 64, field := 2 ^ 29 }

theorem strict_loose : strict.Within loose := ⟨by decide, by decide, by decide⟩

theorem high_bit : ∀ b < 256, b &&& 0x80 = 0 ↔ b < 128 := by
  decide +kernel

theorem varintFrom_iff {shift result : ℕ} (low : result < 2 ^ shift) (room : shift ≤ 70) {bs rest : List UInt8} {v : ℕ} :
    varintFrom shift result bs = some (v, rest) ↔
      ∃ c, bs = c ++ rest ∧ Closed c ∧ shift + 7 * c.length ≤ 77 ∧ v = result + 2 ^ shift * Wire.number c := by
  induction bs generalizing shift result with
  | nil =>
    constructor
    · intro read
      cases read
    · rintro ⟨c, split, closed, -⟩
      obtain ⟨rfl, -⟩ := List.append_eq_nil_iff.mp split.symm
      exact absurd rfl closed.ne_nil
  | cons b bs ih =>
    have digit : result ||| (b.toNat &&& 0x7f) <<< shift = result + 2 ^ shift * (b.toNat % 128) := by
      rw [Nat.and_two_pow_sub_one_eq_mod b.toNat 7, Nat.or_comm, ← Nat.shiftLeft_add_eq_or_of_lt low, Nat.shiftLeft_eq, Nat.add_comm, Nat.mul_comm]
    have more : b.toNat &&& 0x80 = 0 ↔ b.toNat < 128 := high_bit b.toNat b.toNat_lt
    have start (c : List UInt8) (split : b :: bs = c ++ rest) (closed : Closed c) : ∃ c', c = b :: c' ∧ bs = c' ++ rest := by
      cases c with
      | nil => exact absurd rfl closed.ne_nil
      | cons b' c' =>
        obtain ⟨rfl, tail⟩ := List.cons.inj split
        exact ⟨c', rfl, tail⟩
    unfold varintFrom
    dsimp only
    rw [digit]
    split
    · rename_i last
      have last := more.mp last
      rw [Option.some.injEq, Prod.mk.injEq]
      constructor
      · rintro ⟨rfl, rfl⟩
        refine ⟨[b], rfl, ?_, ?_, ?_⟩
        · rw [Closed, if_pos last]
        · rw [List.length_singleton]
          omega
        · rw [Wire.number, Wire.number, Nat.mul_zero, Nat.add_zero]
      · rintro ⟨c, split, closed, -, rfl⟩
        obtain ⟨c', rfl, rfl⟩ := start c split closed
        rw [Closed, if_pos last] at closed
        subst closed
        exact ⟨by rw [Wire.number, Wire.number, Nat.mul_zero, Nat.add_zero], rfl⟩
    · rename_i last
      have last := mt more.mpr last
      have closed_iff (c : List UInt8) : Closed (b :: c) ↔ Closed c := by
        rw [Closed, if_neg last]
      split
      · rename_i long
        constructor
        · intro read
          cases read
        · rintro ⟨c, split, closed, short, -⟩
          obtain ⟨c', rfl, -⟩ := start c split closed
          have some_ := List.length_pos_iff.mpr ((closed_iff c').mp closed).ne_nil
          rw [List.length_cons] at short
          omega
      · rename_i short
        have grown : result + 2 ^ shift * (b.toNat % 128) < 2 ^ (shift + 7) := by
          have bits : b.toNat % 128 + 1 ≤ 128 := Nat.mod_lt _ (by decide)
          have scaled := Nat.mul_le_mul_left (2 ^ shift) bits
          rw [Nat.mul_add] at scaled
          rw [Nat.pow_add]
          omega
        have value (c : List UInt8) : result + 2 ^ shift * (b.toNat % 128) + 2 ^ (shift + 7) * Wire.number c =
            result + 2 ^ shift * Wire.number (b :: c) := by
          rw [Wire.number, Nat.pow_add, Nat.mul_add]
          ring
        rw [ih grown (by omega)]
        constructor
        · rintro ⟨c, rfl, closed, room, rfl⟩
          refine ⟨b :: c, rfl, (closed_iff c).mpr closed, ?_, value c⟩
          rw [List.length_cons]
          omega
        · rintro ⟨c, split, closed, room, rfl⟩
          obtain ⟨c', rfl, rfl⟩ := start c split closed
          rw [List.length_cons] at room
          exact ⟨c', rfl, (closed_iff c').mp closed, by omega, (value c').symm⟩

theorem varint_iff {bs rest : List UInt8} {v : ℕ} : varint bs = some (v, rest) ↔ ∃ c, bs = c ++ rest ∧ Varint loose v c := by
  rw [varint, varintFrom_iff (by decide) (by decide)]
  refine exists_congr fun c => and_congr_right fun _ => ⟨fun ⟨closed, short, value⟩ => ?_, fun varint => ?_⟩
  · have few : c.length ≤ 11 := by omega
    have same : Wire.number c = v := by omega
    refine ⟨closed, few, ?_, same⟩
    calc v = Wire.number c := same.symm
      _ < 128 ^ c.length := number_lt c
      _ ≤ 128 ^ 11 := Nat.pow_le_pow_right (by decide) few
  · have few : c.length ≤ 11 := varint.short
    exact ⟨varint.closed, by omega, by rw [varint.same]; omega⟩

theorem takeBytes_iff {n : ℕ} {bs b rest : List UInt8} : takeBytes n bs = some (b, rest) ↔ bs = b ++ rest ∧ b.length = n := by
  unfold takeBytes
  split
  · rename_i short
    refine ⟨nofun, fun ⟨split, long⟩ => ?_⟩
    rw [split, List.length_append] at short
    omega
  · rename_i long
    rw [Option.some.injEq, Prod.mk.injEq]
    constructor
    · rintro ⟨rfl, rfl⟩
      exact ⟨(List.take_append_drop n bs).symm, List.length_take_of_le (not_lt.mp long)⟩
    · rintro ⟨rfl, rfl⟩
      exact ⟨List.take_left, List.drop_left⟩

section Fields
variable [Numbers] {read : List UInt8 → RawValue}

/-- What a content is read as. -/
def reading (read : List UInt8 → RawValue) : Content → RawValue
  | .varint n => number n
  | .fixed64 b => fixed64 b
  | .delimited b => read b
  | .fixed32 b => fixed32 b

theorem field_iff {bs rest : List UInt8} {f : ℕ} {v : RawValue} : field read bs = some ((f, v), rest) ↔
    ∃ o b, bs = b ++ rest ∧ Field loose o b ∧ f = o.field ∧ v = reading read o.content := by
  have low_ {key : ℕ} {c : List UInt8} (tag : Varint loose key c) : key / 8 < 2 ^ 74 := by
    have low : key < 2 ^ 77 := tag.low
    omega
  have shifted (key : ℕ) : key >>> 3 = key / 8 := Nat.shiftRight_eq_div_pow key 3
  have wired (key : ℕ) : key &&& 7 = key % 8 := Nat.and_two_pow_sub_one_eq_mod key 3
  constructor
  · intro taken
    obtain ⟨⟨key, left⟩, first, inner⟩ := Option.bind_eq_some_iff.mp taken
    clear taken
    obtain ⟨tag, rfl, tagged⟩ := varint_iff.mp first
    dsimp only at inner
    rw [shifted, wired] at inner
    split at inner
    · cases inner
    rename_i some_
    have key_eq := Nat.div_add_mod key 8
    have make (content : Content) (body : List UInt8) (wire : key % 8 = content.wire) (coded : Body loose content body) :
        Field loose { field := key / 8, content := content } (tag ++ body) := by
      refine ⟨by dsimp only; omega, low_ tagged, tag, body, ?_, coded, rfl⟩
      have same : key / 8 * 8 + content.wire = key := by omega
      change Varint loose (key / 8 * 8 + content.wire) tag
      rwa [same]
    split at inner
    · rename_i wire
      obtain ⟨⟨n, rest'⟩, second, done⟩ := Option.bind_eq_some_iff.mp inner
      obtain ⟨body, rfl, coded⟩ := varint_iff.mp second
      cases done
      exact ⟨_, tag ++ body, (List.append_assoc _ _ _).symm, make (.varint n) body wire coded, rfl, rfl⟩
    · rename_i wire
      obtain ⟨⟨b, rest'⟩, second, done⟩ := Option.bind_eq_some_iff.mp inner
      obtain ⟨rfl, long⟩ := takeBytes_iff.mp second
      cases done
      exact ⟨_, tag ++ b, (List.append_assoc _ _ _).symm, make (.fixed64 b) b wire ⟨rfl, long⟩, rfl, rfl⟩
    · rename_i wire
      obtain ⟨⟨n, rest'⟩, second, last⟩ := Option.bind_eq_some_iff.mp inner
      obtain ⟨length, rfl, coded⟩ := varint_iff.mp second
      obtain ⟨⟨b, rest''⟩, third, done⟩ := Option.bind_eq_some_iff.mp last
      obtain ⟨rfl, long⟩ := takeBytes_iff.mp third
      cases done
      refine ⟨_, tag ++ (length ++ b), ?_, make (.delimited b) (length ++ b) wire ⟨length, long ▸ coded, rfl⟩, rfl, rfl⟩
      rw [List.append_assoc, List.append_assoc]
    · rename_i wire
      obtain ⟨⟨b, rest'⟩, second, done⟩ := Option.bind_eq_some_iff.mp inner
      obtain ⟨rfl, long⟩ := takeBytes_iff.mp second
      cases done
      exact ⟨_, tag ++ b, (List.append_assoc _ _ _).symm, make (.fixed32 b) b wire ⟨rfl, long⟩, rfl, rfl⟩
    · cases inner
  · rintro ⟨o, b, rfl, ⟨positive, low, tag, body, tagged, coded, rfl⟩, rfl, rfl⟩
    have first : varint (tag ++ body ++ rest) = some (o.field * 8 + o.content.wire, body ++ rest) :=
      varint_iff.mpr ⟨tag, List.append_assoc _ _ _, tagged⟩
    have wire := o.content.wire_lt
    have quotient : (o.field * 8 + o.content.wire) / 8 = o.field := by omega
    have remainder : (o.field * 8 + o.content.wire) % 8 = o.content.wire := by omega
    unfold field
    rw [first, Option.bind_eq_bind, Option.bind_some]
    dsimp only
    rw [shifted, wired, quotient, remainder, if_neg (by omega)]
    obtain ⟨f, content⟩ := o
    cases content with
    | varint n =>
      have second : varint (body ++ rest) = some (n, rest) := varint_iff.mpr ⟨body, rfl, coded⟩
      simp only [Content.wire, second, Option.bind_some, reading]
    | fixed64 v =>
      obtain ⟨rfl, long⟩ := coded
      have second : takeBytes 8 (body ++ rest) = some (body, rest) := takeBytes_iff.mpr ⟨rfl, long⟩
      simp only [Content.wire, second, Option.bind_eq_bind, Option.bind_some, reading]
    | delimited v =>
      obtain ⟨length, counted, rfl⟩ := coded
      have second : varint (length ++ v ++ rest) = some (v.length, v ++ rest) := varint_iff.mpr ⟨length, List.append_assoc _ _ _, counted⟩
      have third : takeBytes v.length (v ++ rest) = some (v, rest) := takeBytes_iff.mpr ⟨rfl, rfl⟩
      simp only [Content.wire, second, third, Option.bind_eq_bind, Option.bind_some, reading]
    | fixed32 v =>
      obtain ⟨rfl, long⟩ := coded
      have second : takeBytes 4 (body ++ rest) = some (body, rest) := takeBytes_iff.mpr ⟨rfl, long⟩
      simp only [Content.wire, second, Option.bind_eq_bind, Option.bind_some, reading]

theorem field_shorter {bs rest : List UInt8} {v : ℕ × RawValue} (taken : field read bs = some (v, rest)) : rest.length < bs.length := by
  obtain ⟨o, b, rfl, field, -⟩ := field_iff.mp taken
  rw [List.length_append]
  have some_ := List.length_pos_iff.mpr field.ne_nil
  omega

end Fields

/-! ### Messages -/

section Messages
variable [Numbers]

/-- All the fields, or none where one is no field. -/
def parse (lengthDelimited : List UInt8 → RawValue) (bytes : List UInt8) (out : RawMessage) : Option RawMessage :=
  if bytes = [] then some out
  else
    match _taken : field lengthDelimited bytes with
    | none => none
    | some ((field, value), rest) => parse lengthDelimited rest (add out (Numbers.string field) value)
termination_by bytes.length
decreasing_by exact field_shorter _taken

/-- The message, or none when these bytes are not a protobuf message. -/
def tryParse (lengthDelimited : List UInt8 → RawValue) (bytes : List UInt8) : Option RawMessage :=
  (parse lengthDelimited bytes []).filter fun msg => !msg.isEmpty

/-- Text first: both readings are possible for the same bytes, and a string is what people put in a field far more often. -/
def guess (nested : List UInt8 → Option RawMessage) (bytes : List UInt8) : RawValue :=
  match textOf bytes with
  | some text => .text text
  | none =>
    match if bytes = [] then none else nested bytes with
    | some msg => .message msg
    | none => .text (hexOf bytes)

/-- `lengthDelimited` with so many levels to go, of twelve. -/
def lengthDelimited : ℕ → List UInt8 → RawValue
  | 0 => guess fun _ => none
  | left + 1 => guess (tryParse (lengthDelimited left))

def decodeRaw (bytes : List UInt8) : Option RawMessage := tryParse (lengthDelimited 12) bytes

/-- What a field has, of one value or more. -/
def values (msg : RawMessage) (key : Str) : List RawValue :=
  match msg.lookup key with
  | none => []
  | some (.array values) => values
  | some value => [value]

def Single : RawValue → Prop
  | .array _ => False
  | _ => True

omit [Numbers] in
theorem lookup_replace (out : RawMessage) (key key' : Str) (value : RawValue) :
    (out.map fun (k, v) => (k, if k = key then value else v)).lookup key' =
      if key' = key then (out.lookup key).map fun _ => value else out.lookup key' := by
  induction out with
  | nil => split <;> rfl
  | cons first out ih =>
    obtain ⟨k, v⟩ := first
    rw [List.map_cons, List.lookup_cons, List.lookup_cons, List.lookup_cons, ih]
    by_cases here : key' = key
    · subst here
      by_cases same : key' = k
      · simp [same]
      · simp [beq_eq_false_iff_ne.mpr same]
    · by_cases same : key' = k
      · simp [same, same ▸ here]
      · simp [beq_eq_false_iff_ne.mpr same, here]

omit [Numbers] in
/-- One more value of a field is one more value of it, and of nothing else. -/
theorem values_add (out : RawMessage) (key key' : Str) {value : RawValue} (single : Single value) :
    values (add out key value) key' = values out key' ++ if key' = key then [value] else [] := by
  unfold values add
  by_cases here : key' = key
  · subst here
    rw [if_pos rfl]
    cases found : out.lookup key' with
    | none =>
      have last : (out ++ [(key', value)]).lookup key' = some value := by simp [List.lookup_append, found]
      simp only [last]
      cases value <;> first | rfl | cases single
    | some seen => cases seen <;> simp [lookup_replace, found]
  · rw [if_neg here, List.append_nil]
    have same : (add out key value).lookup key' = out.lookup key' := by
      unfold add
      split
      · rw [List.lookup_append, List.lookup_cons, beq_eq_false_iff_ne.mpr here, List.lookup_nil, Option.or_none]
      · rw [lookup_replace, if_neg here]
      · rw [lookup_replace, if_neg here]
    unfold add at same
    rw [same]

omit [Numbers] in
theorem lookup_add (out : RawMessage) (key key' : Str) (value : RawValue) :
    (add out key value).lookup key' = none ↔ key' ≠ key ∧ out.lookup key' = none := by
  unfold add
  by_cases here : key' = key
  · subst here
    split
    · rename_i absent
      simp [List.lookup_append, absent]
    · rename_i found
      simp [lookup_replace, found]
    · rename_i found
      simp [lookup_replace, found]
  · split
    · simp [List.lookup_append, List.lookup_cons, beq_eq_false_iff_ne.mpr here, here]
    · rw [lookup_replace, if_neg here, and_iff_right here]
    · rw [lookup_replace, if_neg here, and_iff_right here]

/-- An occurrence goes under the name of its field. -/
def addOccurrence (read : List UInt8 → RawValue) (out : RawMessage) (o : Occurrence) : RawMessage :=
  add out (Numbers.string o.field) (reading read o.content)

theorem parse_iff {read : List UInt8 → RawValue} {bs : List UInt8} {out msg : RawMessage} :
    parse read bs out = some msg ↔ ∃ os, Encoded loose os bs ∧ msg = os.foldl (addOccurrence read) out := by
  fun_induction parse read bs out with
  | case1 out =>
    rw [Option.some.injEq]
    constructor
    · rintro rfl
      exact ⟨[], .nil, rfl⟩
    · rintro ⟨os, encoded, rfl⟩
      rw [encoded.unique .nil]
      rfl
  | case2 bs out some_ untaken =>
    refine ⟨nofun, fun ⟨os, encoded, _⟩ => ?_⟩
    cases encoded with
    | nil => exact absurd rfl some_
    | @cons o os b bs first rest =>
      rw [field_iff.mpr ⟨o, b, rfl, first, rfl, rfl⟩] at untaken
      cases untaken
  | case3 bs out some_ f value rest taken ih =>
    obtain ⟨o, b, rfl, first, rfl, rfl⟩ := field_iff.mp taken
    rw [ih]
    constructor
    · rintro ⟨os, encoded, rfl⟩
      exact ⟨o :: os, .cons first encoded, rfl⟩
    · rintro ⟨os, encoded, rfl⟩
      generalize all : b ++ rest = bs at encoded
      cases encoded with
      | nil => exact absurd all some_
      | @cons o' os' b' bs' first' rest' =>
        obtain ⟨rfl, rfl⟩ := first.unique first' all
        exact ⟨os', rest', rfl⟩

theorem reading_single {read : List UInt8 → RawValue} (single : ∀ b, Single (read b)) (c : Content) : Single (reading read c) := by
  have number_single (n : ℕ) : Single (number n) := by
    unfold number
    split <;> trivial
  cases c with
  | varint n => exact number_single n
  | fixed64 b =>
    change Single (fixed64 b)
    unfold fixed64
    cases readableFloat (float 11 52 (littleEndian b)) with
    | none => exact number_single _
    | some q => trivial
  | delimited b => exact single b
  | fixed32 b =>
    change Single (fixed32 b)
    unfold fixed32
    cases readableFloat (float 8 23 (littleEndian b)) with
    | none => exact number_single _
    | some q => trivial

omit [Numbers] in
theorem guess_single (nested : List UInt8 → Option RawMessage) (bs : List UInt8) : Single (guess nested bs) := by
  unfold guess
  split
  · trivial
  · split <;> trivial

theorem lengthDelimited_single (left : ℕ) (bs : List UInt8) : Single (lengthDelimited left bs) := by
  cases left with
  | zero => exact guess_single _ bs
  | succ left => exact guess_single _ bs

/-- Under a field's name are its occurrences, in order. -/
theorem values_fold {read : List UInt8 → RawValue} (single : ∀ b, Single (read b)) (os : List Occurrence) (out : RawMessage) (key : Str) :
    values (os.foldl (addOccurrence read) out) key =
      values out key ++ (os.filter (Numbers.string ·.field = key)).map fun o => reading read o.content := by
  induction os generalizing out with
  | nil => exact (List.append_nil _).symm
  | cons o os ih =>
    rw [List.foldl_cons, ih, addOccurrence, values_add _ _ _ (reading_single single _), List.filter_cons]
    by_cases same : Numbers.string o.field = key
    · simp [same]
    · simp [same, Ne.symm same]

theorem lookup_fold {read : List UInt8 → RawValue} (os : List Occurrence) (out : RawMessage) (key : Str) :
    (os.foldl (addOccurrence read) out).lookup key = none ↔ (∀ o ∈ os, Numbers.string o.field ≠ key) ∧ out.lookup key = none := by
  induction os generalizing out with
  | nil => simp
  | cons o os ih =>
    rw [List.foldl_cons, ih, addOccurrence, lookup_add, List.forall_mem_cons, ← and_assoc, and_comm (a := ∀ o ∈ os, _), ne_comm]

theorem tryParse_iff {read : List UInt8 → RawValue} {bs : List UInt8} {msg : RawMessage} :
    tryParse read bs = some msg ↔ ∃ os, os ≠ [] ∧ Encoded loose os bs ∧ msg = os.foldl (addOccurrence read) [] := by
  unfold tryParse
  rw [Option.filter_eq_some_iff, parse_iff]
  constructor
  · rintro ⟨⟨os, encoded, rfl⟩, some_⟩
    refine ⟨os, ?_, encoded, rfl⟩
    rintro rfl
    cases some_
  · rintro ⟨os, some_, encoded, rfl⟩
    refine ⟨⟨os, encoded, rfl⟩, ?_⟩
    obtain ⟨o, os, rfl⟩ := List.exists_cons_of_ne_nil some_
    have there : ((o :: os).foldl (addOccurrence read) []).lookup (Numbers.string o.field) ≠ none := fun absent =>
      ((@lookup_fold _ read (o :: os) [] _).mp absent).1 o List.mem_cons_self rfl
    rw [Bool.not_eq_true', List.isEmpty_eq_false_iff]
    rintro empty
    rw [empty] at there
    exact there rfl

/-! ### What a message says -/

omit [Numbers] in
/-- The name of a field. -/
def decimal (f : ℕ) : Str := (toString f).toList

/-- The values of a message are the readings of the occurrences, each under its field, in order. -/
structure Shows (reads : Content → RawValue → Prop) (os : List Occurrence) (msg : RawMessage) : Prop where
  values : ∀ f, List.Forall₂ (fun o v => reads o.content v) (os.filter (·.field = f)) (values msg (decimal f))
  nothing : ∀ key, (∀ o ∈ os, decimal o.field ≠ key) → msg.lookup key = none

/-- A content is read as it should be: bytes that are no text as a message where a message may be, and else as hex. -/
def Reads (shows : Option (List Occurrence → RawMessage → Prop)) : Content → RawValue → Prop
  | .varint n, v => v = number n
  | .fixed64 b, v => v = fixed64 b
  | .fixed32 b, v => v = fixed32 b
  | .delimited b, v =>
    match textOf b, shows with
    | some text, _ => v = .text text
    | none, none => v = .text (hexOf b)
    | none, some shows => (∃ os msg, os ≠ [] ∧ Encoded strict os b ∧ shows os msg ∧ v = .message msg) ∨
        ((¬ ∃ os, os ≠ [] ∧ Encoded strict os b) ∧ v = .text (hexOf b))

/-- With so many levels to go. -/
def Denotes : ℕ → Content → RawValue → Prop
  | 0 => Reads none
  | left + 1 => Reads (some (Shows (Denotes left)))

/-- Bytes are read exactly: as a message if they are one, and then as that message. -/
structure Exact (left : ℕ) (bytes : List UInt8) : Prop where
  accepts : (∃ msg, tryParse (lengthDelimited left) bytes = some msg) ↔ ∃ os, os ≠ [] ∧ Encoded strict os bytes
  shows : ∀ os, os ≠ [] → Encoded strict os bytes → ∃ msg, tryParse (lengthDelimited left) bytes = some msg ∧ Shows (Denotes left) os msg

/-- Bytes that are fields are fields as protobuf writes them, and so are the bytes in them that are read as a message. -/
def Plain : ℕ → List UInt8 → Prop
  | 0, bytes => ∀ os, Encoded loose os bytes → Encoded strict os bytes
  | left + 1, bytes => ∀ os, Encoded loose os bytes →
      Encoded strict os bytes ∧ ∀ o ∈ os, ∀ b, o.content = .delimited b → textOf b = none → Plain left b

omit [Numbers] in
theorem decimal_injective {m n : ℕ} (same : decimal m = decimal n) : m = n := by
  have digits (n : ℕ) : decimal n = Nat.toDigits 10 n := String.toList_ofList
  rw [digits, digits] at same
  have value := congrArg (fun l => Nat.ofDigitChars 10 l 0) same
  simpa only [Nat.ofDigitChars_toDigits (by decide : 1 < 10) (le_refl 10)] using value

theorem string_decimal {os : List Occurrence} {bs : List UInt8} (encoded : Encoded strict os bs) :
    ∀ o ∈ os, Numbers.string o.field = decimal o.field := by
  induction encoded with
  | nil => exact nofun
  | cons first rest ih =>
    have low := first.low
    exact List.forall_mem_cons.mpr ⟨Numbers.string_eq (low.le.trans (by decide)), ih⟩

/-- A message says what its occurrences do if each of them is read as it should be. -/
theorem shows_fold {reads : Content → RawValue → Prop} {read : List UInt8 → RawValue} (single : ∀ b, Single (read b)) {os : List Occurrence}
    {bs : List UInt8} (encoded : Encoded strict os bs) :
    Shows reads os (os.foldl (addOccurrence read) []) ↔ ∀ o ∈ os, reads o.content (reading read o.content) := by
  have named := string_decimal encoded
  have under (f : ℕ) : values (os.foldl (addOccurrence read) []) (decimal f) =
      (os.filter (·.field = f)).map fun o => reading read o.content := by
    rw [values_fold single os [] (decimal f)]
    refine congrArg (List.map fun o : Occurrence => reading read o.content) (List.filter_congr fun o member => decide_eq_decide.mpr ?_)
    rw [named o member]
    exact ⟨decimal_injective, congrArg decimal⟩
  constructor
  · intro shows o member
    have all := shows.values o.field
    rw [under, List.forall₂_map_right_iff, List.forall₂_same] at all
    exact all o (List.mem_filter.mpr ⟨member, decide_eq_true rfl⟩)
  · intro all
    refine ⟨fun f => ?_, fun key other => ?_⟩
    · rw [under, List.forall₂_map_right_iff, List.forall₂_same]
      exact fun o member => all o (List.mem_filter.mp member).1
    · exact (lookup_fold os [] key).mpr ⟨fun o member => named o member ▸ other o member, rfl⟩

/-- Bytes are read exactly if they are strict where they are fields, and each field's content is read as it should be. -/
theorem exact_iff {left : ℕ} {bs : List UInt8} : Exact left bs ↔ ∀ os, Encoded loose os bs →
    Encoded strict os bs ∧ ∀ o ∈ os, Denotes left o.content (reading (lengthDelimited left) o.content) := by
  have single := lengthDelimited_single left
  constructor
  · intro exact_ os encoded
    by_cases some_ : os = []
    · subst some_
      cases encoded
      exact ⟨.nil, nofun⟩
    · have taken := (@tryParse_iff _ (lengthDelimited left) _ _).mpr ⟨os, some_, encoded, rfl⟩
      obtain ⟨os', -, strict_⟩ := exact_.accepts.mp ⟨_, taken⟩
      obtain rfl := encoded.unique (strict_.within strict_loose)
      obtain ⟨msg, found, shows⟩ := exact_.shows os some_ strict_
      obtain rfl := Option.some.inj (taken.symm.trans found)
      exact ⟨strict_, (shows_fold single strict_).mp shows⟩
  · intro all
    constructor
    · constructor
      · rintro ⟨msg, taken⟩
        obtain ⟨os, some_, encoded, -⟩ := tryParse_iff.mp taken
        exact ⟨os, some_, (all os encoded).1⟩
      · rintro ⟨os, some_, encoded⟩
        exact ⟨_, tryParse_iff.mpr ⟨os, some_, encoded.within strict_loose, rfl⟩⟩
    · intro os some_ encoded
      have loose_ := encoded.within strict_loose
      exact ⟨_, tryParse_iff.mpr ⟨os, some_, loose_, rfl⟩, (shows_fold single encoded).mpr (all os loose_).2⟩

/-- Nested bytes are read as they should be if they are read exactly as far as they are a message. -/
theorem nested_iff {left : ℕ} {b : List UInt8} (other : textOf b = none) :
    Denotes (left + 1) (.delimited b) (lengthDelimited (left + 1) b) ↔ Exact left b := by
  have guessed : lengthDelimited (left + 1) b =
      match tryParse (lengthDelimited left) b with
      | some msg => .message msg
      | none => .text (hexOf b) := by
    have empty : (if b = [] then none else tryParse (lengthDelimited left) b) = tryParse (lengthDelimited left) b := by
      split
      · rename_i none
        subst none
        rw [tryParse, parse, if_pos rfl]
        rfl
      · rfl
    rw [lengthDelimited, guess, other, empty]
  rw [guessed]
  unfold Denotes Reads
  dsimp only
  rw [other]
  dsimp only
  cases taken : tryParse (lengthDelimited left) b with
  | some msg =>
    obtain ⟨os, some_, encoded, -⟩ := tryParse_iff.mp taken
    constructor
    · rintro (⟨os', msg', some', strict_, shows, same⟩ | ⟨-, same⟩)
      · obtain rfl := RawValue.message.inj same
        obtain rfl := encoded.unique (strict_.within strict_loose)
        refine ⟨⟨fun _ => ⟨os, some', strict_⟩, fun _ => ⟨msg, taken⟩⟩, fun os'' _ strict' => ⟨msg, taken, ?_⟩⟩
        exact encoded.unique (strict'.within strict_loose) ▸ shows
      · cases same
    · intro exact_
      obtain ⟨os', some', strict_⟩ := exact_.accepts.mp ⟨msg, taken⟩
      obtain ⟨msg', taken', shows⟩ := exact_.shows os' some' strict_
      obtain rfl := Option.some.inj (taken.symm.trans taken')
      exact .inl ⟨os', msg, some', strict_, shows, rfl⟩
  | none =>
    have untaken : ¬ ∃ msg, tryParse (lengthDelimited left) b = some msg := fun ⟨msg, found⟩ => by
      rw [taken] at found
      cases found
    constructor
    · rintro (⟨os', msg', some', strict_, shows, same⟩ | ⟨none, -⟩)
      · cases same
      · exact ⟨iff_of_false untaken none, fun os some_ strict_ => absurd ⟨os, some_, strict_⟩ none⟩
    · intro exact_
      exact .inr ⟨mt exact_.accepts.mpr untaken, rfl⟩

theorem denotes_iff {left : ℕ} {c : Content} : Denotes (left + 1) c (reading (lengthDelimited (left + 1)) c) ↔
    ∀ b, c = .delimited b → textOf b = none → Exact left b := by
  cases c with
  | varint n => exact iff_of_true rfl nofun
  | fixed64 b => exact iff_of_true rfl nofun
  | fixed32 b => exact iff_of_true rfl nofun
  | delimited b =>
    cases text : textOf b with
    | none =>
      refine (nested_iff text).trans ⟨fun exact_ b' same _ => ?_, fun all => all b rfl text⟩
      cases same
      exact exact_
    | some t =>
      refine iff_of_true ?_ fun b' same none => ?_
      · have guessed : lengthDelimited (left + 1) b = .text t := by rw [lengthDelimited, guess, text]
        change Denotes (left + 1) (.delimited b) (lengthDelimited (left + 1) b)
        rw [guessed]
        unfold Denotes Reads
        dsimp only
        rw [text]
      · cases same
        rw [text] at none
        cases none

theorem denotes_zero (c : Content) : Denotes 0 c (reading (lengthDelimited 0) c) := by
  cases c with
  | varint n => rfl
  | fixed64 b => rfl
  | fixed32 b => rfl
  | delimited b =>
    change Denotes 0 (.delimited b) (guess (fun _ => none) b)
    unfold Denotes Reads guess
    dsimp only
    cases textOf b with
    | some t => rfl
    | none =>
      rw [ite_self]

theorem exact_plain (left : ℕ) (bs : List UInt8) : Exact left bs ↔ Plain left bs := by
  induction left generalizing bs with
  | zero =>
    rw [exact_iff]
    exact forall₂_congr fun os _ => and_iff_left fun o _ => denotes_zero o.content
  | succ left ih =>
    rw [exact_iff]
    refine forall₂_congr fun os _ => and_congr_right fun _ => forall₂_congr fun o _ => ?_
    rw [denotes_iff]
    exact forall₃_congr fun b _ _ => ih b

end Messages

/-- Field 1 with a zero of eleven bytes. -/
def overlong : List UInt8 := [0x08, 0x80, 0x80, 0x80, 0x80, 0x80, 0x80, 0x80, 0x80, 0x80, 0x80, 0x00]

theorem overlong_unwritten : ¬ ∃ os, os ≠ [] ∧ Encoded strict os overlong := by
  rintro ⟨os, some_, encoded⟩
  generalize whole : overlong = bs at encoded
  cases encoded with
  | nil => exact some_ rfl
  | @cons o os b bs first rest =>
    obtain ⟨tag, body, tagged, coded, rfl⟩ := first.split
    have tagByte : Closed [(0x08 : UInt8)] := rfl
    have zeroBytes : Closed [(0x80 : UInt8), 0x80, 0x80, 0x80, 0x80, 0x80, 0x80, 0x80, 0x80, 0x80, 0x00] := rfl
    rw [List.append_assoc] at whole
    obtain ⟨rfl, after⟩ := tagByte.split tagged.closed (r := [0x80, 0x80, 0x80, 0x80, 0x80, 0x80, 0x80, 0x80, 0x80, 0x80, 0x00]) whole
    have eight : 8 = o.field * 8 + o.content.wire := tagged.same
    have wire : o.content.wire = 0 := by
      have low := o.content.wire_lt
      omega
    obtain ⟨f, content⟩ := o
    cases content with
    | varint n =>
      obtain ⟨rfl, -⟩ := zeroBytes.split coded.closed (r := []) after
      exact absurd coded.short (by decide)
    | _ => cases wire

end proto
end NatsExplorer.Client
