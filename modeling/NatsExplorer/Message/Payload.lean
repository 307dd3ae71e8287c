import NatsExplorer.Message

/-! Payload bytes on their way in (`DecodePayload` of `internal/message`): the wire text
of a payload decodes to the bytes that arrived. -/
namespace NatsExplorer
open Go

/-- The bytes of a Go string. -/
def utf8 (s : Str) : List UInt8 := s.flatMap String.utf8EncodeChar

def Data.toBytes : Data → List UInt8
  | .text runes => utf8 runes
  | .binary bytes => bytes

/-- A payload as it arrives. -/
def Data.ofBytes (bytes : List UInt8) : Data :=
  match bytes.toByteArray.utf8Decode? with
  | some runes => .text runes.toList
  | none => .binary bytes

theorem Data.ofBytes_utf8 (s : Str) : Data.ofBytes (utf8 s) = .text s := by
  have encoded : (utf8 s).toByteArray = s.utf8Encode := rfl
  unfold Data.ofBytes
  rw [encoded, List.utf8Decode?_utf8Encode]

/-- Bytes that are no text are kept as they are. -/
theorem Data.ofBytes_cases (bytes : List UInt8) :
    (∃ s, bytes = utf8 s ∧ Data.ofBytes bytes = .text s) ∨ Data.ofBytes bytes = .binary bytes := by
  unfold Data.ofBytes
  cases decoded : bytes.toByteArray.utf8Decode? with
  | none => exact Or.inr rfl
  | some runes =>
    refine Or.inl ⟨runes.toList, ?_, rfl⟩
    have valid : bytes.toByteArray.utf8Decode?.isSome := by
      rw [decoded]
      rfl
    have back : runes.toList.utf8Encode = bytes.toByteArray := by
      have := ByteArray.utf8Encode_get_utf8Decode? (b := bytes.toByteArray) (h := valid)
      simpa only [decoded, Option.get_some] using this
    exact List.toByteArray_inj.mp back.symm

namespace base64

/-- What a character of the alphabet stands for. -/
def value (c : Char) : Option Nat :=
  if 'A' ≤ c ∧ c ≤ 'Z' then some (c.toNat - 65)
  else if 'a' ≤ c ∧ c ≤ 'z' then some (c.toNat - 71)
  else if '0' ≤ c ∧ c ≤ '9' then some (c.toNat + 4)
  else if c = '+' then some 62
  else if c = '/' then some 63
  else none

/-- Groups of four, the last one padded. -/
def decode : Str → Option (List UInt8)
  | [] => some []
  | [a, b, '=', '='] => do
    let a ← value a
    let b ← value b
    return [UInt8.ofNat (a * 4 + b / 16)]
  | [a, b, c, '='] => do
    let a ← value a
    let b ← value b
    let c ← value c
    return [UInt8.ofNat (a * 4 + b / 16), UInt8.ofNat (b % 16 * 16 + c / 4)]
  | a :: b :: c :: d :: rest => do
    let a ← value a
    let b ← value b
    let c ← value c
    let d ← value d
    let bytes ← decode rest
    return UInt8.ofNat (a * 4 + b / 16) :: UInt8.ofNat (b % 16 * 16 + c / 4) ::
      UInt8.ofNat (c % 4 * 64 + d) :: bytes
  | _ => none

/-- `base64.StdEncoding.DecodeString`, which skips line breaks. -/
def decodeString (s : Str) : Option (List UInt8) := decode (s.filter fun c => c ≠ '\r' ∧ c ≠ '\n')

theorem value_digit {n : Nat} (small : n < 64) : value (digit n) = some n := by
  revert n
  decide

theorem digit_ne {n : Nat} (small : n < 64) : digit n ≠ '=' ∧ digit n ≠ '\r' ∧ digit n ≠ '\n' := by
  revert n
  decide

theorem ofNat_eq {n : Nat} (a : UInt8) (same : n = a.toNat) : UInt8.ofNat n = a := by
  rw [same, UInt8.ofNat_toNat]

theorem decode_base64 (bytes : List UInt8) : decode (base64 bytes) = some bytes := by
  induction bytes using base64.induct with
  | case1 => rfl
  | case2 a =>
    have small := a.toNat_lt
    simp only [base64, decode, value_digit (show a.toNat / 4 < 64 by omega),
      value_digit (show a.toNat % 4 * 16 < 64 by omega)]
    exact congrArg (fun a => some [a]) (ofNat_eq a (by omega))
  | case3 a b =>
    have smallA := a.toNat_lt
    have smallB := b.toNat_lt
    have last : digit (b.toNat % 16 * 4) ≠ '=' := (digit_ne (by omega)).1
    simp only [base64]
    rw [decode.eq_3 _ _ _ last]
    simp only [value_digit (show a.toNat / 4 < 64 by omega),
      value_digit (show a.toNat % 4 * 16 + b.toNat / 16 < 64 by omega),
      value_digit (show b.toNat % 16 * 4 < 64 by omega)]
    exact congrArg₂ (fun a b => some [a, b]) (ofNat_eq a (by omega)) (ofNat_eq b (by omega))
  | case4 a b c rest ih =>
    have smallA := a.toNat_lt
    have smallB := b.toNat_lt
    have smallC := c.toNat_lt
    have last : digit (c.toNat % 64) ≠ '=' := (digit_ne (by omega)).1
    simp only [base64]
    rw [decode.eq_4 _ _ _ _ _ (fun _ same => absurd same last) fun same => absurd same last]
    simp only [ih, value_digit (show a.toNat / 4 < 64 by omega),
      value_digit (show a.toNat % 4 * 16 + b.toNat / 16 < 64 by omega),
      value_digit (show b.toNat % 16 * 4 + c.toNat / 64 < 64 by omega),
      value_digit (show c.toNat % 64 < 64 by omega)]
    have first := ofNat_eq a (show a.toNat / 4 * 4 + (a.toNat % 4 * 16 + b.toNat / 16) / 16 = _ by omega)
    have second := ofNat_eq b (show (a.toNat % 4 * 16 + b.toNat / 16) % 16 * 16 +
      (b.toNat % 16 * 4 + c.toNat / 64) / 4 = _ by omega)
    have third := ofNat_eq c (show (b.toNat % 16 * 4 + c.toNat / 64) % 4 * 64 + c.toNat % 64 = _ by omega)
    exact congrArg some (congrArg₂ _ first (congrArg₂ _ second (congrArg (· :: rest) third)))

theorem mem_base64 {ch : Char} {bytes : List UInt8} (member : ch ∈ base64 bytes) :
    ch ≠ '\r' ∧ ch ≠ '\n' := by
  have padding : '=' ≠ '\r' ∧ '=' ≠ '\n' := by decide
  induction bytes using base64.induct with
  | case1 => cases member
  | case2 a =>
    have small := a.toNat_lt
    simp only [base64, List.mem_cons, List.not_mem_nil, or_false] at member
    rcases member with rfl | rfl | rfl | rfl
    · exact (digit_ne (by omega)).2
    · exact (digit_ne (by omega)).2
    · exact padding
    · exact padding
  | case3 a b =>
    have smallA := a.toNat_lt
    have smallB := b.toNat_lt
    simp only [base64, List.mem_cons, List.not_mem_nil, or_false] at member
    rcases member with rfl | rfl | rfl | rfl
    · exact (digit_ne (by omega)).2
    · exact (digit_ne (by omega)).2
    · exact (digit_ne (by omega)).2
    · exact padding
  | case4 a b c rest ih =>
    have smallA := a.toNat_lt
    have smallB := b.toNat_lt
    have smallC := c.toNat_lt
    simp only [base64, List.mem_cons] at member
    rcases member with rfl | rfl | rfl | rfl | member
    · exact (digit_ne (by omega)).2
    · exact (digit_ne (by omega)).2
    · exact (digit_ne (by omega)).2
    · exact (digit_ne (by omega)).2
    · exact ih member

theorem decodeString_base64 (bytes : List UInt8) : decodeString (base64 bytes) = some bytes := by
  unfold decodeString
  rw [List.filter_eq_self.mpr, decode_base64]
  intro ch member
  exact decide_eq_true (mem_base64 member)

end base64

/-- Turns a wire payload back into the bytes that were received. -/
def decodePayload (payload : Str) (payloadType : Kind) : Option (List UInt8) :=
  if payloadType = .binary then base64.decodeString payload else some (utf8 payload)

section Payloads
variable [Tables]

theorem kind_eq_binary (r : Record) : r.kind = .binary ↔ ∃ bytes, r.data = .binary bytes := by
  unfold Record.kind
  cases r.data with
  | binary bytes => exact ⟨fun _ => ⟨bytes, rfl⟩, fun _ => rfl⟩
  | text runes =>
    refine ⟨fun named => ?_, fun ⟨_, other⟩ => by cases other⟩
    dsimp only at named
    split at named <;> cases named

theorem decodePayload_wire {r : Record} {data : List UInt8} (same : r.data = .ofBytes data) (connID : Str) :
    decodePayload (r.wire connID).payload (r.wire connID).payloadType = some data := by
  unfold decodePayload Record.wire Record.text
  dsimp only
  rcases Data.ofBytes_cases data with ⟨s, rfl, text⟩ | binary
  · rw [text] at same
    have other : r.kind ≠ .binary := fun named => by
      obtain ⟨bytes, clash⟩ := (kind_eq_binary r).mp named
      rw [same] at clash
      cases clash
    rw [if_neg other, same]
  · rw [binary] at same
    rw [if_pos ((kind_eq_binary r).mpr ⟨data, same⟩), same]
    exact base64.decodeString_base64 data

end Payloads
end NatsExplorer
