import NatsExplorer.Client.AlertDialog
import NatsExplorer.RunCli.Collection

/-! What the text of a payload editor becomes on the wire (`client/src/lib/payloadFormat.ts`), next to what the terminal
makes of it: whatever the terminal reads as bytes the browser reads as the same bytes, and not the other way round. -/
namespace NatsExplorer.Client.payloadFormat
open Go RunCli savedRequests

/-- `.replace(/0x/gi, '')` -/
def withoutMarks : Str → Str
  | '0' :: c :: s => if c = 'x' ∨ c = 'X' then withoutMarks s else '0' :: withoutMarks (c :: s)
  | c :: s => c :: withoutMarks s
  | [] => []

/-- `[\s:,_-]` -/
def hexNoise (c : Char) : Bool := Connection.trimmed c || c = ':' || c = ',' || c = '_' || c = '-'

def isHex (c : Char) : Bool := (hex.value c).isSome

/-- `Number.parseInt` of two digits after the other. -/
def hexPairs : Str → List UInt8
  | a :: b :: s => UInt8.ofNat ((hex.value a).getD 0 * 16 + (hex.value b).getD 0) :: hexPairs s
  | _ => []

/-- Hex as people write it. -/
def parseHex (text : Str) : Option (List UInt8) :=
  let clean := Connection.trim ((withoutMarks text).filter fun c => !hexNoise c)
  if clean = [] then some []
  else if clean.length % 2 ≠ 0 ∨ ¬ clean.all isHex then none
  else some (hexPairs clean)

def isDigit64 (c : Char) : Bool := (base64.value c).isSome

/-- `^[A-Za-z0-9+/]+={0,2}$` -/
def base64Shape (s : Str) : Bool :=
  let body := (s.reverse.dropWhile (· = '=')).reverse
  body ≠ [] && body.all isDigit64 && decide (s.length ≤ body.length + 2)

/-- The bytes of digits, four at a time; what is left over of the last ones is dropped. -/
def bytesOf : Str → List UInt8
  | a :: b :: c :: d :: rest =>
    let v (c : Char) : ℕ := (base64.value c).getD 0
    UInt8.ofNat (v a * 4 + v b / 16) :: UInt8.ofNat (v b % 16 * 16 + v c / 4) :: UInt8.ofNat (v c % 4 * 64 + v d) :: bytesOf rest
  | [a, b, c] =>
    let v (c : Char) : ℕ := (base64.value c).getD 0
    [UInt8.ofNat (v a * 4 + v b / 16), UInt8.ofNat (v b % 16 * 16 + v c / 4)]
  | [a, b] =>
    let v (c : Char) : ℕ := (base64.value c).getD 0
    [UInt8.ofNat (v a * 4 + v b / 16)]
  | _ => []

/-- Without the padding of a last group. -/
def unpadded (s : Str) : Str :=
  match s.reverse with
  | '=' :: '=' :: body => body.reverse
  | '=' :: body => body.reverse
  | _ => s

/-- `atob` of a text without white space, which does not ask for padding. -/
def atob (s : Str) : Option (List UInt8) :=
  let digits := if s.length % 4 = 0 then unpadded s else s
  if digits.length % 4 = 1 ∨ ¬ digits.all isDigit64 then none else some (bytesOf digits)

/-- Base64 as people paste it. -/
def parseBase64 (text : Str) : Option (List UInt8) :=
  let clean := text.filter fun c => !Connection.trimmed c
  if clean = [] then some []
  else if ¬ base64Shape clean then none
  else atob clean

/-- `payloadProblem(…) ?? 'not …'` -/
def problem (text : Str) (stated format : String) : Str :=
  if Connection.trim text = [] then "not ".toList ++ format.toList else stated.toList

/-- The payload as the API takes it, and its type where it has one. What the decoder rules make of a subject and a text
is given. -/
def toWire (encodeWith : Str → Str → Except Str (List UInt8)) (format : PayloadFormat) (text subject : Str) : Except Str (Str × Str) :=
  match format with
  | .hex =>
    match parseHex text with
    | some bytes => .ok (base64 bytes, "binary".toList)
    | none => .error (problem text "Not hex: an even number of 0-9 a-f digits, spaces and 0x aside." "hex")
  | .base64 =>
    match parseBase64 text with
    | some bytes => .ok (base64 bytes, "binary".toList)
    | none => .error (problem text "Not base64." "base64")
  | .protobuf =>
    match encodeWith subject text with
    | .ok bytes => .ok (base64 bytes, "binary".toList)
    | .error err => .error err
  | _ => .ok (text, [])

section Hex
variable {s : Str} {bytes : List UInt8}

theorem decodeString_iff : hex.decodeString s = some bytes ↔ s.length % 2 = 0 ∧ s.all isHex ∧ hexPairs s = bytes := by
  fun_induction hex.decodeString s generalizing bytes with
  | case1 => simp [hexPairs]
  | case2 c => simp
  | case3 a b rest ih =>
    have even : (a :: b :: rest).length % 2 = 0 ↔ rest.length % 2 = 0 := by
      rw [List.length_cons, List.length_cons]
      omega
    rw [even, List.all_cons, List.all_cons, Bool.and_eq_true, Bool.and_eq_true, hexPairs, isHex, isHex]
    cases hex.value a with
    | none => simp
    | some x =>
      cases hex.value b with
      | none => simp
      | some y =>
        cases decoded : hex.decodeString rest with
        | none =>
          refine iff_of_false nofun fun both => ?_
          have again : hex.decodeString rest = some (hexPairs rest) := ih.mpr ⟨both.1, both.2.1.2.2, rfl⟩
          rw [decoded] at again
          cases again
        | some later =>
          obtain ⟨evenRest, digits, same⟩ := ih.mp decoded
          rw [same]
          exact ⟨fun made => ⟨evenRest, ⟨rfl, rfl, digits⟩, Option.some.inj made⟩, fun both => congrArg some both.2.2⟩

theorem isHex_noise {c : Char} (digit : isHex c = true) : hexNoise c = false ∧ Connection.trimmed c = false ∧ c ≠ 'x' ∧ c ≠ 'X' := by
  have range : (48 ≤ c.toNat ∧ c.toNat ≤ 57) ∨ (97 ≤ c.toNat ∧ c.toNat ≤ 102) ∨ (65 ≤ c.toNat ∧ c.toNat ≤ 70) := by
    unfold isHex hex.value at digit
    split at digit
    · next both => exact Or.inl ⟨both.1, both.2⟩
    split at digit
    · next both => exact Or.inr (Or.inl ⟨both.1, both.2⟩)
    split at digit
    · next both => exact Or.inr (Or.inr ⟨both.1, both.2⟩)
    · cases digit
  have other (d : Char) (out : d.toNat < 48 ∨ (57 < d.toNat ∧ d.toNat < 65) ∨ (70 < d.toNat ∧ d.toNat < 97) ∨ 102 < d.toNat) : c ≠ d := by
    rintro rfl
    omega
  have solid : Connection.trimmed c = false := by
    simp only [Connection.trimmed, Bool.or_eq_false_iff, Bool.and_eq_false_iff, decide_eq_false_iff_not]
    omega
  refine ⟨?_, solid, other 'x' (by decide), other 'X' (by decide)⟩
  have colon := other ':' (by decide)
  have comma := other ',' (by decide)
  have low := other '_' (by decide)
  have dash := other '-' (by decide)
  simp [hexNoise, solid, colon, comma, low, dash]

/-- Where the terminal is left with digits, the browser is left with the same ones. -/
theorem withoutMarks_filter (digits : (replaceHex s).all isHex) : (withoutMarks s).filter (fun c => !hexNoise c) = replaceHex s := by
  fun_induction replaceHex s with
  | case1 s ih =>
    rw [withoutMarks, if_pos (Or.inl rfl)]
    exact ih digits
  | case2 c s unmarked separator ih =>
    have noise : hexNoise c = true := by
      rcases separator with rfl | rfl | rfl | rfl <;> decide
    have kept : withoutMarks (c :: s) = c :: withoutMarks s := by
      rw [withoutMarks.eq_2]
      rintro d t rfl
      simp at separator
    rw [kept, List.filter_cons_of_neg (by simp [noise])]
    exact ih digits
  | case3 c s unmarked separator ih =>
    rw [List.all_cons, Bool.and_eq_true] at digits
    have kept : withoutMarks (c :: s) = c :: withoutMarks s := by
      cases s with
      | nil => exact withoutMarks.eq_2 c [] nofun
      | cons d s =>
        by_cases zero : c = '0'
        · subst zero
          have small : d ≠ 'x' := fun same => unmarked s rfl (same ▸ rfl)
          have big : d ≠ 'X' := by
            rintro rfl
            rw [replaceHex] at digits
            · simp at digits
              exact (isHex_noise digits.2.1).2.2.2 rfl
            · nofun
          rw [withoutMarks, if_neg (not_or.mpr ⟨small, big⟩)]
        · exact withoutMarks.eq_2 c (d :: s) fun _ _ same => absurd same zero
    rw [kept, List.filter_cons_of_pos (by simp [(isHex_noise digits.1).1]), ih digits.2]
  | case4 => rfl

theorem trim_solid (solid : ∀ c ∈ s, Connection.trimmed c = false) : Connection.trim s = s := by
  have kept {t : Str} (solid : ∀ c ∈ t, Connection.trimmed c = false) : t.dropWhile Connection.trimmed = t := by
    cases t with
    | nil => rfl
    | cons c t => rw [List.dropWhile_cons_of_neg (by simp [solid c List.mem_cons_self])]
  rw [Connection.trim, kept solid, kept fun c member => solid c (List.mem_reverse.mp member), List.reverse_reverse]

/-- Hex the terminal reads is the same bytes in the browser. -/
theorem parseHex_of_decode (decoded : hex.decodeString (replaceHex s) = some bytes) : parseHex s = some bytes := by
  obtain ⟨even, digits, pairs⟩ := decodeString_iff.mp decoded
  have solid : ∀ c ∈ replaceHex s, Connection.trimmed c = false := fun c member =>
    (isHex_noise (List.all_eq_true.mp digits c member)).2.1
  rw [parseHex, withoutMarks_filter digits, trim_solid solid]
  split
  · next empty =>
    rw [← pairs, empty]
    rfl
  · rw [if_neg (by simp [even, digits]), pairs]

end Hex

section Base64
variable {s : Str} {bytes : List UInt8}

/-- A padded text of digits, whose last group is full. -/
structure Padded (s body : Str) : Prop where
  pad : ∃ pad, s = body ++ pad ∧ (pad = [] ∨ pad = ['='] ∨ pad = ['=', '='])
  digits : ∀ c ∈ body, isDigit64 c = true
  some_ : s ≠ [] → body ≠ []
  full : s.length % 4 = 0

theorem decode_padded (decoded : base64.decode s = some bytes) : ∃ body, Padded s body ∧ bytesOf body = bytes := by
  have digit {c : Char} {v : ℕ} (found : base64.value c = some v) : isDigit64 c = true := Option.isSome_iff_exists.mpr ⟨v, found⟩
  fun_induction base64.decode s generalizing bytes with
  | case1 =>
    cases decoded
    exact ⟨[], ⟨⟨[], rfl, Or.inl rfl⟩, nofun, fun some_ => absurd rfl some_, rfl⟩, rfl⟩
  | case2 a b =>
    simp only [Option.bind_eq_bind, Option.bind_eq_some_iff, Option.pure_def, Option.some.injEq] at decoded
    obtain ⟨x, hx, y, hy, rfl⟩ := decoded
    refine ⟨[a, b], ⟨⟨_, rfl, Or.inr (Or.inr rfl)⟩, ?_, fun _ => List.cons_ne_nil _ _, by simp⟩, by simp [bytesOf, hx, hy]⟩
    simp [digit hx, digit hy]
  | case3 a b c _ =>
    simp only [Option.bind_eq_bind, Option.bind_eq_some_iff, Option.pure_def, Option.some.injEq] at decoded
    obtain ⟨x, hx, y, hy, z, hz, rfl⟩ := decoded
    refine ⟨[a, b, c], ⟨⟨_, rfl, Or.inr (Or.inl rfl)⟩, ?_, fun _ => List.cons_ne_nil _ _, by simp⟩, by simp [bytesOf, hx, hy, hz]⟩
    simp [digit hx, digit hy, digit hz]
  | case4 a b c d rest _ _ ih =>
    simp only [Option.bind_eq_bind, Option.bind_eq_some_iff, Option.pure_def, Option.some.injEq] at decoded
    obtain ⟨x, hx, y, hy, z, hz, w, hw, later, found, rfl⟩ := decoded
    obtain ⟨body, ⟨⟨pad, split, ends⟩, digits, -, full⟩, same⟩ := ih found
    refine ⟨a :: b :: c :: d :: body, ⟨⟨pad, by rw [split]; rfl, ends⟩, ?_, fun _ => List.cons_ne_nil _ _, ?_⟩, ?_⟩
    · simp only [List.forall_mem_cons]
      exact ⟨digit hx, digit hy, digit hz, digit hw, digits⟩
    · simp only [List.length_cons]
      omega
    · simp only [bytesOf, same, hx, hy, hz, hw, Option.getD_some]
  | case5 => cases decoded

namespace Padded
variable {body : Str}

theorem solid (padded : Padded s body) : ∀ c ∈ s, isDigit64 c = true ∨ c = '=' := by
  obtain ⟨pad, rfl, ends⟩ := padded.pad
  intro c member
  rcases List.mem_append.mp member with inside | after
  · exact Or.inl (padded.digits c inside)
  · refine Or.inr ?_
    rcases ends with rfl | rfl | rfl <;> simp at after <;> exact after

/-- The digits do not end in padding. -/
theorem last (padded : Padded s body) (t : Str) : body.reverse ≠ '=' :: t := by
  intro same
  have member : '=' ∈ body := List.mem_reverse.mp (same ▸ List.mem_cons_self)
  exact absurd (padded.digits _ member) (by decide)

theorem body_eq (padded : Padded s body) : (s.reverse.dropWhile (· = '=')).reverse = body := by
  have stops : body.reverse.dropWhile (· = '=') = body.reverse := by
    cases split : body.reverse with
    | nil => rfl
    | cons c t =>
      have other : c ≠ '=' := fun same => padded.last t (same ▸ split)
      rw [List.dropWhile_cons_of_neg (by simpa using other)]
  obtain ⟨pad, rfl, rfl | rfl | rfl⟩ := padded.pad
  · rw [List.append_nil, stops, List.reverse_reverse]
  · rw [List.reverse_append]
    exact (congrArg _ stops).trans (List.reverse_reverse _)
  · rw [List.reverse_append]
    exact (congrArg _ stops).trans (List.reverse_reverse _)

theorem shape (padded : Padded s body) (some_ : s ≠ []) : base64Shape s = true := by
  have length : s.length ≤ body.length + 2 := by
    obtain ⟨pad, rfl, rfl | rfl | rfl⟩ := padded.pad <;> simp
  rw [base64Shape, padded.body_eq]
  simp only [Bool.and_eq_true, decide_eq_true_eq, List.all_eq_true]
  exact ⟨⟨padded.some_ some_, padded.digits⟩, length⟩

theorem unpadded_eq (padded : Padded s body) : unpadded s = body := by
  have last := padded.last
  obtain ⟨pad, rfl, rfl | rfl | rfl⟩ := padded.pad
  · rw [List.append_nil, unpadded]
    split
    · next t same => exact absurd same (last _)
    · next t _ same => exact absurd same (last _)
    · rfl
  · rw [unpadded, List.reverse_append]
    change (match '=' :: body.reverse with
      | '=' :: '=' :: body => body.reverse
      | '=' :: body => body.reverse
      | _ => body ++ ['=']) = body
    cases split : body.reverse with
    | nil => exact (List.reverse_eq_nil_iff.mp split).symm
    | cons c t =>
      have other : c ≠ '=' := fun same => last t (same ▸ split)
      split
      · next inside same =>
        injection same with _ same
        injection same with same _
        exact absurd same other
      · next inside _ same =>
        injection same with _ same
        rw [← same, ← split, List.reverse_reverse]
      · next _ none => exact absurd rfl (none _)
  · rw [unpadded, List.reverse_append]
    exact List.reverse_reverse body

theorem body_length (padded : Padded s body) : body.length % 4 ≠ 1 := by
  have full := padded.full
  obtain ⟨pad, rfl, rfl | rfl | rfl⟩ := padded.pad <;> simp at full <;> omega

theorem atob_eq (padded : Padded s body) : atob s = some (bytesOf body) := by
  have digits : body.all isDigit64 = true := List.all_eq_true.mpr padded.digits
  rw [atob, if_pos padded.full, padded.unpadded_eq]
  exact if_neg (by simp [padded.body_length, digits])

end Padded

/-- Base64 the terminal reads, without white space, is the same bytes in the browser. -/
theorem parseBase64_of_decode (decoded : base64.decodeString (s.filter fun c => !Connection.trimmed c) = some bytes) :
    parseBase64 s = some bytes := by
  have flat : ((s.filter fun c => !Connection.trimmed c).filter fun c => c ≠ '\r' ∧ c ≠ '\n') = s.filter fun c => !Connection.trimmed c := by
    refine List.filter_eq_self.mpr fun c member => decide_eq_true ?_
    have solid := (List.mem_filter.mp member).2
    constructor <;> rintro rfl <;> simp [Connection.trimmed] at solid
  rw [base64.decodeString, flat] at decoded
  obtain ⟨body, padded, same⟩ := decode_padded decoded
  rw [parseBase64]
  split
  · next empty =>
    rw [empty] at decoded
    exact decoded
  · next some_ => rw [if_neg (not_not.mpr (padded.shape some_)), padded.atob_eq, same]

theorem shape_solid (shape : base64Shape s = true) : ∀ c ∈ s, isDigit64 c = true ∨ c = '=' := by
  simp only [base64Shape, Bool.and_eq_true, decide_eq_true_eq, List.all_eq_true] at shape
  intro c member
  rw [← List.mem_reverse, ← List.takeWhile_append_dropWhile (p := (· = '=')) (l := s.reverse)] at member
  rcases List.mem_append.mp member with padding | digits
  · exact Or.inr (by simpa using List.mem_takeWhile_imp padding)
  · exact Or.inl (shape.1.2 c (List.mem_reverse.mpr digits))

theorem solid_ascii {c : Char} (solid : isDigit64 c = true ∨ c = '=') : c.toNat < 0x80 := by
  rcases solid with digit | rfl
  · unfold isDigit64 base64.value at digit
    split at digit
    · next both => exact lt_of_le_of_lt (show c.toNat ≤ 'Z'.toNat from both.2) (by decide)
    split at digit
    · next both => exact lt_of_le_of_lt (show c.toNat ≤ 'z'.toNat from both.2) (by decide)
    split at digit
    · next both => exact lt_of_le_of_lt (show c.toNat ≤ '9'.toNat from both.2) (by decide)
    split at digit
    · next plus =>
      rw [plus]
      decide
    split at digit
    · next slash =>
      rw [slash]
      decide
    · cases digit
  · decide

theorem parseBase64_isSome : (parseBase64 s).isSome ↔
    let clean := s.filter fun c => !Connection.trimmed c
    clean = [] ∨ base64Shape clean = true ∧ (atob clean).isSome := by
  rw [parseBase64]
  split
  · next empty => exact iff_of_true rfl (Or.inl empty)
  · next some_ =>
    split
    · next shape => exact iff_of_false nofun fun either => either.elim some_ fun both => shape both.1
    · next shape => exact ⟨fun read => Or.inr ⟨not_not.mp shape, read⟩, fun either => either.elim (absurd · some_) And.right⟩

/-- What both take has no white space that only one of them knows. -/
theorem spaces_agree (decoded : base64.decodeString (s.filter fun c => !AlertDialog.unicodeSpace c) = some bytes)
    (read : (parseBase64 s).isSome) : ∀ c ∈ s, Connection.trimmed c = AlertDialog.unicodeSpace c := by
  intro c member
  refine AlertDialog.spaces_same ⟨fun next => ?_, fun mark => ?_⟩
  · have open_ : Connection.trimmed c = false := by simp [Connection.trimmed, next]
    have kept : c ∈ s.filter fun c => !Connection.trimmed c := List.mem_filter.mpr ⟨member, by simp [open_]⟩
    rcases parseBase64_isSome.mp read with empty | ⟨shape, -⟩
    · rw [empty] at kept
      cases kept
    · have := solid_ascii (shape_solid shape c kept)
      omega
  · have open_ : AlertDialog.unicodeSpace c = false := by simp [AlertDialog.unicodeSpace, mark]
    have kept : c ∈ s.filter fun c => !AlertDialog.unicodeSpace c := List.mem_filter.mpr ⟨member, by simp [open_]⟩
    obtain ⟨body, padded, -⟩ := decode_padded decoded
    have line : c ≠ '\r' ∧ c ≠ '\n' := by
      constructor <;> rintro rfl <;> cases mark
    have := solid_ascii (padded.solid c (List.mem_filter.mpr ⟨kept, decide_eq_true line⟩))
    omega

end Base64

section Both
variable {format : PayloadFormat} {text subject : Str}

theorem parseHex_isSome : (parseHex text).isSome ↔
    let clean := Connection.trim ((withoutMarks text).filter fun c => !hexNoise c)
    clean.length % 2 = 0 ∧ clean.all isHex = true := by
  rw [parseHex]
  split
  · next empty =>
    rw [empty]
    exact iff_of_true rfl ⟨rfl, rfl⟩
  · split
    · next wrong => exact iff_of_false nofun fun both => wrong.elim (absurd both.1 ·) fun other => other both.2
    · next right => exact iff_of_true rfl ⟨not_not.mp fun odd => right (Or.inl odd), not_not.mp fun other => right (Or.inr other)⟩

/-- The bytes the browser reads in a payload that needs no decoder rule. -/
def browserBytes (format : PayloadFormat) (text : Str) : Option (List UInt8) :=
  match format with
  | .hex => parseHex text
  | .base64 => parseBase64 text
  | _ => some (utf8 text)

variable {encodeWith : Str → Str → Except Str (List UInt8)} {p t : Str} {data : List UInt8}

theorem toWire_ok (other : format ≠ .protobuf) (ok : toWire encodeWith format text subject = .ok (p, t)) :
    (∃ data, browserBytes format text = some data) ∧ Handler.sentBytes p t = browserBytes format text := by
  have binary (s : Str) : Handler.sentBytes s "binary".toList = base64.decodeString s := if_pos rfl
  have bytes {read : Option (List UInt8)} {err : Str}
      (ok : (match read with
        | some bytes => .ok (base64 bytes, "binary".toList)
        | none => .error err : Except Str (Str × Str)) = .ok (p, t)) :
      (∃ data, read = some data) ∧ Handler.sentBytes p t = read := by
    cases read with
    | none => cases ok
    | some data =>
      obtain ⟨rfl, rfl⟩ := Prod.mk.inj (Except.ok.inj ok)
      rw [binary, base64.decodeString_base64]
      exact ⟨⟨data, rfl⟩, rfl⟩
  cases format with
  | hex => exact bytes ok
  | base64 => exact bytes ok
  | protobuf => exact absurd rfl other
  | _ =>
    obtain ⟨rfl, rfl⟩ := Prod.mk.inj (Except.ok.inj ok)
    exact ⟨⟨_, rfl⟩, rfl⟩

theorem toWire_some (other : format ≠ .protobuf) (read : browserBytes format text = some data) :
    ∃ p t, toWire encodeWith format text subject = .ok (p, t) := by
  cases format with
  | hex =>
    have read : parseHex text = some data := read
    exact ⟨_, _, by rw [toWire, read]⟩
  | base64 =>
    have read : parseBase64 text = some data := read
    exact ⟨_, _, by rw [toWire, read]⟩
  | protobuf => exact absurd rfl other
  | _ => exact ⟨_, _, rfl⟩

attribute [local instance] AlertDialog.goTables

/-- Bytes that both read are the same. -/
theorem bytes_same (read : terminalBytes format.id text = some data) (taken : (browserBytes format text).isSome) :
    browserBytes format text = some data := by
  cases format with
  | hex => exact parseHex_of_decode read
  | base64 =>
    have decoded : base64.decodeString (text.filter fun c => !AlertDialog.unicodeSpace c) = some data := read
    have same : (text.filter fun c => !Connection.trimmed c) = text.filter fun c => !AlertDialog.unicodeSpace c :=
      List.filter_congr fun c member => by rw [spaces_agree decoded taken c member]
    exact parseBase64_of_decode (same ▸ decoded)
  | _ => exact read

end Both

section Pretty

/-- `b.toString(16).padStart(2, '0')` -/
def hexPair (b : UInt8) : Str := [Nat.digitChar (b.toNat / 16), Nat.digitChar (b.toNat % 16)]

/-- What stands before a pair: a blank, and a line break behind each sixteenth blank. -/
def hexGap (n : ℕ) : Str := if n = 0 then [] else if n % 16 = 0 then [' ', '\n'] else [' ']

def hexLines : ℕ → List UInt8 → Str
  | _, [] => []
  | n, b :: bytes => hexGap n ++ (hexPair b ++ hexLines (n + 1) bytes)

/-- `.match(/.{1,76}/g)?.join('\n') ?? ''`, behind so many letters of a line. -/
def wrapped : ℕ → Str → Str
  | _, [] => []
  | n, c :: s => if n = 76 then '\n' :: c :: wrapped 1 s else c :: wrapped (n + 1) s

/-- What `prettyPayload` makes of the two formats that are bytes. -/
def prettyHex (text : Str) : Option Str := (parseHex text).map (hexLines 0)

def prettyBase64 (text : Str) : Option Str := (parseBase64 text).map fun bytes => wrapped 0 (base64 bytes)

theorem hexDigits : ∀ n < 16, hex.value (Nat.digitChar n) = some n ∧ Nat.digitChar n ≠ 'x' ∧
    ¬ (Nat.digitChar n = ' ' ∨ Nat.digitChar n = '\n' ∨ Nat.digitChar n = '\t' ∨ Nat.digitChar n = ':') := by decide

theorem replaceHex_digit {n : ℕ} (digit : n < 16) {s : Str} (open_ : s.head? ≠ some 'x') :
    replaceHex (Nat.digitChar n :: s) = Nat.digitChar n :: replaceHex s := by
  rw [replaceHex.eq_2, if_neg (hexDigits n digit).2.2]
  rintro t - rfl
  exact open_ rfl

theorem decode_hexLines (n : ℕ) (bytes : List UInt8) : hex.decodeString (replaceHex (hexLines n bytes)) = some bytes := by
  induction bytes generalizing n with
  | nil => rfl
  | cons b bytes ih =>
    have small := b.toNat_lt
    have blanks (s : Str) : replaceHex (hexGap n ++ s) = replaceHex s := by
      unfold hexGap
      split_ifs <;> simp [replaceHex]
    have open_ : (hexLines (n + 1) bytes).head? ≠ some 'x' := by
      cases bytes with
      | nil => simp [hexLines]
      | cons b bytes =>
        rw [hexLines, hexGap, if_neg (Nat.succ_ne_zero n)]
        split_ifs <;> simp
    have high := hexDigits (b.toNat / 16) (by omega)
    have low := hexDigits (b.toNat % 16) (by omega)
    rw [hexLines, blanks, hexPair, List.cons_append, List.singleton_append, replaceHex_digit (by omega) (by simp [low.2.1]),
      replaceHex_digit (by omega) open_, hex.decodeString, high.1, low.1, ih]
    exact congrArg (fun b => some (b :: bytes)) (base64.ofNat_eq b (by omega))

theorem filter_wrapped {p : Char → Bool} (line : ¬ p '\n') (n : ℕ) (s : Str) : (wrapped n s).filter p = s.filter p := by
  fun_induction wrapped n s with
  | case1 => rfl
  | case2 c s ih =>
    rw [List.filter_cons_of_neg line, List.filter_cons, List.filter_cons, ih]
  | case3 n c s other ih => rw [List.filter_cons, List.filter_cons, ih]

theorem solid_open : ∀ n < 0x80, isDigit64 (Char.ofNat n) = true ∨ Char.ofNat n = '=' → Connection.trimmed (Char.ofNat n) = false := by
  decide

/-- Tidied bytes are the same bytes, and tidy. -/
theorem pretty_same (text : Str) :
    ((prettyHex text).bind parseHex = parseHex text ∧ (prettyHex text).bind prettyHex = prettyHex text) ∧
      (prettyBase64 text).bind parseBase64 = parseBase64 text ∧ (prettyBase64 text).bind prettyBase64 = prettyBase64 text := by
  have hex_ : (prettyHex text).bind parseHex = parseHex text := by
    unfold prettyHex
    cases parseHex text with
    | none => rfl
    | some bytes => exact parseHex_of_decode (decode_hexLines 0 bytes)
  have base64_ : (prettyBase64 text).bind parseBase64 = parseBase64 text := by
    unfold prettyBase64
    cases parseBase64 text with
    | none => rfl
    | some bytes =>
      have decoded := base64.decodeString_base64 bytes
      have solid : ((base64 bytes).filter fun c => !Connection.trimmed c) = base64 bytes := by
        obtain ⟨body, padded, -⟩ := decode_padded (base64.decode_base64 bytes)
        refine List.filter_eq_self.mpr fun c member => ?_
        have open_ := solid_open c.toNat (solid_ascii (padded.solid c member))
        rw [Char.ofNat_toNat] at open_
        rw [open_ (padded.solid c member)]
        rfl
      exact parseBase64_of_decode (by rw [filter_wrapped (by decide), solid, decoded])
  exact ⟨⟨hex_, Option.map_bind.symm.trans (congrArg (Option.map _) hex_)⟩, base64_,
    Option.map_bind.symm.trans (congrArg (Option.map _) base64_)⟩

end Pretty
end NatsExplorer.Client.payloadFormat
