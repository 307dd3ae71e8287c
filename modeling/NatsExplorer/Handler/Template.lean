import NatsExplorer.Client.LiveView
import NatsExplorer.Message.Payload

/-! The placeholders of a text to be published (`internal/handler/run.go`): `{{i}}`, `{{ts}}`, `{{uuid}}` and
`{{rand:MIN-MAX}}`, in payloads, subjects and header values. A text is sent as it is exactly if none occurs in it. -/
namespace NatsExplorer.Handler
open Go

inductive Placeholder where
  | i
  | ts
  | uuid
  | rand (lo hi : Str)
  deriving DecidableEq

/-- `\s` of a regular expression. -/
def isBlank (c : Char) : Bool := c = ' ' || c = '\t' || c = '\n' || c = '\r' || c.toNat = 12

/-- `-?\d+` -/
def signedDigits (s : Str) : Option (Str × Str) :=
  let (sign, rest) :=
    match s with
    | '-' :: rest => (['-'], rest)
    | rest => ([], rest)
  if rest.takeWhile Char.isDigit = [] then none
  else some (sign ++ rest.takeWhile Char.isDigit, rest.dropWhile Char.isDigit)

/-- The name in a placeholder, and what follows. -/
def variable_ : Str → Option (Placeholder × Str)
  | 'i' :: rest => some (.i, rest)
  | 't' :: 's' :: rest => some (.ts, rest)
  | 'u' :: 'u' :: 'i' :: 'd' :: rest => some (.uuid, rest)
  | 'r' :: 'a' :: 'n' :: 'd' :: ':' :: rest =>
    match signedDigits rest with
    | some (lo, '-' :: rest) => (signedDigits rest).map fun (hi, rest) => (.rand lo hi, rest)
    | _ => none
  | _ => none

/-- `templateVar` at the start of a text. -/
def templateVar : Str → Option (Placeholder × Str)
  | '{' :: '{' :: rest =>
    match variable_ (rest.dropWhile isBlank) with
    | some (p, rest) =>
      match rest.dropWhile isBlank with
      | '}' :: '}' :: rest => some (p, rest)
      | _ => none
    | none => none
  | _ => none

/-- `strconv.Atoi` of an optional sign and digits; out of range it is the bound, next to an error nobody looks at. -/
def atoi (s : Str) : Int :=
  let value (digits : Str) : Int := digits.foldl (fun n c => 10 * n + (c.toNat - '0'.toNat : Nat)) 0
  match s with
  | '-' :: digits => max (-2 ^ 63) (-value digits)
  | digits => min (2 ^ 63 - 1) (value digits)

/-- `hex.EncodeToString` -/
def hexText (bytes : List UInt8) : Str := bytes.flatMap fun b => [Nat.digitChar (b.toNat / 16), Nat.digitChar (b.toNat % 16)]

/-- `newUUID`, of 16 random bytes or none. -/
def newUUID : Option (Fin 16 → UInt8) → Str
  | none => "00000000-0000-4000-8000-000000000000".toList
  | some b =>
    let bytes := (List.finRange 16).map fun k => if k = 6 then b k &&& 0x0f ||| 0x40 else if k = 8 then b k &&& 0x3f ||| 0x80 else b k
    let h := hexText bytes
    h.take 8 ++ '-' :: (h.drop 8).take 4 ++ '-' :: (h.drop 12).take 4 ++ '-' :: (h.drop 16).take 4 ++ '-' :: h.drop 20

/-- What the process draws for the placeholders of one text, in their order. -/
structure Draws where
  bytes : ℕ → Option (Fin 16 → UInt8)
  /-- `rnd.Intn` -/
  intn : ℕ → Int → Int

/-- What stands for a placeholder; `Intn` panics where the range is empty, as one that wraps is. -/
def Placeholder.value (i now : Int) (draws : Draws) (k : ℕ) : Placeholder → Option Str
  | .i => some (Client.decimal i)
  | .ts => some (Client.decimal now)
  | .uuid => some (newUUID (draws.bytes k))
  | .rand lo hi =>
    let (lo, hi) := if atoi hi < atoi lo then (atoi hi, atoi lo) else (atoi lo, atoi hi)
    let n := (hi - lo + 1).bmod (2 ^ 64)
    if n ≤ 0 then none else some (Client.decimal (lo + draws.intn k n))

/-- `ReplaceAllStringFunc`, from the `k`-th placeholder on. -/
def replaceAll (i now : Int) (draws : Draws) : ℕ → ℕ → Str → Option Str
  | _, _, [] => some []
  | 0, _, _ => none
  | fuel + 1, k, c :: s =>
    match templateVar (c :: s) with
    | some (p, rest) => do
      let v ← p.value i now draws k
      let r ← replaceAll i now draws fuel (k + 1) rest
      some (v ++ r)
    | none => (replaceAll i now draws fuel k s).map (c :: ·)

/-- `expandTemplate`; nothing is a panic. -/
def expandTemplate (s : Str) (i now : Int) (draws : Draws) : Option Str :=
  if strings.contains s ['{', '{'] then replaceAll i now draws s.length 0 s else some s

/-- A placeholder occurs in the text. -/
def Placed (s : Str) : Prop := ∃ a b, s = a ++ b ∧ (templateVar b).isSome

section Occurring
variable {s rest : Str} {p : Placeholder}

theorem templateVar_brace (found : templateVar s = some (p, rest)) : ∃ s', s = '{' :: s' := by
  unfold templateVar at found
  split at found
  · exact ⟨_, rfl⟩
  · cases found

theorem signedDigits_length {digits : Str} (found : signedDigits s = some (digits, rest)) : rest.length ≤ s.length := by
  unfold signedDigits at found
  have shorter (t : Str) : (t.dropWhile Char.isDigit).length ≤ t.length := (List.dropWhile_sublist _).length_le
  split at found
  split at found
  · cases found
  · next sign tail split _ =>
    cases found
    split at split
    · cases split
      exact (shorter _).trans (Nat.le_succ _)
    · cases split
      exact shorter _

theorem variable_length (found : variable_ s = some (p, rest)) : rest.length ≤ s.length := by
  unfold variable_ at found
  split at found
  · cases found
    exact Nat.le_succ _
  · cases found
    exact (Nat.le_succ _).trans (Nat.le_succ _)
  · cases found
    simp only [List.length_cons]
    omega
  · split at found
    · next lo _ first =>
      obtain ⟨⟨hi, rest'⟩, second, same⟩ := Option.map_eq_some_iff.mp found
      cases same
      have := signedDigits_length first
      have := signedDigits_length second
      simp only [List.length_cons] at *
      omega
    · cases found
  · cases found

theorem templateVar_length (found : templateVar s = some (p, rest)) : rest.length < s.length := by
  have shorter (t : Str) : (t.dropWhile isBlank).length ≤ t.length := (List.dropWhile_sublist _).length_le
  unfold templateVar at found
  split at found
  · next tail =>
    split at found
    · next p' rest' name =>
      have := variable_length name
      split at found
      · next last close =>
        cases found
        have closed := shorter rest'
        have opened := shorter tail
        rw [close] at closed
        simp only [List.length_cons] at *
        omega
      · cases found
    · cases found
  · cases found

variable {i now : Int} {draws : Draws}

/-- The length of the text is fuel enough. -/
theorem replaceAll_succ (fuel k : ℕ) (enough : s.length ≤ fuel) :
    replaceAll i now draws (fuel + 1) k s = replaceAll i now draws fuel k s := by
  induction fuel generalizing k s with
  | zero =>
    obtain rfl := List.length_eq_zero_iff.mp (Nat.le_zero.mp enough)
    rfl
  | succ fuel ih =>
    cases s with
    | nil => rfl
    | cons c s =>
      rw [List.length_cons] at enough
      rw [replaceAll, replaceAll]
      cases found : templateVar (c :: s) with
      | none => simp only [ih k (by omega : s.length ≤ fuel)]
      | some both =>
        obtain ⟨p, rest⟩ := both
        have := templateVar_length found
        rw [List.length_cons] at this
        simp only [ih (k + 1) (by omega : rest.length ≤ fuel)]

theorem not_placed_cons {c : Char} : ¬ Placed (c :: s) ↔ templateVar (c :: s) = none ∧ ¬ Placed s := by
  constructor
  · intro none
    refine ⟨?_, fun ⟨a, b, split, here⟩ => none ⟨c :: a, b, by rw [split]; rfl, here⟩⟩
    by_contra some
    exact none ⟨[], c :: s, rfl, Option.isSome_iff_ne_none.mpr some⟩
  · rintro ⟨first, later⟩ ⟨a, b, split, here⟩
    cases a with
    | nil =>
      rw [List.nil_append] at split
      rw [← split, first] at here
      cases here
    | cons d a =>
      rw [List.cons_append, List.cons.injEq] at split
      exact later ⟨a, b, split.2, here⟩

theorem decimal_brace (n : Int) : ∃ c s', Client.decimal n = c :: s' ∧ c ≠ '{' := by
  unfold Client.decimal
  split
  · exact ⟨'-', _, rfl, by decide⟩
  · cases digits : Nat.toDigits 10 n.natAbs with
    | nil => exact absurd digits Nat.toDigits_ne_nil
    | cons c s' =>
      refine ⟨c, s', rfl, ?_⟩
      rintro rfl
      exact Client.not_digit (by decide) (digits ▸ List.mem_cons_self)

theorem digitChar_brace {n : ℕ} (small : n < 16) : Nat.digitChar n ≠ '{' := by
  revert n
  decide

theorem newUUID_brace (bytes : Option (Fin 16 → UInt8)) : ∃ c s', newUUID bytes = c :: s' ∧ c ≠ '{' := by
  cases bytes with
  | none => exact ⟨'0', _, rfl, by decide⟩
  | some b =>
    have := (b 0).toNat_lt
    exact ⟨Nat.digitChar ((b 0).toNat / 16), _, rfl, digitChar_brace (by omega)⟩

/-- What stands for a placeholder does not begin with a brace. -/
theorem value_brace {k : ℕ} {v s' : Str} (value : p.value i now draws k = some v) (tail : Str) : v ++ tail ≠ '{' :: s' := by
  have first : ∃ c s', v = c :: s' ∧ c ≠ '{' := by
    cases p with
    | i =>
      cases value
      exact decimal_brace i
    | ts =>
      cases value
      exact decimal_brace now
    | uuid =>
      cases value
      exact newUUID_brace _
    | rand lo hi =>
      simp only [Placeholder.value, Option.ite_none_left_eq_some, Option.some.injEq] at value
      obtain ⟨-, rfl⟩ := value
      exact decimal_brace _
  obtain ⟨c, s'', rfl, other⟩ := first
  intro same
  exact other (List.cons.inj same).1

/-- A text comes out as it went in exactly if no placeholder occurs in it. -/
theorem replaceAll_same (fuel k : ℕ) (enough : s.length ≤ fuel) : replaceAll i now draws fuel k s = some s ↔ ¬ Placed s := by
  induction s generalizing fuel k with
  | nil =>
    refine iff_of_true (by cases fuel <;> rfl) ?_
    rintro ⟨a, b, split, here⟩
    obtain ⟨-, rfl⟩ := List.append_eq_nil_iff.mp split.symm
    cases here
  | cons c s ih =>
    cases fuel with
    | zero => exact absurd enough (Nat.not_succ_le_zero _)
    | succ fuel =>
      rw [List.length_cons] at enough
      rw [not_placed_cons, ← ih fuel k (by omega), replaceAll]
      cases found : templateVar (c :: s) with
      | none =>
        simp only [true_and]
        constructor
        · intro same
          obtain ⟨r, ran, out⟩ := Option.map_eq_some_iff.mp same
          rw [ran, (List.cons.inj out).2]
        · intro same
          rw [same]
          rfl
      | some both =>
        obtain ⟨p, rest⟩ := both
        refine iff_of_false (fun same => ?_) fun both => by cases both.1
        obtain ⟨s', brace⟩ := templateVar_brace found
        simp only [Option.bind_eq_bind, Option.bind_eq_some_iff, Option.some.injEq] at same
        obtain ⟨v, value, r, -, out⟩ := same
        rw [brace] at out
        exact value_brace value r out

theorem contains_of_placed (placed : Placed s) : strings.contains s ['{', '{'] = true := by
  obtain ⟨a, b, rfl, here⟩ := placed
  unfold templateVar at here
  split at here
  · next rest => exact decide_eq_true ⟨a, rest, by simp⟩
  · cases here

theorem expandTemplate_same : expandTemplate s i now draws = some s ↔ ¬ Placed s := by
  unfold expandTemplate
  split
  · exact replaceAll_same s.length 0 le_rfl
  · next without => exact iff_of_true rfl fun placed => without (contains_of_placed placed)

end Occurring

/-- `payloadBytes`: placeholders are only in text. The error is that of the decoder. -/
def payloadBytes (payload payloadType : Str) (i now : Int) (draws : Draws) (notBase64 : Str) : Option (Except Str (List UInt8)) :=
  if payloadType = "binary".toList then
    match base64.decodeString payload with
    | some bytes => some (.ok bytes)
    | none => some (.error ("payload is not base64: ".toList ++ notBase64))
  else (expandTemplate payload i now draws).map fun text => .ok (utf8 text)

theorem payloadBytes_text {payload payloadType notBase64 : Str} {i now : Int} {draws : Draws} (text : payloadType ≠ "binary".toList) :
    payloadBytes payload payloadType i now draws notBase64 = (expandTemplate payload i now draws).map fun text => .ok (utf8 text) :=
  if_neg text

theorem utf8_injective {s t : Str} (same : utf8 s = utf8 t) : s = t := by
  have data : Data.text s = Data.text t := by rw [← Data.ofBytes_utf8, ← Data.ofBytes_utf8, same]
  exact Data.text.inj data

end NatsExplorer.Handler
