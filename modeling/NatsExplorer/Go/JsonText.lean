import NatsExplorer.Go.Json
import Mathlib.Algebra.Order.BigOperators.Group.List
import Mathlib.Algebra.Order.Group.Nat
import Mathlib.Data.List.TakeDrop

/-! The text of JSON: how `encoding/json` writes a value, and how it reads one. -/
namespace Go.json

/-! ### Writing -/

/-- `\u` and four digits. -/
def unicodeEscape (n : ℕ) : Str :=
  ['\\', 'u', Nat.digitChar (n / 4096 % 16), Nat.digitChar (n / 256 % 16), Nat.digitChar (n / 16 % 16), Nat.digitChar (n % 16)]

/-- A rune between quotes: what could end a string, a line or an element of HTML is escaped. -/
def escape (c : Char) : Str :=
  if c = '"' ∨ c = '\\' then ['\\', c]
  else if c = '\x08' then ['\\', 'b']
  else if c = '\x0c' then ['\\', 'f']
  else if c = '\n' then ['\\', 'n']
  else if c = '\r' then ['\\', 'r']
  else if c = '\t' then ['\\', 't']
  else if c.toNat < 0x20 ∨ c = '<' ∨ c = '>' ∨ c = '&' ∨ c = '\u2028' ∨ c = '\u2029' then unicodeEscape c.toNat
  else [c]

def quote (s : Str) : Str := '"' :: (s.flatMap escape ++ ['"'])

/-- `strconv.AppendInt` -/
def decimal (n : Int) : Str := if n < 0 then '-' :: Nat.toDigits 10 n.natAbs else Nat.toDigits 10 n.natAbs

mutual

def print : Value → Str
  | .null => "null".toList
  | .bool b => if b then "true".toList else "false".toList
  | .number text => text
  | .string s => quote s
  | .array items => '[' :: (List.intercalate [','] (printItems items) ++ [']'])
  | .object fields => '\x7b' :: (List.intercalate [','] (printFields fields) ++ ['\x7d'])

def printItems : List Value → List Str
  | [] => []
  | v :: vs => print v :: printItems vs

def printFields : List (Str × Value) → List Str
  | [] => []
  | (name, v) :: fields => (quote name ++ ':' :: print v) :: printFields fields

end

/-! ### Reading -/

def isBlank (c : Char) : Bool := c = ' ' || c = '\t' || c = '\r' || c = '\n'

def skip (text : Str) : Str := text.dropWhile isBlank

def hexDigit (c : Char) : Option ℕ :=
  if c.isDigit then some (c.toNat - '0'.toNat)
  else if 'a' ≤ c ∧ c ≤ 'f' then some (c.toNat - 'a'.toNat + 10)
  else if 'A' ≤ c ∧ c ≤ 'F' then some (c.toNat - 'A'.toNat + 10)
  else none

/-- `getu4` -/
def getu4 (a b c d : Char) : Option ℕ := do
  some (4096 * (← hexDigit a) + 256 * (← hexDigit b) + 16 * (← hexDigit c) + (← hexDigit d))

def unescaped (c : Char) : Option Char :=
  if c = '"' ∨ c = '\\' ∨ c = '/' then some c
  else if c = 'b' then some '\x08'
  else if c = 'f' then some '\x0c'
  else if c = 'n' then some '\n'
  else if c = 'r' then some '\r'
  else if c = 't' then some '\t'
  else none

/-- A string up to its closing quote. An escape may be of one half of a surrogate pair, which is no rune. -/
def units : Str → Option (List ℕ × Str)
  | [] => none
  | c :: t =>
    if c = '"' then some ([], t)
    else if c = '\\' then
      match t with
      | [] => none
      | e :: t =>
        if e = 'u' then
          match t with
          | h :: i :: j :: k :: t => (getu4 h i j k).bind fun u => (units t).map fun p => (u :: p.1, p.2)
          | _ => none
        else (unescaped e).bind fun u => (units t).map fun p => (u.toNat :: p.1, p.2)
    else if c.toNat < 0x20 then none
    else (units t).map fun p => (c.toNat :: p.1, p.2)

/-- `utf8.RuneError` stands for a half without its other half. -/
def rune (u : ℕ) : Char := if 0xD800 ≤ u ∧ u < 0xE000 then '\uFFFD' else Char.ofNat u

/-- `utf16.DecodeRune` of two halves -/
def runes : List ℕ → Str
  | [] => []
  | [u] => [rune u]
  | u :: v :: us =>
    if 0xD800 ≤ u ∧ u < 0xDC00 ∧ 0xDC00 ≤ v ∧ v < 0xE000 then
      Char.ofNat ((u - 0xD800) * 0x400 + (v - 0xDC00) + 0x10000) :: runes us
    else rune u :: runes (v :: us)

/-- `unquote` of what stands after a quote -/
def unquote (text : Str) : Option (Str × Str) := (units text).map fun p => (runes p.1, p.2)

/-- Digits, at least one. -/
def digits (text : Str) : Option (Str × Str) :=
  if text.takeWhile Char.isDigit = [] then none else some (text.span Char.isDigit)

/-- A sign, if one of these is there. -/
def sign (signs : List Char) : Str → Str × Str
  | [] => ([], [])
  | c :: t => if c ∈ signs then ([c], t) else ([], c :: t)

/-- What follows one of these characters; without one of them nothing does. -/
def part (marks signs : List Char) (text : Str) : Option (Str × Str) :=
  match sign marks text with
  | ([], t) => some ([], t)
  | (mark, t) => (digits (sign signs t).2).map fun p => (mark ++ (sign signs t).1 ++ p.1, p.2)

/-- No zero stands in front of other digits. -/
def whole (text : Str) : Option (Str × Str) :=
  match text with
  | [] => none
  | c :: t => if c = '0' then some (['0'], t) else digits text

def number (text : Str) : Option (Str × Str) :=
  match whole (sign ['-'] text).2 with
  | none => none
  | some (n, t) =>
    match part ['.'] [] t with
    | none => none
    | some (fraction, t) =>
      (part ['e', 'E'] ['+', '-'] t).map fun p => ((sign ['-'] text).1 ++ n ++ fraction ++ p.1, p.2)

def literal (word : Str) (v : Value) (text : Str) : Option (Value × Str) :=
  (strings.cutPrefix text word).map fun t => (v, t)

section Enclosed
variable {α : Type}

/-- What is between commas, up to the bracket that closes it. Each round takes a rune at least. -/
def items (close : Char) (item : Str → Option (α × Str)) : ℕ → Str → Option (List α × Str)
  | 0, _ => none
  | n + 1, text =>
    match item text with
    | none => none
    | some (a, t) =>
      match skip t with
      | [] => none
      | c :: t =>
        if c = ',' then (items close item n t).map fun p => (a :: p.1, p.2)
        else if c = close then some ([a], t)
        else none

def enclosed (close : Char) (item : Str → Option (α × Str)) (text : Str) : Option (List α × Str) :=
  match skip text with
  | [] => none
  | c :: t => if c = close then some ([], t) else items close item text.length text

end Enclosed

def field (value : Str → Option (Value × Str)) (text : Str) : Option ((Str × Value) × Str) :=
  match skip text with
  | [] => none
  | c :: t =>
    if c = '"' then
      (unquote t).bind fun name =>
      match skip name.2 with
      | [] => none
      | c :: t => if c = ':' then (value t).map fun p => ((name.1, p.1), p.2) else none
    else none

/-- A value and what follows it; brackets go no deeper than `depth`. -/
def value (depth : ℕ) (text : Str) : Option (Value × Str) :=
  match skip text with
  | [] => none
  | c :: t =>
    if c = '"' then (unquote t).map fun p => (.string p.1, p.2)
    else if c = '[' then
      match depth with
      | 0 => none
      | depth + 1 => (enclosed ']' (value depth) t).map fun p => (.array p.1, p.2)
    else if c = '\x7b' then
      match depth with
      | 0 => none
      | depth + 1 => (enclosed '\x7d' (field (value depth)) t).map fun p => (.object p.1, p.2)
    else if c = 'n' then literal "ull".toList .null t
    else if c = 't' then literal "rue".toList (.bool true) t
    else if c = 'f' then literal "alse".toList (.bool false) t
    else (number (c :: t)).map fun p => (.number p.1, p.2)

def maxNestingDepth : ℕ := 10000

/-- The one value a text is of. -/
def parse (text : Str) : Option Value :=
  match value maxNestingDepth text with
  | some (v, rest) => if rest.all isBlank then some v else none
  | none => none

/-! ### Reading what was written -/

section Strings

theorem hexDigit_digitChar {n : ℕ} (small : n < 16) : hexDigit (Nat.digitChar n) = some n := by
  have each : ∀ n < 16, hexDigit (Nat.digitChar n) = some n := by decide
  exact each n small

/-- An escape of four digits is read as what it was written for. -/
theorem units_unicodeEscape {n : ℕ} (small : n < 65536) (text : Str) :
    units (unicodeEscape n ++ text) = (units text).map fun p => (n :: p.1, p.2) := by
  have read : getu4 (Nat.digitChar (n / 4096 % 16)) (Nat.digitChar (n / 256 % 16)) (Nat.digitChar (n / 16 % 16))
      (Nat.digitChar (n % 16)) = some n := by
    have value : 4096 * (n / 4096 % 16) + 256 * (n / 256 % 16) + 16 * (n / 16 % 16) + n % 16 = n := by omega
    unfold getu4
    rw [hexDigit_digitChar (by omega), hexDigit_digitChar (by omega), hexDigit_digitChar (by omega), hexDigit_digitChar (by omega)]
    exact congrArg some value
  rw [unicodeEscape, List.cons_append, units.eq_def]
  dsimp only [List.cons_append, List.nil_append]
  rw [if_neg (by decide), if_pos rfl, if_pos rfl, read, Option.bind_some]

theorem units_unescaped {e c : Char} (read : unescaped e = some c) (text : Str) :
    units ('\\' :: e :: text) = (units text).map fun p => (c.toNat :: p.1, p.2) := by
  have short : e ≠ 'u' := by
    rintro rfl
    cases read
  rw [units.eq_def]
  dsimp only
  rw [if_neg (by decide), if_pos rfl, if_neg short, read, Option.bind_some]

theorem units_escape (c : Char) (text : Str) :
    units (escape c ++ text) = (units text).map fun p => (c.toNat :: p.1, p.2) := by
  unfold escape
  split_ifs with special back feed line carriage tab coded
  · rcases special with rfl | rfl <;> exact units_unescaped rfl text
  · exact back ▸ units_unescaped rfl text
  · exact feed ▸ units_unescaped rfl text
  · exact line ▸ units_unescaped rfl text
  · exact carriage ▸ units_unescaped rfl text
  · exact tab ▸ units_unescaped rfl text
  · refine units_unicodeEscape ?_ text
    rcases coded with control | rfl | rfl | rfl | rfl | rfl
    · omega
    all_goals decide
  · obtain ⟨quoted, escaped⟩ := not_or.mp special
    rw [List.singleton_append, units.eq_def]
    dsimp only
    rw [if_neg quoted, if_neg escaped, if_neg fun control => coded (Or.inl control)]

theorem units_quoted (s rest : Str) : units (s.flatMap escape ++ '"' :: rest) = some (s.map Char.toNat, rest) := by
  induction s with
  | nil =>
    rw [List.flatMap_nil, List.nil_append, units.eq_def]
    rfl
  | cons c s ih =>
    rw [List.flatMap_cons, List.append_assoc, units_escape, ih]
    rfl

theorem rune_toNat (c : Char) : rune c.toNat = c := by
  have apart : ¬ (0xD800 ≤ c.toNat ∧ c.toNat < 0xE000) := by
    rcases c.valid with low | high
    · exact fun half => absurd low (by have : c.val.toNat = c.toNat := rfl; omega)
    · exact fun half => absurd high.1 (by have : c.val.toNat = c.toNat := rfl; omega)
  rw [rune, if_neg apart, Char.ofNat_toNat]

theorem runes_toNat (s : Str) : runes (s.map Char.toNat) = s := by
  induction s with
  | nil => rfl
  | cons c s ih =>
    cases s with
    | nil => simp only [List.map_cons, List.map_nil, runes, rune_toNat]
    | cons d s =>
      have apart : ¬ (0xD800 ≤ c.toNat ∧ c.toNat < 0xDC00 ∧ 0xDC00 ≤ d.toNat ∧ d.toNat < 0xE000) := by
        rcases c.valid with low | high
        · exact fun half => absurd low (by have : c.val.toNat = c.toNat := rfl; omega)
        · exact fun half => absurd high.1 (by have : c.val.toNat = c.toNat := rfl; omega)
      simp only [List.map_cons] at ih ⊢
      rw [runes, if_neg apart, ih, rune_toNat]

theorem unquote_quoted (s rest : Str) : unquote (s.flatMap escape ++ '"' :: rest) = some (s, rest) := by
  rw [unquote, units_quoted, Option.map_some, runes_toNat]

end Strings

/-- A value ends here: with the text, at a comma or at a bracket. -/
def Ends (rest : Str) : Prop := ∀ c ∈ rest.head?, c = ',' ∨ c = ']' ∨ c = '\x7d'

section Numbers
variable {rest : Str}

theorem ends_sign (ends : Ends rest) {signs : List Char} (comma : ',' ∉ signs) (bracket : ']' ∉ signs) (brace : '\x7d' ∉ signs) :
    sign signs rest = ([], rest) := by
  cases rest with
  | nil => rfl
  | cons c t =>
    refine if_neg ?_
    rcases ends c rfl with rfl | rfl | rfl
    · exact comma
    · exact bracket
    · exact brace

theorem ends_part (ends : Ends rest) {marks : List Char} (comma : ',' ∉ marks) (bracket : ']' ∉ marks) (brace : '\x7d' ∉ marks)
    (signs : List Char) : part marks signs rest = some ([], rest) := by
  rw [part, ends_sign ends comma bracket brace]

theorem digits_append (ends : Ends rest) (n : ℕ) : digits (Nat.toDigits 10 n ++ rest) = some (Nat.toDigits 10 n, rest) := by
  have all : ∀ c ∈ Nat.toDigits 10 n, c.isDigit = true := fun c member => Nat.isDigit_of_mem_toDigits (by decide) le_rfl member
  have stop : rest.takeWhile Char.isDigit = [] ∧ rest.dropWhile Char.isDigit = rest := by
    cases rest with
    | nil => exact ⟨rfl, rfl⟩
    | cons c t =>
      have other : c.isDigit = false := by rcases ends c rfl with rfl | rfl | rfl <;> rfl
      exact ⟨List.takeWhile_cons_of_neg (by rw [other]; decide), List.dropWhile_cons_of_neg (by rw [other]; decide)⟩
  rw [digits, List.span_eq_takeWhile_dropWhile, List.takeWhile_append_of_pos all, List.dropWhile_append_of_pos all, stop.1, stop.2,
    List.append_nil, if_neg Nat.toDigits_ne_nil]

/-- No zero stands in front. -/
theorem toDigits_head {n : ℕ} (positive : 0 < n) : ∃ c t, Nat.toDigits 10 n = c :: t ∧ c ≠ '0' := by
  induction n using Nat.base_induction 10 (by decide) with
  | single m small =>
    have each : ∀ m < 10, 0 < m → Nat.digitChar m ≠ '0' := by decide
    exact ⟨_, [], Nat.toDigits_of_lt_base small, each m small positive⟩
  | digit m k small some ih =>
    obtain ⟨c, t, digits, other⟩ := ih some
    rw [← Nat.toDigits_append_toDigits (by decide) some small, digits]
    exact ⟨c, _, rfl, other⟩

theorem whole_append (ends : Ends rest) (n : ℕ) : whole (Nat.toDigits 10 n ++ rest) = some (Nat.toDigits 10 n, rest) := by
  rcases Nat.eq_zero_or_pos n with rfl | positive
  · rfl
  · obtain ⟨c, t, digits, other⟩ := toDigits_head positive
    have read := digits_append ends n
    rw [digits, List.cons_append] at read ⊢
    rw [whole, if_neg other, read]

theorem sign_decimal (n : Int) (rest : Str) :
    sign ['-'] (decimal n ++ rest) = (if n < 0 then ['-'] else [], Nat.toDigits 10 n.natAbs ++ rest) := by
  unfold decimal
  split
  · rfl
  · obtain ⟨c, t, digits⟩ := List.exists_cons_of_ne_nil (Nat.toDigits_ne_nil (n := n.natAbs) (b := 10))
    have digit : c.isDigit = true := Nat.isDigit_of_mem_toDigits (by decide) le_rfl (digits ▸ List.mem_cons_self)
    have other : c ∉ ['-'] := by
      rw [List.mem_singleton]
      rintro rfl
      cases digit
    rw [digits, List.cons_append, sign, if_neg other]

theorem number_decimal (ends : Ends rest) (n : Int) : number (decimal n ++ rest) = some (decimal n, rest) := by
  rw [number, sign_decimal, whole_append ends]
  dsimp only
  rw [ends_part ends (by decide) (by decide) (by decide)]
  dsimp only
  rw [ends_part ends (by decide) (by decide) (by decide), Option.map_some, List.append_nil, List.append_nil, decimal]
  split <;> rfl

theorem foldl_digits (ds : Str) (m : ℕ) :
    ds.foldl (fun (n : Int) c => 10 * n + (c.toNat - '0'.toNat : Nat)) m = (Nat.ofDigitChars 10 ds m : Int) := by
  induction ds generalizing m with
  | nil => simp
  | cons c ds ih =>
    rw [List.foldl_cons, Nat.ofDigitChars_cons, ← ih]
    push_cast
    rfl

/-- In 64 bits a number is read as what was written. -/
theorem parseInt_decimal {n : Int} (low : -2 ^ 63 ≤ n) (high : n < 2 ^ 63) : parseInt (decimal n) = some n := by
  let ds := Nat.toDigits 10 n.natAbs
  have all : ds.all Char.isDigit = true :=
    List.all_eq_true.mpr fun c member => Nat.isDigit_of_mem_toDigits (by decide) le_rfl member
  have value : ds.foldl (fun (n : Int) c => 10 * n + (c.toNat - '0'.toNat : Nat)) 0 = n.natAbs :=
    (foldl_digits _ 0).trans (congrArg Nat.cast Nat.ofDigitChars_ten_toDigits)
  have inside : ¬ (ds = [] ∨ ¬ ds.all Char.isDigit = true ∨ n < -2 ^ 63 ∨ 2 ^ 63 ≤ n) := by
    rintro (none | other | low' | high')
    · exact Nat.toDigits_ne_nil none
    · exact other all
    · exact absurd low (Int.not_le.mpr low')
    · exact absurd high (Int.not_lt.mpr high')
  have signed : (if decide (n < 0) = true then -(n.natAbs : Int) else n.natAbs) = n := by
    simp only [decide_eq_true_eq]
    omega
  unfold parseInt
  split
  rename_i negative digits pair
  obtain ⟨rfl, rfl⟩ : negative = decide (n < 0) ∧ digits = ds := by
    unfold decimal at pair
    split_ifs at pair with below
    · cases pair
      exact ⟨(decide_eq_true below).symm, rfl⟩
    · split at pair
      · rename_i digits minus
        have digit : '-'.isDigit = true :=
          Nat.isDigit_of_mem_toDigits (b := 10) (n := n.natAbs) (by decide) le_rfl (minus ▸ List.mem_cons_self)
        cases digit
      · cases pair
        exact ⟨(decide_eq_false below).symm, rfl⟩
  dsimp only
  rw [value, signed, if_neg inside]

end Numbers

theorem skip_cons {c : Char} (other : isBlank c = false) (t : Str) : skip (c :: t) = c :: t :=
  List.dropWhile_cons_of_neg (by rw [other]; decide)

theorem joined_single (s : Str) : List.intercalate [','] [s] = s := List.append_nil s

theorem joined_cons (s s' : Str) (l : List Str) :
    List.intercalate [','] (s :: s' :: l) = s ++ ',' :: List.intercalate [','] (s' :: l) := by
  rw [List.intercalate_cons_cons, List.append_assoc, List.singleton_append]

section Brackets
variable {α : Type} {close : Char} {item : Str → Option (α × Str)} {text : α → Str} {l : List α}

/-- One after the other they are read back, if each one is that stands in front of a comma or of the end. -/
theorem items_joined (blank : isBlank close = false) (comma : close ≠ ',')
    (reads : ∀ a ∈ l, ∀ c t, c = ',' ∨ c = close → item (text a ++ c :: t) = some (a, c :: t)) (some_ : l ≠ []) {n : ℕ}
    (room : l.length ≤ n) (rest : Str) :
    items close item n (List.intercalate [','] (l.map text) ++ close :: rest) = some (l, rest) := by
  induction l generalizing n with
  | nil => exact absurd rfl some_
  | cons a l ih =>
    obtain ⟨first, reads⟩ := List.forall_mem_cons.mp reads
    obtain _ | n := n
    · cases room
    cases l with
    | nil =>
      rw [List.map_singleton, joined_single, items, first close rest (Or.inr rfl)]
      dsimp only
      rw [skip_cons blank]
      dsimp only
      rw [if_neg comma, if_pos rfl]
    | cons b l =>
      rw [List.map_cons, List.map_cons, joined_cons, List.append_assoc, List.cons_append, ← List.map_cons, items, first ',' _ (Or.inl rfl)]
      dsimp only
      rw [skip_cons rfl]
      dsimp only
      rw [if_pos rfl, ih reads (List.cons_ne_nil b l) (Nat.le_of_succ_le_succ room)]
      rfl

theorem length_joined (l : List Str) : l.length ≤ (List.intercalate [','] l).length + 1 := by
  induction l with
  | nil => exact Nat.zero_le _
  | cons s l ih =>
    cases l with
    | nil => exact Nat.le_add_left _ _
    | cons s' l =>
      rw [joined_cons, List.length_append]
      simp only [List.length_cons] at ih ⊢
      omega

theorem enclosed_joined (blank : isBlank close = false) (comma : close ≠ ',')
    (reads : ∀ a ∈ l, ∀ c t, c = ',' ∨ c = close → item (text a ++ c :: t) = some (a, c :: t))
    (starts : ∀ a ∈ l, ∃ c t, text a = c :: t ∧ isBlank c = false ∧ c ≠ close) (rest : Str) :
    enclosed close item (List.intercalate [','] (l.map text) ++ close :: rest) = some (l, rest) := by
  cases l with
  | nil =>
    have nothing : List.intercalate [','] (([] : List α).map text) = [] := rfl
    rw [nothing, List.nil_append, enclosed, skip_cons blank]
    exact if_pos rfl
  | cons a l =>
    obtain ⟨c, t, start, here, open_⟩ := starts a List.mem_cons_self
    obtain ⟨t', joined⟩ : ∃ t', List.intercalate [','] ((a :: l).map text) ++ close :: rest = c :: t' := by
      cases l <;> simp [List.intercalate, start]
    have room : (a :: l).length ≤ (List.intercalate [','] ((a :: l).map text) ++ close :: rest).length := by
      have := length_joined ((a :: l).map text)
      rw [List.length_map] at this
      rw [List.length_append, List.length_cons (a := close)]
      omega
    have read := items_joined blank comma reads (List.cons_ne_nil a l) room rest
    rw [joined] at read ⊢
    rw [enclosed, skip_cons here]
    dsimp only
    rw [if_neg open_, read]

end Brackets

@[simp] theorem printItems_eq (vs : List Value) : printItems vs = vs.map print := by
  induction vs with
  | nil => rfl
  | cons v vs ih => rw [printItems, ih, List.map_cons]

@[simp] theorem printFields_eq (fields : List (Str × Value)) : printFields fields = fields.map fun f => quote f.1 ++ ':' :: print f.2 := by
  induction fields with
  | nil => rfl
  | cons f fields ih => rw [printFields, ih, List.map_cons]

/-- Brackets go no deeper than `depth`, and numbers are integers. -/
inductive Fits : ℕ → Value → Prop where
  | null {depth : ℕ} : Fits depth .null
  | bool {depth : ℕ} (b : Bool) : Fits depth (.bool b)
  | number {depth : ℕ} (n : Int) : Fits depth (.number (decimal n))
  | string {depth : ℕ} (s : Str) : Fits depth (.string s)
  | array {depth : ℕ} {items : List Value} : (∀ v ∈ items, Fits depth v) → Fits (depth + 1) (.array items)
  | object {depth : ℕ} {fields : List (Str × Value)} : (∀ f ∈ fields, Fits depth f.2) → Fits (depth + 1) (.object fields)

theorem decimal_head (n : Int) : ∃ c t, decimal n = c :: t ∧ (c = '-' ∨ c.isDigit = true) := by
  unfold decimal
  split
  · exact ⟨_, _, rfl, Or.inl rfl⟩
  · obtain ⟨c, t, digits⟩ := List.exists_cons_of_ne_nil (Nat.toDigits_ne_nil (n := n.natAbs) (b := 10))
    exact ⟨c, t, digits, Or.inr (Nat.isDigit_of_mem_toDigits (by decide) le_rfl (digits ▸ List.mem_cons_self))⟩

theorem numeral_ne {c d : Char} (first : c = '-' ∨ c.isDigit = true) (other : d ≠ '-' ∧ d.isDigit = false) : c ≠ d := by
  rintro rfl
  rcases first with minus | digit
  · exact other.1 minus
  · rw [other.2] at digit
    cases digit

theorem numeral_blank {c : Char} (first : c = '-' ∨ c.isDigit = true) : isBlank c = false := by
  simp only [isBlank, Bool.or_eq_false_iff, decide_eq_false_iff_not]
  exact ⟨⟨⟨numeral_ne first (by decide), numeral_ne first (by decide)⟩, numeral_ne first (by decide)⟩, numeral_ne first (by decide)⟩

section Values
variable {rest : Str}

theorem value_null (depth : ℕ) : value depth (print .null ++ rest) = some (.null, rest) := by
  cases depth <;> rfl

theorem value_bool (depth : ℕ) (b : Bool) : value depth (print (.bool b) ++ rest) = some (.bool b, rest) := by
  cases depth <;> cases b <;> rfl

theorem value_string (depth : ℕ) (s : Str) : value depth (print (.string s) ++ rest) = some (.string s, rest) := by
  have read := unquote_quoted s rest
  rw [print, quote, List.cons_append, List.append_assoc, value.eq_def, skip_cons rfl]
  dsimp only
  rw [if_pos rfl, List.singleton_append, read]
  rfl

theorem value_number (depth : ℕ) (ends : Ends rest) (n : Int) :
    value depth (print (.number (decimal n)) ++ rest) = some (.number (decimal n), rest) := by
  obtain ⟨c, t, digits, first⟩ := decimal_head n
  have read := number_decimal ends n
  rw [digits, List.cons_append] at read
  rw [print, digits, List.cons_append, value.eq_def, skip_cons (numeral_blank first)]
  dsimp only
  rw [if_neg (numeral_ne first (by decide)), if_neg (numeral_ne first (by decide)), if_neg (numeral_ne first (by decide)),
    if_neg (numeral_ne first (by decide)), if_neg (numeral_ne first (by decide)), if_neg (numeral_ne first (by decide)), read]
  rfl

theorem field_printed {value : Str → Option (Value × Str)} {f : Str × Value} {t : Str}
    (read : value (print f.2 ++ t) = some (f.2, t)) : field value ((quote f.1 ++ ':' :: print f.2) ++ t) = some (f, t) := by
  have name := unquote_quoted f.1 (':' :: (print f.2 ++ t))
  have text : (quote f.1 ++ ':' :: print f.2) ++ t = '"' :: (f.1.flatMap escape ++ '"' :: ':' :: (print f.2 ++ t)) := by simp [quote]
  rw [text, field, skip_cons rfl]
  dsimp only
  rw [if_pos rfl, name, Option.bind_some, skip_cons rfl]
  dsimp only
  rw [if_pos rfl, read]
  rfl

/-- A value starts with what neither is blank nor closes a bracket. -/
theorem Fits.print_head {depth : ℕ} {v : Value} (fits : Fits depth v) :
    ∃ c t, print v = c :: t ∧ isBlank c = false ∧ c ≠ ']' := by
  cases fits with
  | null => exact ⟨_, _, rfl, rfl, by decide⟩
  | bool b => cases b <;> exact ⟨_, _, rfl, rfl, by decide⟩
  | number n =>
    obtain ⟨c, t, digits, first⟩ := decimal_head n
    exact ⟨c, t, digits, numeral_blank first, numeral_ne first (by decide)⟩
  | string s => exact ⟨_, _, rfl, rfl, by decide⟩
  | array _ => exact ⟨_, _, rfl, rfl, by decide⟩
  | object _ => exact ⟨_, _, rfl, rfl, by decide⟩

theorem ends_within {close c : Char} (bracket : close = ']' ∨ close = '\x7d') (stop : c = ',' ∨ c = close) (t : Str) : Ends (c :: t) := by
  intro d first
  obtain rfl : c = d := Option.some.inj first
  rcases stop with comma | rfl
  · exact Or.inl comma
  · exact Or.inr bracket

/-- What was written is read back, wherever it ends. -/
theorem value_print {depth : ℕ} {v : Value} (fits : Fits depth v) (ends : Ends rest) :
    value depth (print v ++ rest) = some (v, rest) := by
  induction fits generalizing rest with
  | null => exact value_null _
  | bool b => exact value_bool _ b
  | number n => exact value_number _ ends n
  | string s => exact value_string _ s
  | @array depth items fits ih =>
    have each : ∀ v ∈ items, ∀ c t, c = ',' ∨ c = ']' → value depth (print v ++ c :: t) = some (v, c :: t) :=
      fun v member c t stop => ih v member (ends_within (Or.inl rfl) stop t)
    have read := enclosed_joined rfl (by decide) each (fun v member => (fits v member).print_head) rest
    rw [print, printItems_eq, List.cons_append, List.append_assoc, List.singleton_append, value.eq_def, skip_cons rfl]
    dsimp only
    rw [if_neg (by decide), if_pos rfl, read]
    rfl
  | @object depth fields fits ih =>
    have each : ∀ f ∈ fields, ∀ c t, c = ',' ∨ c = '\x7d' →
        field (value depth) ((quote f.1 ++ ':' :: print f.2) ++ c :: t) = some (f, c :: t) :=
      fun f member c t stop => field_printed (ih f member (ends_within (Or.inr rfl) stop t))
    have read := enclosed_joined rfl (by decide) each (fun f _ => ⟨_, _, rfl, rfl, by decide⟩) rest
    rw [print, printFields_eq, List.cons_append, List.append_assoc, List.singleton_append, value.eq_def, skip_cons rfl]
    dsimp only
    rw [if_neg (by decide), if_neg (by decide), if_pos rfl, read]
    rfl

theorem parse_print {v : Value} (fits : Fits maxNestingDepth v) : parse (print v) = some v := by
  have read := value_print fits (nofun : Ends [])
  rw [List.append_nil] at read
  rw [parse, read]
  rfl

end Values

/-! ### The runes of what was written -/

/-- There are no control characters, so no line ends. -/
def Plain (text : Str) : Prop := ∀ c ∈ text, 0x20 ≤ c.toNat

theorem Plain.append {s t : Str} (first : Plain s) (second : Plain t) : Plain (s ++ t) := fun c member =>
  (List.mem_append.mp member).elim (first c) (second c)

theorem Plain.cons {c : Char} {t : Str} (here : 0x20 ≤ c.toNat) (rest : Plain t) : Plain (c :: t) :=
  List.forall_mem_cons.mpr ⟨here, rest⟩

theorem plain_joined {l : List Str} (plain : ∀ s ∈ l, Plain s) : Plain (List.intercalate [','] l) := by
  induction l with
  | nil => exact nofun
  | cons s l ih =>
    obtain ⟨here, plain⟩ := List.forall_mem_cons.mp plain
    cases l with
    | nil => exact (joined_single s).symm ▸ here
    | cons s' l =>
      rw [joined_cons]
      exact here.append ((ih plain).cons (by decide))

theorem plain_digit (n : ℕ) : 0x20 ≤ (Nat.digitChar (n % 16)).toNat := by
  have each : ∀ k < 16, 0x20 ≤ (Nat.digitChar k).toNat := by decide
  exact each _ (Nat.mod_lt _ (by decide))

theorem plain_escape (c : Char) : Plain (escape c) := by
  unfold escape
  split_ifs with special back feed line carriage tab coded
  · rcases special with rfl | rfl <;> exact Plain.cons (by decide) (Plain.cons (by decide) nofun)
  iterate 5 exact Plain.cons (by decide) (Plain.cons (by decide) nofun)
  · exact .cons (by decide) (.cons (by decide) (.cons (plain_digit _) (.cons (plain_digit _) (.cons (plain_digit _) (.cons (plain_digit _) nofun)))))
  · exact .cons (Nat.le_of_not_lt fun control => coded (Or.inl control)) nofun

theorem plain_quote (s : Str) : Plain (quote s) := by
  refine .cons (by decide) (.append ?_ (.cons (by decide) nofun))
  intro d member
  obtain ⟨c, -, here⟩ := List.mem_flatMap.mp member
  exact plain_escape c d here

theorem plain_decimal (n : Int) : Plain (decimal n) := by
  have digits : Plain (Nat.toDigits 10 n.natAbs) := fun c member => by
    have digit : c.isDigit = true := Nat.isDigit_of_mem_toDigits (by decide) le_rfl member
    simp only [Char.isDigit, Bool.and_eq_true, decide_eq_true_eq] at digit
    have low : 48 ≤ c.toNat := digit.1
    omega
  unfold decimal
  split
  · exact digits.cons (by decide)
  · exact digits

theorem Fits.plain {depth : ℕ} {v : Value} (fits : Fits depth v) : Plain (print v) := by
  induction fits with
  | null => exact List.forall_iff_forall_mem.mp (by decide)
  | bool b => cases b <;> exact List.forall_iff_forall_mem.mp (by decide)
  | number n => exact plain_decimal n
  | string s => exact plain_quote s
  | array _ ih =>
    rw [print, printItems_eq]
    exact .cons (by decide) (.append (plain_joined (List.forall_mem_map.mpr ih)) (.cons (by decide) nofun))
  | @object _ fields _ ih =>
    have each : ∀ f ∈ fields, Plain (quote f.1 ++ ':' :: print f.2) := fun f member =>
      (plain_quote f.1).append ((ih f member).cons (by decide))
    rw [print, printFields_eq]
    exact .cons (by decide) (.append (plain_joined (List.forall_mem_map.mpr each)) (.cons (by decide) nofun))

theorem escape_some (c : Char) : 1 ≤ byteLen (escape c) := by
  refine byteLen_pos ?_
  unfold escape
  split_ifs <;> exact List.cons_ne_nil _ _

theorem length_le_quote (s : Str) : s.length ≤ byteLen (quote s) := by
  have inner : s.length ≤ byteLen (s.flatMap escape) := by
    induction s with
    | nil => exact Nat.zero_le _
    | cons c s ih =>
      rw [List.flatMap_cons, byteLen_append, List.length_cons]
      have := escape_some c
      omega
  rw [quote, byteLen_cons, byteLen_append]
  omega

theorem sum_le_joined (l : List Str) : (l.map byteLen).sum ≤ byteLen (List.intercalate [','] l) := by
  induction l with
  | nil => exact Nat.zero_le _
  | cons s l ih =>
    cases l with
    | nil => exact (congrArg byteLen (joined_single s)).ge
    | cons s' l =>
      rw [List.map_cons, List.sum_cons, joined_cons, byteLen_append, byteLen_cons]
      omega

/-- The values of an object take up their part of its text. -/
theorem sum_le_object (fields : List (Str × Value)) : (fields.map fun f => byteLen (print f.2)).sum ≤ byteLen (print (.object fields)) := by
  have each : (fields.map fun f => byteLen (print f.2)).sum ≤ ((fields.map fun f => quote f.1 ++ ':' :: print f.2).map byteLen).sum := by
    rw [List.map_map]
    refine List.sum_le_sum fun f _ => ?_
    rw [Function.comp_apply, byteLen_append, byteLen_cons]
    omega
  have joined := sum_le_joined (fields.map fun f => quote f.1 ++ ':' :: print f.2)
  rw [print, printFields_eq, byteLen_cons, byteLen_append]
  omega

end Go.json
