import NatsExplorer.Go.Runtime
import Mathlib.Data.List.DropRight

/-! The part of `strings`, `unicode` and `strconv` the server uses, on runes.
The Unicode tables and the JSON recognizer stay parameters. -/
namespace Go

class Tables where
  /-- `unicode.ToLower` -/
  toLower : Char → Char
  /-- `unicode.IsSpace` -/
  isSpace : Char → Bool
  /-- `json.Valid` -/
  jsonValid : Str → Bool

/-- `len` of a string: its UTF-8 bytes. -/
def byteLen (s : Str) : Nat := (s.map Char.utf8Size).sum

theorem byteLen_cons (c : Char) (s : Str) : byteLen (c :: s) = c.utf8Size + byteLen s := by
  simp [byteLen]

theorem byteLen_append (a b : Str) : byteLen (a ++ b) = byteLen a + byteLen b := by
  simp [byteLen]

theorem byteLen_pos {s : Str} (some : s ≠ []) : 0 < byteLen s := by
  cases s with
  | nil => contradiction
  | cons c s =>
    rw [byteLen_cons]
    exact Nat.add_pos_left (Char.utf8Size_pos c) _

namespace strings

def hasPrefix (s p : Str) : Bool := decide (p <+: s)
def hasSuffix (s p : Str) : Bool := decide (p <:+ s)
def contains (s sub : Str) : Bool := decide (sub <:+: s)
def trimSuffix (s suffix : Str) : Str :=
  if hasSuffix s suffix then s.take (s.length - suffix.length) else s

def cutPrefix (s p : Str) : Option Str := if hasPrefix s p then some (s.drop p.length) else none
def cutSuffix (s p : Str) : Option Str := if hasSuffix s p then some (s.take (s.length - p.length)) else none
def trimPrefix (s p : Str) : Str := (cutPrefix s p).getD s

theorem cutPrefix_some {s p rest : Str} (cut : cutPrefix s p = some rest) : s = p ++ rest := by
  unfold cutPrefix at cut
  split_ifs at cut with starts
  obtain ⟨rest', rfl⟩ := of_decide_eq_true starts
  rw [List.drop_left] at cut
  rw [Option.some.inj cut]

theorem cutSuffix_some {s p rest : Str} (cut : cutSuffix s p = some rest) : s = rest ++ p := by
  unfold cutSuffix at cut
  split_ifs at cut with ends
  obtain ⟨rest', rfl⟩ := of_decide_eq_true ends
  rw [List.length_append, Nat.add_sub_cancel, List.take_left] at cut
  rw [Option.some.inj cut]

theorem contains_mono {s t sub : Str} (sub_s : contains s sub = true) (pre : s <+: t) :
    contains t sub = true := by
  simp only [contains, decide_eq_true_eq] at *
  exact sub_s.trans pre.isInfix

variable [Tables]

def toLower (s : Str) : Str := s.map Tables.toLower
def trimSpace (s : Str) : Str :=
  ((s.dropWhile Tables.isSpace).reverse.dropWhile Tables.isSpace).reverse

theorem trimSpace_trimSpace (s : Str) : trimSpace (trimSpace s) = trimSpace s := by
  let t := s.dropWhile Tables.isSpace
  have starts : t.rdropWhile Tables.isSpace <+: t := List.rdropWhile_prefix ..
  have front : (t.rdropWhile Tables.isSpace).dropWhile Tables.isSpace = t.rdropWhile Tables.isSpace := by
    rw [List.dropWhile_eq_self_iff]
    intro some
    have first := List.dropWhile_eq_self_iff.mp (List.dropWhile_idempotent Tables.isSpace s)
    have same := starts.getElem some
    rw [same]
    exact first (some.trans_le starts.length_le)
  change ((t.rdropWhile Tables.isSpace).dropWhile Tables.isSpace).rdropWhile Tables.isSpace = t.rdropWhile Tables.isSpace
  rw [front]
  exact List.rdropWhile_idempotent ..

def fields (s : Str) : List Str := (s.splitOnP Tables.isSpace).filter (· ≠ [])

theorem toLower_prefix {s t : Str} (pre : s <+: t) : toLower s <+: toLower t :=
  pre.map _

end strings

/-- ASCII only, as the case folding of SQLite and of `containsFold`. -/
def asciiLower (c : Char) : Char :=
  if 'A' ≤ c ∧ c ≤ 'Z' then Char.ofNat (c.toNat + 32) else c

/-- Tables right on ASCII, for concrete runs. -/
@[reducible] def asciiTables : Tables where
  toLower := asciiLower
  isSpace c := c = ' ' || c = '\t' || c = '\n' || c = '\r'
  jsonValid _ := true

end Go
