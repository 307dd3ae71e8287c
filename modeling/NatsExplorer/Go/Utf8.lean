import NatsExplorer.Go.Text
import NatsExplorer.Library.PrefixCode
import Mathlib.Data.List.Induction

/-! UTF-8 as a code of runes by bytes, and the folding of ASCII letters in it. -/
namespace Go.utf8
open NatsExplorer.PrefixCode

/-- The first byte of a rune is not one that continues a rune, and tells how many follow. -/
def code : Code Char UInt8 where
  word := String.utf8EncodeChar
  First := UInt8.IsUTF8FirstByte
  head c := by
    have letters (i : ℕ) (within : i < (String.utf8EncodeChar c).length) :
        (String.utf8EncodeChar c)[i].IsUTF8FirstByte ↔ i = 0 := UInt8.isUTF8FirstByte_getElem_utf8EncodeChar
    have some := String.utf8EncodeChar_ne_nil (c := c)
    generalize String.utf8EncodeChar c = word at letters some
    cases word with
    | nil => exact absurd rfl some
    | cons b rest =>
      refine ⟨b, rest, rfl, (letters 0 (Nat.succ_pos _)).mpr rfl, fun x there first => ?_⟩
      obtain ⟨i, within, rfl⟩ := List.getElem_of_mem there
      exact absurd ((letters (i + 1) (Nat.succ_lt_succ within)).mp first) (Nat.succ_ne_zero i)
  free a b begins := by
    obtain ⟨rest, same⟩ := begins
    have own := ByteArray.utf8DecodeChar?_utf8EncodeChar_append (c := b) (b := [].toByteArray)
    have other := ByteArray.utf8DecodeChar?_utf8EncodeChar_append (c := a) (b := rest.toByteArray)
    rw [← List.toByteArray_append, same] at other
    rw [← List.toByteArray_append, List.append_nil] at own
    exact Option.some.inj (other.symm.trans own)

/-- `c += 'a' - 'A'` -/
def lowerByte (c : UInt8) : UInt8 := if 0x41 ≤ c ∧ c ≤ 0x5A then c + 0x20 else c

theorem lowerByte_high {c : UInt8} (high : 0x80 ≤ c) : lowerByte c = c := by
  refine if_neg fun letter => ?_
  have := UInt8.le_iff_toNat_le.mp high
  have := UInt8.le_iff_toNat_le.mp letter.2
  simp at *
  omega

theorem high_or {c d : UInt8} (high : 0x80 ≤ d) : 0x80 ≤ c ||| d := by
  rw [UInt8.le_iff_toNat_le] at high ⊢
  rw [UInt8.toNat_or]
  exact high.trans Nat.right_le_or

/-- Every byte of a rune that is not ASCII has its highest bit set. -/
theorem word_high {c : Char} (long : c.utf8Size ≠ 1) : ∀ b ∈ String.utf8EncodeChar c, 0x80 ≤ b := by
  rcases c.utf8Size_eq with one | two | three | four
  · exact absurd one long
  · rw [String.utf8EncodeChar_eq_cons_cons two]
    simp only [List.forall_mem_cons, List.not_mem_nil, false_imp_iff, implies_true, and_true]
    exact ⟨high_or (by decide), high_or (by decide)⟩
  · rw [String.utf8EncodeChar_eq_cons_cons_cons three]
    simp only [List.forall_mem_cons, List.not_mem_nil, false_imp_iff, implies_true, and_true]
    exact ⟨high_or (by decide), high_or (by decide), high_or (by decide)⟩
  · rw [String.utf8EncodeChar_eq_cons_cons_cons_cons four]
    simp only [List.forall_mem_cons, List.not_mem_nil, false_imp_iff, implies_true, and_true]
    exact ⟨high_or (by decide), high_or (by decide), high_or (by decide), high_or (by decide)⟩

theorem utf8Size_eq_one {c : Char} : c.utf8Size = 1 ↔ c.toNat < 128 := by
  have value : c.val ≤ 0x7f ↔ c.toNat < 128 := by
    rw [UInt32.le_iff_toNat_le]
    exact Nat.lt_succ_iff.symm
  rw [← value, Char.utf8Size]
  split
  · next small => exact iff_of_true rfl small
  · next large =>
    refine iff_of_false ?_ large
    split
    · decide
    · split <;> decide

/-- Folding the bytes folds the runes. -/
theorem map_lowerByte_char (c : Char) : (String.utf8EncodeChar c).map lowerByte = String.utf8EncodeChar (asciiLower c) := by
  by_cases short : c.utf8Size = 1
  · have ascii : ∀ n < 128, (String.utf8EncodeChar (Char.ofNat n)).map lowerByte = String.utf8EncodeChar (asciiLower (Char.ofNat n)) := by
      decide
    have here := ascii c.toNat (utf8Size_eq_one.mp short)
    rwa [Char.ofNat_toNat] at here
  · have same : asciiLower c = c := if_neg fun letter => by
      have large : ¬ c.toNat < 128 := fun small => short (utf8Size_eq_one.mpr small)
      have last : c.toNat ≤ 90 := letter.2
      omega
    rw [same]
    exact (List.map_congr_left fun b there => lowerByte_high (word_high short b there)).trans (List.map_id _)

theorem map_lowerByte (s : Str) : (code.encode s).map lowerByte = code.encode (s.map asciiLower) := by
  unfold Code.encode
  rw [List.map_flatMap, List.flatMap_map]
  exact List.flatMap_congr fun c _ => map_lowerByte_char c

end Go.utf8
