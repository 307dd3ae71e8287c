import Mathlib.Data.List.Infix

/-! Codes whose words can be told apart where they stand: no word begins another one, and the letter a word begins with
stands nowhere else in a word. A coded text is then part of another exactly if the text is. -/
namespace NatsExplorer.PrefixCode

structure Code (A B : Type*) where
  word : A → List B
  /-- letters that words begin with -/
  First : B → Prop
  head (a : A) : ∃ b rest, word a = b :: rest ∧ First b ∧ ∀ x ∈ rest, ¬ First x
  free (a b : A) : word a <+: word b → a = b

namespace Code
variable {A B : Type*} (code : Code A B) {s t : List A} {p r : List B} {b : B}

def encode (s : List A) : List B := s.flatMap code.word

/-- What is coded is the beginning exactly if it begins the text. -/
theorem encode_prefix : code.encode s <+: code.encode t ↔ s <+: t := by
  constructor
  · rintro ⟨r, same⟩
    induction s generalizing t with
    | nil => exact List.nil_prefix
    | cons a s ih =>
      obtain ⟨x, own, word, -, -⟩ := code.head a
      rw [encode, List.flatMap_cons, List.append_assoc] at same
      cases t with
      | nil =>
        rw [word] at same
        cases same
      | cons b t =>
        rw [encode, List.flatMap_cons] at same
        have equal : a = b := by
          rcases List.prefix_or_prefix_of_prefix ⟨_, same⟩ (List.prefix_append (code.word b) _) with first | first
          · exact code.free a b first
          · exact (code.free b a first).symm
        subst equal
        exact (List.prefix_cons_inj a).mpr (ih (List.append_cancel_left same))
  · rintro ⟨r, rfl⟩
    rw [encode, encode, List.flatMap_append]
    exact List.prefix_append _ _

/-- A letter that words begin with stands where one begins. -/
theorem encode_split (first : code.First b) (split : code.encode s = p ++ b :: r) :
    ∃ before after, s = before ++ after ∧ code.encode before = p ∧ code.encode after = b :: r := by
  induction s generalizing p with
  | nil => cases p <;> cases split
  | cons a s ih =>
    cases p with
    | nil => exact ⟨[], a :: s, rfl, rfl, split⟩
    | cons x p =>
      obtain ⟨y, own, word, -, others⟩ := code.head a
      rw [encode, List.flatMap_cons, word] at split
      obtain ⟨rfl, whole⟩ := List.cons.inj split
      rcases List.append_eq_append_iff.mp whole with ⟨q, rfl, later⟩ | ⟨q, rfl, inside⟩
      · obtain ⟨before, after, rfl, begun, rest⟩ := ih later
        refine ⟨a :: before, after, rfl, ?_, rest⟩
        rw [encode, List.flatMap_cons, ← encode, begun, word]
        rfl
      · cases q with
        | nil =>
          rw [List.append_nil] at word
          refine ⟨[a], s, rfl, ?_, inside.symm⟩
          rw [encode, List.flatMap_singleton, word]
        | cons z q =>
          obtain ⟨rfl, -⟩ := List.cons.inj inside
          exact absurd first (others b (List.mem_append_right _ List.mem_cons_self))

/-- A coded text is part of another exactly if the text is. -/
theorem encode_infix : code.encode s <:+: code.encode t ↔ s <:+: t := by
  constructor
  · rintro ⟨p, r, whole⟩
    cases s with
    | nil => exact List.nil_infix
    | cons a s =>
      obtain ⟨b, own, word, first, -⟩ := code.head a
      have begun : code.encode (a :: s) = b :: (own ++ code.encode s) := by
        rw [encode, List.flatMap_cons, word]
        rfl
      rw [begun, List.append_assoc, List.cons_append] at whole
      obtain ⟨before, after, rfl, -, rest⟩ := code.encode_split first whole.symm
      have start : code.encode (a :: s) <+: code.encode after := by
        rw [begun, rest]
        exact ⟨r, rfl⟩
      exact (code.encode_prefix.mp start).isInfix.trans (List.suffix_append _ _).isInfix
  · rintro ⟨p, r, rfl⟩
    refine ⟨code.encode p, code.encode r, ?_⟩
    rw [encode, encode, encode, encode, List.flatMap_append, List.flatMap_append]

end Code
end NatsExplorer.PrefixCode
