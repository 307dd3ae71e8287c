import NatsExplorer.Subject

/-! The two matchers of the browser (`client/src/lib/subjectMatch.ts` and
`client/src/lib/decoders.ts`) beside the server's. -/
namespace NatsExplorer.Client
open Go

/-- `subjectMatches` of `subjectMatch.ts`: the loop of the server, behind a guard. -/
def subjectMatches (pattern subject : Str) : Bool :=
  if pattern = [] ∨ subject = [] then false else matchSubject pattern subject

namespace Decoders

def matchTokens : List Str → List Str → Bool
  | [], tokens => tokens = []
  | p :: pattern, tokens =>
    if p = ['>'] then tokens ≠ []
    else
      match tokens with
      | [] => false
      | t :: tokens => (p = ['*'] || p = t) && matchTokens pattern tokens

/-- `subjectMatches` of `decoders.ts`, which finds the rule for a subject. -/
def subjectMatches (pattern subject : Str) : Bool :=
  matchTokens (pattern.splitOn '.') (subject.splitOn '.')

end Decoders

/-- A token of a pattern that stands for one token of a subject. -/
def Stands (p t : Str) : Prop := p ≠ ['>'] ∧ (p = ['*'] ∨ p = t)

/-- The relation of NATS between the tokens of a pattern and those of a subject. -/
inductive Covers : List Str → List Str → Prop where
  | nil : Covers [] []
  | one {p t pattern tokens} : Stands p t → Covers pattern tokens → Covers (p :: pattern) (t :: tokens)
  | rest {t tokens} : Covers [['>']] (t :: tokens)

/-- Tokens that are not empty, and `>` at most as the last. -/
def WellFormed (pattern : Str) : Prop :=
  [] ∉ pattern.splitOn '.' ∧ ['>'] ∉ (pattern.splitOn '.').dropLast

/-- What stands before a `>` that is not the last token covers the first tokens of the
subject, and the subject goes on. -/
def Misplaced (pattern tokens : List Str) : Prop :=
  ∃ first later, pattern = first ++ ['>'] :: later ∧ later ≠ [] ∧
    ∃ start t rest, tokens = start ++ t :: rest ∧ List.Forall₂ Stands first start

/-- The three matchers agree, and with NATS where the pattern is one of its patterns. -/
structure OneAnswer (pattern subject : Str) : Prop where
  browser : subjectMatches pattern subject = matchSubject pattern subject
  decoder : Decoders.subjectMatches pattern subject = matchSubject pattern subject
  nats : WellFormed pattern →
    (matchSubject pattern subject = true ↔ Covers (pattern.splitOn '.') (subject.splitOn '.'))

section Tokens
variable {pattern tokens : List Str}

theorem matchTokens_iff : matchTokens pattern tokens = true ↔ Covers pattern tokens := by
  induction pattern generalizing tokens with
  | nil =>
    constructor
    · intro found
      rw [show tokens = [] from of_decide_eq_true found]
      exact .nil
    · rintro ⟨⟩
      rfl
  | cons p pattern ih =>
    unfold NatsExplorer.matchTokens
    split_ifs with last
    · subst last
      constructor
      · intro found
        simp only [Bool.and_eq_true, decide_eq_true_eq] at found
        obtain ⟨rfl, some⟩ := found
        obtain ⟨t, tokens, rfl⟩ := List.exists_cons_of_ne_nil some
        exact .rest
      · intro covers
        cases covers with
        | one stands => exact absurd rfl stands.1
        | rest => rfl
    · cases tokens with
      | nil => exact iff_of_false Bool.false_ne_true nofun
      | cons t tokens =>
        simp only [Bool.and_eq_true, Bool.or_eq_true, decide_eq_true_eq, ih]
        constructor
        · rintro ⟨stands, covers⟩
          exact .one ⟨last, stands⟩ covers
        · intro covers
          cases covers with
          | one stands covers => exact ⟨stands.2, covers⟩
          | rest => exact absurd rfl last

theorem misplaced_cons {p t : Str} (other : p ≠ ['>']) :
    Misplaced (p :: pattern) (t :: tokens) ↔ Stands p t ∧ Misplaced pattern tokens := by
  constructor
  · rintro ⟨first, later, split, more, start, next, rest, parts, stand⟩
    cases stand with
    | nil => exact absurd (List.cons.inj split).1 other
    | cons stands stand =>
      obtain ⟨rfl, rfl⟩ := List.cons.inj split
      obtain ⟨rfl, rfl⟩ := List.cons.inj parts
      exact ⟨stands, _, later, rfl, more, _, next, rest, rfl, stand⟩
  · rintro ⟨stands, first, later, rfl, more, start, next, rest, rfl, stand⟩
    exact ⟨p :: first, later, rfl, more, t :: start, next, rest, rfl, .cons stands stand⟩

/-- The decoder rules answer yes at a misplaced `>` as well. -/
theorem Decoders.matchTokens_iff :
    Decoders.matchTokens pattern tokens = true ↔ Covers pattern tokens ∨ Misplaced pattern tokens := by
  induction pattern generalizing tokens with
  | nil =>
    have never : ¬ Misplaced [] tokens := by
      rintro ⟨first, later, split, _⟩
      exact List.append_ne_nil_of_right_ne_nil _ (List.cons_ne_nil _ _) split.symm
    rw [or_iff_left never, ← NatsExplorer.Client.matchTokens_iff]
    rfl
  | cons p pattern ih =>
    unfold Decoders.matchTokens
    split_ifs with last
    · subst last
      rw [decide_eq_true_iff]
      constructor
      · intro some
        obtain ⟨t, tokens, rfl⟩ := List.exists_cons_of_ne_nil some
        by_cases ends : pattern = []
        · subst ends
          exact Or.inl .rest
        · exact Or.inr ⟨[], pattern, rfl, ends, [], t, tokens, rfl, .nil⟩
      · rintro (covers | ⟨first, later, _, _, start, t, rest, rfl, _⟩)
        · cases covers <;> exact List.cons_ne_nil _ _
        · exact List.append_ne_nil_of_right_ne_nil _ (List.cons_ne_nil _ _)
    · cases tokens with
      | nil =>
        refine iff_of_false Bool.false_ne_true ?_
        rintro (covers | ⟨first, later, _, _, start, t, rest, none, _⟩)
        · cases covers
        · exact List.append_ne_nil_of_right_ne_nil _ (List.cons_ne_nil _ _) none.symm
      | cons t tokens =>
        have covers_cons : Covers (p :: pattern) (t :: tokens) ↔ Stands p t ∧ Covers pattern tokens := by
          constructor
          · intro covers
            cases covers with
            | one stands covers => exact ⟨stands, covers⟩
            | rest => exact absurd rfl last
          · exact fun ⟨stands, covers⟩ => .one stands covers
        have stands : Stands p t ↔ p = ['*'] ∨ p = t := and_iff_right last
        simp only [Bool.and_eq_true, Bool.or_eq_true, decide_eq_true_eq, ih, misplaced_cons last, covers_cons,
          stands, and_or_left]

/-- A `>` that is not the last token covers nothing. -/
theorem Covers.not_misplaced (covers : Covers pattern tokens) : ¬ Misplaced pattern tokens := by
  induction covers with
  | nil =>
    rintro ⟨first, later, split, _⟩
    exact List.append_ne_nil_of_right_ne_nil _ (List.cons_ne_nil _ _) split.symm
  | one stands _ ih => exact fun misplaced => ih ((misplaced_cons stands.1).mp misplaced).2
  | rest =>
    rintro ⟨first, later, split, more, _⟩
    cases first with
    | nil => exact more (List.cons.inj split).2.symm
    | cons p first => exact List.append_ne_nil_of_right_ne_nil _ (List.cons_ne_nil _ _) (List.cons.inj split).2.symm

theorem Decoders.matchTokens_same :
    Decoders.matchTokens pattern tokens = NatsExplorer.matchTokens pattern tokens ↔ ¬ Misplaced pattern tokens := by
  rw [Bool.eq_iff_iff, Decoders.matchTokens_iff, NatsExplorer.Client.matchTokens_iff]
  constructor
  · intro same misplaced
    exact (same.mp (Or.inr misplaced)).not_misplaced misplaced
  · exact fun never => or_iff_left never

end Tokens

section Strings
variable {pattern subject : Str}

/-- A pattern of one token is that token. -/
theorem splitOn_single {token : Str} (split : pattern.splitOn '.' = [token]) : pattern = token := by
  have joined : ['.'].intercalate (pattern.splitOn '.') = pattern := List.intercalate_splitOn '.'
  rw [← joined, split]
  exact List.append_nil _

/-- On an empty subject the server's matcher answers yes to three patterns. -/
theorem matchSubject_nil : matchSubject pattern [] = true ↔ pattern ∈ [[], ['*'], ['>']] := by
  constructor
  · intro found
    have covers : Covers (pattern.splitOn '.') [[]] := matchTokens_iff.mp found
    generalize split : pattern.splitOn '.' = tokens at covers
    cases covers with
    | one stands none =>
      cases none
      rw [splitOn_single split]
      rcases stands.2 with any | same
      · rw [any]
        exact List.mem_cons_of_mem _ List.mem_cons_self
      · rw [same]
        exact List.mem_cons_self
    | rest =>
      rw [splitOn_single split]
      exact List.mem_cons_of_mem _ (List.mem_cons_of_mem _ List.mem_cons_self)
  · intro one
    simp only [List.mem_cons, List.not_mem_nil, or_false] at one
    rcases one with rfl | rfl | rfl <;> rfl

/-- An empty pattern matches the empty subject alone. -/
theorem nil_matchSubject (some : subject ≠ []) : matchSubject [] subject = false := by
  by_contra found
  have covers : Covers [[]] (subject.splitOn '.') := matchTokens_iff.mp (Bool.not_eq_false _ ▸ found)
  generalize split : subject.splitOn '.' = tokens at covers
  cases covers with
  | one stands none =>
    cases none
    rcases stands.2 with any | same
    · cases any
    · exact some (same ▸ splitOn_single split)

theorem subjectMatches_same :
    subjectMatches pattern subject = matchSubject pattern subject ↔
      (subject = [] → pattern ∉ [[], ['*'], ['>']]) := by
  unfold subjectMatches
  by_cases none : subject = []
  · subst none
    rw [if_pos (Or.inr rfl), ← matchSubject_nil, Bool.not_eq_true]
    exact ⟨fun same _ => same.symm, fun never => (never rfl).symm⟩
  · refine iff_of_true ?_ fun empty => absurd empty none
    split
    · rename_i guard
      rcases guard with rfl | empty
      · exact (nil_matchSubject none).symm
      · exact absurd empty none
    · rfl

/-- The three matchers give one answer, that of NATS, unless the subject is empty and the
pattern covers an empty token, or a `>` stands before the end of the pattern. -/
theorem oneAnswer_iff (pattern subject : Str) : OneAnswer pattern subject ↔
    (subject = [] → pattern ∉ [[], ['*'], ['>']]) ∧
      ¬ Misplaced (pattern.splitOn '.') (subject.splitOn '.') := by
  constructor
  · intro one
    exact ⟨subjectMatches_same.mp one.browser, Decoders.matchTokens_same.mp one.decoder⟩
  · rintro ⟨some, placed⟩
    exact {
      browser := subjectMatches_same.mpr some
      decoder := Decoders.matchTokens_same.mpr placed
      nats := fun _ => matchTokens_iff }

/-- `a.>.b` is taken for a pattern that covers `a.x`. -/
theorem decoder_drifts : ¬ ∀ pattern subject : Str, OneAnswer pattern subject := by
  intro claim
  exact Bool.noConfusion (claim "a.>.b".toList "a.x".toList).decoder

end Strings
end NatsExplorer.Client
