import NatsExplorer.Client.SubjectMatch

/-! `covers` (`client/src/lib/subjectMatch.ts`) decides inclusion of patterns: every subject that the narrow
one matches is matched by the wide one. -/
namespace NatsExplorer.Client
open Go

/-- The loop of `covers`, from some token of both on; `narrow` is all of the narrow pattern. -/
def coversTokens (narrow : List Str) : List Str → List Str → Bool
  | [], n => n = [] && ['>'] ∉ narrow
  | w :: wide, n =>
    if w = ['>'] then n ≠ []
    else
      match n with
      | [] => false
      | t :: n =>
        if t = ['>'] then false
        else if w = ['*'] then coversTokens narrow wide n
        else if w ≠ t then false
        else coversTokens narrow wide n

def covers (wide narrow : Str) : Bool :=
  if wide = narrow then true
  else coversTokens (narrow.splitOn '.') (wide.splitOn '.') (narrow.splitOn '.')

structure Overlap where
  wide : Str
  narrow : Str

def overlappingPatterns (patterns : List Str) : List Overlap :=
  patterns.flatMap fun wide => (patterns.filter fun narrow => wide ≠ narrow && covers wide narrow).map (Overlap.mk wide)

/-- A subject as it is published: tokens that are not empty, and none of them a wildcard. -/
def Published (subject : Str) : Prop := ∀ t ∈ subject.splitOn '.', t ≠ [] ∧ t ≠ ['*'] ∧ t ≠ ['>']

/-- Every subject of the narrow pattern is one of the wide pattern. -/
def Includes (wide narrow : Str) : Prop := ∀ s, subjectMatches narrow s = true → subjectMatches wide s = true

section Tokens
variable {narrow wide n tokens : List Str} {w t fresh : Str}

/-- `>` stands at the end or not at all. -/
def Placed (pattern : List Str) : Prop := ['>'] ∉ pattern.dropLast

theorem Placed.tail (placed : Placed (t :: n)) : Placed n := by
  cases n with
  | nil => exact List.not_mem_nil
  | cons u n => exact fun member => placed (List.mem_cons_of_mem _ member)

theorem Placed.last (placed : Placed (['>'] :: n)) : n = [] := by
  cases n with
  | nil => rfl
  | cons u n => exact absurd List.mem_cons_self placed

theorem Covers.ne_nil (covers : Covers (t :: n) tokens) : tokens ≠ [] := by
  cases covers <;> exact List.cons_ne_nil _ _

theorem coversTokens_sound (placed : Placed wide) (found : coversTokens narrow wide n = true) (covers : Covers n tokens) :
    Covers wide tokens := by
  induction wide generalizing n tokens with
  | nil =>
    simp only [coversTokens, Bool.and_eq_true, decide_eq_true_eq] at found
    rwa [← found.1]
  | cons w wide ih =>
    unfold coversTokens at found
    split at found
    · next rest =>
      subst rest
      obtain rfl := placed.last
      obtain ⟨t, n, rfl⟩ := List.exists_cons_of_ne_nil (of_decide_eq_true found)
      obtain ⟨x, tokens, rfl⟩ := List.exists_cons_of_ne_nil covers.ne_nil
      exact .rest
    · next other =>
      cases n with
      | nil => exact absurd found Bool.false_ne_true
      | cons t n =>
        simp only at found
        split at found
        · exact absurd found Bool.false_ne_true
        · next more =>
          cases covers with
          | rest => exact absurd rfl more
          | one stands covers =>
            split at found
            · next any => exact .one ⟨other, Or.inl any⟩ (ih placed.tail found covers)
            · split at found
              · exact absurd found Bool.false_ne_true
              · next same =>
                have same := not_ne_iff.mp same
                exact .one (same ▸ stands) (ih placed.tail found covers)

/-- The token of a subject for a token of a pattern. -/
def pick (fresh t : Str) : Str := if t = ['*'] ∨ t = ['>'] then fresh else t

/-- Tokens that a pattern covers, with `k` for a `>`. -/
def sample (fresh : Str) (k : Nat) : List Str → List Str
  | [] => []
  | t :: n => if t = ['>'] then List.replicate (k + 1) fresh else pick fresh t :: sample fresh k n

theorem stands_pick (other : t ≠ ['>']) : Stands t (pick fresh t) := by
  refine ⟨other, ?_⟩
  unfold pick
  split
  · next wild => exact Or.inl (wild.resolve_right other)
  · exact Or.inr rfl

theorem covers_sample (placed : Placed n) (k : Nat) : Covers n (sample fresh k n) := by
  induction n with
  | nil => exact .nil
  | cons t n ih =>
    unfold sample
    split
    · next rest =>
      subst rest
      obtain rfl := placed.last
      exact .rest
    · next other => exact .one (stands_pick other) (ih placed.tail)

theorem Covers.length_eq (covers : Covers n tokens) (without : ['>'] ∉ n) : tokens.length = n.length := by
  induction covers with
  | nil => rfl
  | one _ _ ih => exact congrArg Nat.succ (ih fun member => without (List.mem_cons_of_mem _ member))
  | rest => exact absurd List.mem_cons_self without

theorem Covers.tail (covers : Covers (w :: wide) (t :: tokens)) (other : w ≠ ['>']) : Stands w t ∧ Covers wide tokens := by
  cases covers with
  | one stands covers => exact ⟨stands, covers⟩
  | rest => exact absurd rfl other

/-- A pattern that the loop does not find covered has a subject that the wide one does not cover: it tells
a literal from another token, and the ends of the patterns by the number of tokens for a `>`. -/
theorem coversTokens_complete (placedWide : Placed wide) (placed : Placed n) (new : fresh ∉ wide)
    (later : ['>'] ∈ narrow → ['>'] ∈ n) (missing : coversTokens narrow wide n = false) :
    ∃ k, ¬ Covers wide (sample fresh k n) := by
  induction wide generalizing n with
  | nil =>
    have some : n ≠ [] := by
      rintro rfl
      simp only [coversTokens, decide_true, Bool.true_and, decide_eq_false_iff_not, not_not] at missing
      exact List.not_mem_nil (later missing)
    obtain ⟨t, n, rfl⟩ := List.exists_cons_of_ne_nil some
    have covered : Covers (t :: n) (sample fresh 0 (t :: n)) := covers_sample placed 0
    refine ⟨0, fun covers => covered.ne_nil ?_⟩
    generalize sample fresh 0 (t :: n) = tokens at covers
    cases covers
    rfl
  | cons w wide ih =>
    unfold coversTokens at missing
    split at missing
    · have none : n = [] := by simpa using missing
      subst none
      exact ⟨0, fun covers => covers.ne_nil rfl⟩
    next other =>
    cases n with
    | nil => exact ⟨0, fun covers => covers.ne_nil rfl⟩
    | cons t n =>
      simp only at missing
      by_cases more : t = ['>']
      · subst more
        obtain rfl := placed.last
        by_cases rest : ['>'] ∈ wide
        · refine ⟨0, fun covers => ?_⟩
          cases wide with
          | nil => contradiction
          | cons u wide => exact (covers.tail other).2.ne_nil rfl
        · refine ⟨wide.length + 1, fun covers => ?_⟩
          have without : ['>'] ∉ w :: wide := fun member => (List.mem_cons.mp member).elim (fun same => other same.symm) rest
          have length := covers.length_eq without
          simp only [sample, if_true, List.length_replicate, List.length_cons] at length
          omega
      · rw [if_neg more] at missing
        have later' : ['>'] ∈ narrow → ['>'] ∈ n := fun member =>
          (List.mem_cons.mp (later member)).resolve_left fun same => more same.symm
        have new' : fresh ∉ wide := fun member => new (List.mem_cons_of_mem _ member)
        have head (k : Nat) : sample fresh k (t :: n) = pick fresh t :: sample fresh k n := if_neg more
        simp only [head]
        split at missing
        · obtain ⟨k, miss⟩ := ih placedWide.tail placed.tail new' later' missing
          exact ⟨k, fun covers => miss (covers.tail other).2⟩
        · next literal =>
          by_cases differ : w = t
          · rw [if_neg (not_not.mpr differ)] at missing
            obtain ⟨k, miss⟩ := ih placedWide.tail placed.tail new' later' missing
            exact ⟨k, fun covers => miss (covers.tail other).2⟩
          · refine ⟨0, fun covers => ?_⟩
            have same := (covers.tail other).1.2.resolve_left literal
            unfold pick at same
            split at same
            · exact new (same ▸ List.mem_cons_self)
            · exact differ same

end Tokens

section Strings
variable {wide narrow subject : Str}

theorem subjectMatches_iff (wellFormed : WellFormed wide) :
    subjectMatches wide subject = true ↔ subject ≠ [] ∧ Covers (wide.splitOn '.') (subject.splitOn '.') := by
  have some : wide ≠ [] := by
    rintro rfl
    exact wellFormed.1 List.mem_cons_self
  unfold subjectMatches
  by_cases empty : subject = []
  · rw [if_pos (Or.inr empty)]
    exact iff_of_false Bool.false_ne_true fun both => both.1 empty
  · rw [if_neg (not_or.mpr ⟨some, empty⟩)]
    exact matchTokens_iff.trans (and_iff_right empty).symm

theorem covers_includes (wellFormedWide : WellFormed wide) (wellFormed : WellFormed narrow) (found : covers wide narrow = true) :
    Includes wide narrow := by
  intro s matched
  unfold covers at found
  split at found
  · next same => rwa [same]
  · obtain ⟨some, covers⟩ := (subjectMatches_iff wellFormed).mp matched
    exact (subjectMatches_iff wellFormedWide).mpr ⟨some, coversTokens_sound wellFormedWide.2 found covers⟩

/-- A token longer than any of a text. -/
def unused (s : Str) : Str := List.replicate (s.length + 2) 'x'

theorem unused_length (s : Str) : (unused s).length = s.length + 2 := List.length_replicate

theorem unused_token (wide : Str) : unused wide ∉ wide.splitOn '.' := by
  intro member
  have long := splitOn_length member
  rw [unused_length] at long
  omega

theorem mem_sample {fresh x : Str} {k : Nat} {n : List Str} (member : x ∈ sample fresh k n) :
    x = fresh ∨ x ∈ n ∧ x ≠ ['*'] ∧ x ≠ ['>'] := by
  induction n with
  | nil => contradiction
  | cons t n ih =>
    unfold sample at member
    split at member
    · exact Or.inl (List.eq_of_mem_replicate member)
    · rcases List.mem_cons.mp member with rfl | later
      · unfold pick
        split
        · exact Or.inl rfl
        · next plain => exact Or.inr ⟨List.mem_cons_self, not_or.mp plain⟩
      · exact (ih later).imp_right fun ⟨listed, plain⟩ => ⟨List.mem_cons_of_mem _ listed, plain⟩

/-- A text of the tokens of a sample splits into them, and is a subject. -/
theorem published_sample (wide : Str) (wellFormed : WellFormed narrow) (k : Nat) :
    ∃ s, s.splitOn '.' = sample (unused wide) k (narrow.splitOn '.') ∧ Published s ∧ s ≠ [] := by
  have plain : ∀ t ∈ sample (unused wide) k (narrow.splitOn '.'), '.' ∉ t ∧ t ≠ [] ∧ t ≠ ['*'] ∧ t ≠ ['>'] := by
    intro t member
    rcases mem_sample member with rfl | ⟨listed, literal⟩
    · have other {c : Char} : unused wide ≠ [c] := fun same => by
        have length := congrArg List.length same
        rw [unused_length] at length
        simp at length
      refine ⟨fun dot => ?_, List.cons_ne_nil _ _, other, other⟩
      exact absurd (List.eq_of_mem_replicate dot) (by decide)
    · exact ⟨splitOn_dotless listed, fun empty => wellFormed.1 (empty ▸ listed), literal⟩
  have some : sample (unused wide) k (narrow.splitOn '.') ≠ [] := by
    have covered : Covers (narrow.splitOn '.') (sample (unused wide) k (narrow.splitOn '.')) := covers_sample wellFormed.2 k
    obtain ⟨t, n, split⟩ := List.exists_cons_of_ne_nil (List.splitOn_ne_nil '.' narrow)
    rw [split] at covered ⊢
    exact covered.ne_nil
  have split := List.splitOn_intercalate '.' (fun t member => (plain t member).1) some
  refine ⟨_, split, fun t member => (plain t (split ▸ member)).2, fun empty => ?_⟩
  rw [empty] at split
  exact (plain [] (split ▸ List.mem_cons_self)).2.1 rfl

theorem covers_of_published (wellFormedWide : WellFormed wide) (wellFormed : WellFormed narrow)
    (includes : ∀ s, Published s → subjectMatches narrow s = true → subjectMatches wide s = true) : covers wide narrow = true := by
  unfold covers
  split
  · rfl
  by_contra missing
  obtain ⟨k, uncovered⟩ := coversTokens_complete wellFormedWide.2 wellFormed.2 (unused_token wide) id (Bool.not_eq_true _ ▸ missing)
  obtain ⟨s, split, published, some⟩ := published_sample wide wellFormed k
  have matched : subjectMatches narrow s = true := by
    rw [subjectMatches_iff wellFormed, split]
    exact ⟨some, covers_sample wellFormed.2 k⟩
  have covered := ((subjectMatches_iff wellFormedWide).mp (includes s published matched)).2
  rw [split] at covered
  exact uncovered covered

theorem mem_overlappingPatterns {patterns : List Str} {o : Overlap} (reported : o ∈ overlappingPatterns patterns) :
    o.wide ∈ patterns ∧ o.narrow ∈ patterns ∧ o.wide ≠ o.narrow ∧ covers o.wide o.narrow = true := by
  obtain ⟨wide, first, rest⟩ := List.mem_flatMap.mp reported
  obtain ⟨narrow, second, rfl⟩ := List.mem_map.mp rest
  obtain ⟨listed, apart⟩ := List.mem_filter.mp second
  simp only [Bool.and_eq_true, decide_eq_true_eq] at apart
  exact ⟨first, listed, apart⟩

end Strings

/-- What `covers` is for: inclusion, over all subjects or over those that are published. -/
structure Decides (wide narrow : Str) : Prop where
  subjects : covers wide narrow = true ↔ Includes wide narrow
  published : covers wide narrow = true ↔
    ∀ s, Published s → subjectMatches narrow s = true → subjectMatches wide s = true

theorem covers_decides :
    (∀ wide narrow, WellFormed wide → WellFormed narrow → Decides wide narrow) ∧
    (∀ p, WellFormed p → covers p p = true) ∧
    (∀ p q r, WellFormed p → WellFormed q → WellFormed r → covers p q = true → covers q r = true → covers p r = true) ∧
    ∀ patterns, (∀ p ∈ patterns, WellFormed p) → ∀ o ∈ overlappingPatterns patterns, ∀ s,
      (∃ p ∈ patterns, subjectMatches p s = true) ↔ ∃ p ∈ patterns, p ≠ o.narrow ∧ subjectMatches p s = true := by
  have decides : ∀ wide narrow, WellFormed wide → WellFormed narrow → Decides wide narrow := fun wide narrow first second => {
    subjects := ⟨covers_includes first second, fun includes => covers_of_published first second fun s _ => includes s⟩
    published := ⟨fun found s _ => covers_includes first second found s, covers_of_published first second⟩ }
  refine ⟨decides, fun p _ => if_pos rfl, fun p q r first second third left right => ?_, fun patterns wellFormed o reported s => ?_⟩
  · exact (decides p r first third).subjects.mpr fun s matched =>
      covers_includes first second left s (covers_includes second third right s matched)
  · obtain ⟨wide, narrow, apart, covers⟩ := mem_overlappingPatterns reported
    refine ⟨fun ⟨p, listed, matched⟩ => ?_, fun ⟨p, listed, _, matched⟩ => ⟨p, listed, matched⟩⟩
    by_cases dropped : p = o.narrow
    · refine ⟨o.wide, wide, apart, ?_⟩
      exact covers_includes (wellFormed _ wide) (wellFormed _ narrow) covers s (dropped ▸ matched)
    · exact ⟨p, listed, dropped, matched⟩

theorem covers_decides_acme : Decides "uns.>".toList "uns.acme.*".toList ∧ covers "uns.>".toList "uns.acme.*".toList = true :=
  ⟨covers_decides.1 _ _ ⟨by decide, by decide⟩ ⟨by decide, by decide⟩, by decide⟩

end NatsExplorer.Client
