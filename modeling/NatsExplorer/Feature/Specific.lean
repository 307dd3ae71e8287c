import NatsExplorer.Feature.Schemas
import NatsExplorer.Client.Covering
import Mathlib.Data.Set.BooleanAlgebra
import Mathlib.Order.CompletePartialOrder

/-! The schema pinned for a subject (`forSubject`): of the patterns that match, the first with the longest literal
prefix, in the order `set` keeps. Where literal prefixes are equal the order of the texts decides, and not which pattern
is inside which. -/
namespace NatsExplorer.Feature
open Go Client

section Best
variable {A : Type*} {score : A → ℕ} {l : List A} {a : A}

/-- The first of those with the highest score. -/
def FirstBest (score : A → ℕ) (l : List A) (a : A) : Prop :=
  ∃ before after, l = before ++ a :: after ∧ (∀ b ∈ before, score b < score a) ∧ ∀ b ∈ after, score b ≤ score a

theorem FirstBest.mem (best : FirstBest score l a) : a ∈ l := by
  obtain ⟨before, after, rfl, -, -⟩ := best
  exact List.mem_append_right _ List.mem_cons_self

theorem FirstBest.single (a : A) : FirstBest score [a] a := ⟨[], [], rfl, by simp, by simp⟩

theorem FirstBest.keep (best : FirstBest score l a) {b : A} (no : score b ≤ score a) : FirstBest score (l ++ [b]) a := by
  obtain ⟨before, after, rfl, first, second⟩ := best
  refine ⟨before, after ++ [b], by simp, first, ?_⟩
  intro c member
  rcases List.mem_append.mp member with earlier | last
  · exact second c earlier
  · rwa [List.mem_singleton.mp last]

theorem FirstBest.replace (best : FirstBest score l a) {b : A} (higher : score a < score b) : FirstBest score (l ++ [b]) b := by
  obtain ⟨before, after, rfl, first, second⟩ := best
  refine ⟨before ++ a :: after, [], rfl, ?_, by simp⟩
  intro c member
  rcases List.mem_append.mp member with earlier | later
  · exact (first c earlier).trans higher
  · rcases List.mem_cons.mp later with rfl | later
    · exact higher
    · exact (second c later).trans_lt higher

end Best

/-- The leading tokens of a pattern that are not wildcards. -/
def literals (tokens : List Str) : List Str := tokens.takeWhile fun t => t ≠ ['*'] && t ≠ ['>']

/-- `subject.LiteralPrefix` -/
def literalPrefix (pattern : Str) : Str := ['.'].intercalate (literals (pattern.splitOn '.'))

def PinnedSchema.score (p : PinnedSchema) : ℕ := byteLen (literalPrefix p.pattern)

/-- One round of the loop of `forSubject`. -/
def better (subj : Str) (best : Option PinnedSchema × Int) (p : PinnedSchema) : Option PinnedSchema × Int :=
  if matchSubject p.pattern subj then
    if (p.score : Int) > best.2 then (some p, p.score) else best
  else best

def forSubject (all : List PinnedSchema) (subj : Str) : Option PinnedSchema := (all.foldl (better subj) (none, -1)).1

/-- `set` -/
def setPinned (list : List PinnedSchema) : List PinnedSchema := SchemaRequest.sorted list

/-- The subjects a pattern matches. -/
def subjects (pattern : Str) : Set Str := {s | Published s ∧ matchSubject pattern s = true}

/-- The pinned schemas whose patterns match a subject. -/
def matching (list : List PinnedSchema) (subj : Str) : List PinnedSchema := list.filter fun p => matchSubject p.pattern subj

/-- The loop keeps the first of the highest scores. -/
theorem forSubject_loop (all : List PinnedSchema) (subj : Str) :
    (all.foldl (better subj) (none, -1) = (none, -1) ∧ matching all subj = []) ∨
      ∃ b, all.foldl (better subj) (none, -1) = (some b, (b.score : Int)) ∧ FirstBest PinnedSchema.score (matching all subj) b := by
  induction all using List.reverseRecOn with
  | nil => exact Or.inl ⟨rfl, rfl⟩
  | append_singleton all p ih =>
    rw [List.foldl_append, List.foldl_cons, List.foldl_nil, matching, List.filter_append, ← matching, better]
    by_cases matched : matchSubject p.pattern subj = true
    · have added : [p].filter (fun p => matchSubject p.pattern subj) = [p] := by simp [matched]
      rw [if_pos matched, added]
      rcases ih with ⟨state, none⟩ | ⟨b, state, best⟩
      · rw [state, none]
        have higher : (p.score : Int) > -1 := by omega
        exact Or.inr ⟨p, if_pos higher, FirstBest.single p⟩
      · rw [state]
        by_cases higher : (p.score : Int) > b.score
        · exact Or.inr ⟨p, if_pos higher, best.replace (by omega)⟩
        · exact Or.inr ⟨b, if_neg higher, best.keep (by omega)⟩
    · have added : [p].filter (fun p => matchSubject p.pattern subj) = [] := by simp [matched]
      rw [if_neg matched, added, List.append_nil]
      exact ih

theorem forSubject_eq_none {all : List PinnedSchema} {subj : Str} (none : forSubject all subj = none) :
    ∀ p ∈ all, matchSubject p.pattern subj = false := by
  rcases forSubject_loop all subj with ⟨-, empty⟩ | ⟨b, state, -⟩
  · intro p member
    simpa using List.filter_eq_nil_iff.mp empty p member
  · rw [forSubject, state] at none
    cases none

theorem forSubject_eq_some {all : List PinnedSchema} {subj : Str} {b : PinnedSchema} (found : forSubject all subj = some b) :
    FirstBest PinnedSchema.score (matching all subj) b := by
  rcases forSubject_loop all subj with ⟨state, -⟩ | ⟨c, state, best⟩
  · rw [forSubject, state] at found
    cases found
  · rw [forSubject, state] at found
    cases found
    exact best

/-- In the order of the patterns, who has the score of the chosen one comes after it. -/
theorem forSubject_beats {all : List PinnedSchema} {subj : Str} {b r : PinnedSchema}
    (ordered : all.Pairwise fun a b => a.pattern < b.pattern) (found : forSubject all subj = some b)
    (member : r ∈ matching all subj) : r.score < b.score ∨ r.score = b.score ∧ b.pattern ≤ r.pattern := by
  obtain ⟨before, after, split, first, second⟩ := forSubject_eq_some found
  have ordered : (matching all subj).Pairwise fun a b => a.pattern < b.pattern := List.Pairwise.filter _ ordered
  rw [split] at member ordered
  rcases List.mem_append.mp member with earlier | later
  · exact Or.inl (first r earlier)
  · rcases List.mem_cons.mp later with rfl | later
    · exact Or.inr ⟨rfl, le_refl _⟩
    · have above := (List.pairwise_cons.mp (List.pairwise_append.mp ordered).2.1).1 r later
      rcases (second r later).lt_or_eq with lower | same
      · exact Or.inl lower
      · exact Or.inr ⟨same, Std.le_of_lt above⟩

section Inside
variable {p q : Str}

theorem literals_covers {narrow wide n : List Str} (found : coversTokens narrow wide n = true) : literals wide <+: literals n := by
  induction wide generalizing n with
  | nil => exact List.nil_prefix
  | cons w wide ih =>
    rw [literals, List.takeWhile_cons]
    split
    · next literal =>
      simp only [Bool.and_eq_true, decide_eq_true_eq] at literal
      cases n with
      | nil =>
        simp only [coversTokens, if_neg literal.2] at found
        cases found
      | cons t n =>
        simp only [coversTokens, if_neg literal.2, if_neg literal.1] at found
        split_ifs at found with last other
        obtain rfl := not_not.mp other
        rw [literals, List.takeWhile_cons, if_pos (by simpa using literal)]
        exact List.cons_prefix_cons.mpr ⟨rfl, ih found⟩
    · exact List.nil_prefix

theorem covers_of_subset (wellFormedWide : WellFormed q) (wellFormed : WellFormed p) (inside : subjects p ⊆ subjects q) :
    covers q p = true := by
  have some (s : Str) (published : Published s) : s ≠ [] := by
    rintro rfl
    exact (published [] List.mem_cons_self).1 rfl
  refine covers_of_published wellFormedWide wellFormed fun s published matched => ?_
  rw [subjectMatches_same.mpr fun empty => absurd empty (some s published)] at matched ⊢
  exact (inside ⟨published, matched⟩).2

theorem literals_of_subset (wellFormedWide : WellFormed q) (wellFormed : WellFormed p) (inside : subjects p ⊆ subjects q) :
    literals (q.splitOn '.') <+: literals (p.splitOn '.') := by
  have found := covers_of_subset wellFormedWide wellFormed inside
  unfold covers at found
  split at found
  · next same => exact same ▸ List.prefix_rfl
  · exact literals_covers found

theorem byteLen_joined (t : Str) (tokens : List Str) :
    byteLen (['.'].intercalate (t :: tokens)) + 1 = ((t :: tokens).map fun t => byteLen t + 1).sum := by
  induction tokens generalizing t with
  | nil => simp [byteLen]
  | cons u tokens ih =>
    have dot : byteLen ['.'] = 1 := by decide
    rw [List.intercalate_cons_cons, byteLen_append, byteLen_append, dot, List.map_cons, List.sum_cons, ← ih u]
    omega

/-- Of two literal prefixes, the longer begins with the shorter. -/
theorem joined_prefix {short long : List Str} (pre : short <+: long) (tokens : ∀ t ∈ long, t ≠ []) :
    byteLen (['.'].intercalate short) ≤ byteLen (['.'].intercalate long) ∧
      (byteLen (['.'].intercalate short) = byteLen (['.'].intercalate long) → short = long) := by
  obtain ⟨rest, rfl⟩ := pre
  cases rest with
  | nil => simp
  | cons t rest =>
    have longer : byteLen (['.'].intercalate short) < byteLen (['.'].intercalate (short ++ t :: rest)) := by
      cases short with
      | nil =>
        have first := byteLen_joined t rest
        have token := byteLen_pos (tokens t (by simp))
        rw [List.map_cons, List.sum_cons] at first
        rw [List.nil_append, show byteLen (['.'].intercalate []) = 0 from rfl]
        omega
      | cons s short =>
        have first := byteLen_joined s short
        have second := byteLen_joined s (short ++ t :: rest)
        have token := byteLen_pos (tokens t (by simp))
        rw [← List.cons_append, List.map_append, List.sum_append, ← first, List.map_cons, List.sum_cons] at second
        omega
    exact ⟨longer.le, fun same => absurd same longer.ne⟩

/-- What is inside has a literal prefix at least as long. -/
theorem score_of_subset {p q : PinnedSchema} (wellFormedWide : WellFormed q.pattern) (wellFormed : WellFormed p.pattern)
    (inside : subjects p.pattern ⊆ subjects q.pattern) :
    q.score ≤ p.score ∧ (q.score = p.score → literalPrefix p.pattern = literalPrefix q.pattern) := by
  have tokens : ∀ t ∈ literals (p.pattern.splitOn '.'), t ≠ [] := fun t member empty =>
    wellFormed.1 (empty ▸ (List.takeWhile_sublist _).subset member)
  obtain ⟨shorter, same⟩ := joined_prefix (literals_of_subset wellFormedWide wellFormed inside) tokens
  exact ⟨shorter, fun equal => by rw [literalPrefix, literalPrefix, same equal]⟩

end Inside

/-- What the registry is for: of two patterns that match, one strictly inside the other, the wider one is not chosen; and
something is chosen if anything matches. -/
structure MostSpecific (list : List PinnedSchema) (subj : Str) : Prop where
  inner : ∀ p ∈ list, ∀ q ∈ list, matchSubject p.pattern subj = true → matchSubject q.pattern subj = true →
    subjects p.pattern ⊂ subjects q.pattern → forSubject list subj ≠ some q
  some : forSubject list subj = none → ∀ p ∈ list, matchSubject p.pattern subj = false

/-- Where a pattern is strictly inside one that has the same literal prefix and comes before it, a third pattern that
matches comes before both: by a longer literal prefix, or in the order of the texts. -/
def Ordered (list : List PinnedSchema) (subj : Str) : Prop :=
  ∀ p ∈ list, ∀ q ∈ list, matchSubject p.pattern subj = true → matchSubject q.pattern subj = true →
    subjects p.pattern ⊂ subjects q.pattern → literalPrefix p.pattern = literalPrefix q.pattern → q.pattern < p.pattern →
    ∃ r ∈ list, matchSubject r.pattern subj = true ∧
      (byteLen (literalPrefix q.pattern) < byteLen (literalPrefix r.pattern) ∨
        byteLen (literalPrefix q.pattern) = byteLen (literalPrefix r.pattern) ∧ r.pattern < q.pattern)

section Pinned
variable {list : List PinnedSchema}

theorem mem_setPinned {p : PinnedSchema} : p ∈ setPinned list ↔ p ∈ list := by
  rw [setPinned, SchemaRequest.sorted, List.mem_mergeSort]

theorem setPinned_ordered (distinct : (list.map PinnedSchema.pattern).Nodup) :
    (setPinned list).Pairwise fun a b => a.pattern < b.pattern := by
  have sorted : (setPinned list).Pairwise fun a b => a.pattern ≤ b.pattern := by
    rw [setPinned, SchemaRequest.sorted]
    refine (List.pairwise_mergeSort (fun a b c first second => ?_) (fun a b => ?_) list).imp fun {a b} holds => ?_
    · exact decide_eq_true (le_trans (of_decide_eq_true first) (of_decide_eq_true second))
    · simpa using le_total a.pattern b.pattern
    · exact of_decide_eq_true holds
  have perm : (setPinned list).Perm list := List.mergeSort_perm _ _
  have apart : (setPinned list).Pairwise fun a b => a.pattern ≠ b.pattern :=
    List.pairwise_map.mp ((perm.map _).nodup_iff.mpr distinct)
  exact sorted.imp₂ (fun _ _ below other => Std.lt_of_le_of_ne below other) apart

end Pinned

/-- The wider of two patterns is passed over exactly if the order of the texts does not put it first among the longest
literal prefixes. -/
theorem forSubject_specific (list : List PinnedSchema) (distinct : (list.map PinnedSchema.pattern).Nodup)
    (wellFormed : ∀ p ∈ list, WellFormed p.pattern) (subj : Str) :
    MostSpecific (setPinned list) subj ↔ Ordered (setPinned list) subj := by
  have ordered := setPinned_ordered distinct
  have wellFormed : ∀ p ∈ setPinned list, WellFormed p.pattern := fun p member => wellFormed p (mem_setPinned.mp member)
  have byPattern (a b : PinnedSchema) (am : a ∈ setPinned list) (bm : b ∈ setPinned list) (one : a.pattern = b.pattern) : a = b :=
    List.inj_on_of_nodup_map distinct (mem_setPinned.mp am) (mem_setPinned.mp bm) one
  constructor
  · intro specific p pm q qm pMatch qMatch inside same before
    cases found : forSubject (setPinned list) subj with
    | none => exact absurd qMatch (Bool.eq_false_iff.mp (specific.some found q qm))
    | some b =>
      have chosen := List.mem_filter.mp (forSubject_eq_some found).mem
      refine ⟨b, chosen.1, chosen.2, ?_⟩
      rcases forSubject_beats ordered found (List.mem_filter.mpr ⟨qm, qMatch⟩) with lower | ⟨level, below⟩
      · exact Or.inl lower
      · have apart : b.pattern ≠ q.pattern := fun one => by
          obtain rfl : b = q := byPattern b q chosen.1 qm one
          exact specific.inner p pm b qm pMatch qMatch inside found
        exact Or.inr ⟨level, Std.lt_of_le_of_ne below apart⟩
  · intro condition
    refine ⟨fun p pm q qm pMatch qMatch inside found => ?_, fun none => forSubject_eq_none none⟩
    obtain ⟨shorter, level⟩ := score_of_subset (wellFormed q qm) (wellFormed p pm) inside.1
    -- the narrower one is not longer, so it comes later in the order of the texts
    rcases forSubject_beats ordered found (List.mem_filter.mpr ⟨pm, pMatch⟩) with lower | ⟨same, below⟩
    · omega
    · have apart : q.pattern ≠ p.pattern := fun one => inside.2 (one ▸ subset_rfl)
      obtain ⟨r, rm, rMatch, beats⟩ := condition p pm q qm pMatch qMatch inside (level same.symm) (Std.lt_of_le_of_ne below apart)
      rcases forSubject_beats ordered found (List.mem_filter.mpr ⟨rm, rMatch⟩) with lower | ⟨level, above⟩
      · rcases beats with longer | ⟨even, -⟩
        · exact absurd lower longer.asymm
        · exact absurd even.symm lower.ne
      · rcases beats with longer | ⟨-, first⟩
        · exact absurd level longer.ne'
        · exact absurd first (not_lt.mpr above)

section Plant

def pinned (pattern : String) : PinnedSchema :=
  { id := pattern.toList, pattern := pattern.toList, pinnedAt := 0, samples := 1, fields := [{ path := "value".toList }] }

/-- One sensor of every line, and everything of every line. -/
def plant : List PinnedSchema := [pinned "plant.*.>", pinned "plant.*.temp"]

theorem plant_set : setPinned plant = plant :=
  List.mergeSort_of_pairwise (by decide)

theorem plant_inside : subjects "plant.*.temp".toList ⊂ subjects "plant.*.>".toList := by
  have includes : Includes "plant.*.>".toList "plant.*.temp".toList :=
    covers_includes ⟨by decide, by decide⟩ ⟨by decide, by decide⟩ (by decide)
  refine ⟨fun s ⟨published, matched⟩ => ⟨published, ?_⟩, fun back => ?_⟩
  · have some : s ≠ [] := by
      rintro rfl
      exact (published [] List.mem_cons_self).1 rfl
    have same (pattern : Str) : subjectMatches pattern s = matchSubject pattern s :=
      subjectMatches_same.mpr fun empty => absurd empty some
    rw [← same] at matched ⊢
    exact includes s matched
  · have wide : "plant.a.b".toList ∈ subjects "plant.*.>".toList := ⟨by unfold Published; decide, by decide⟩
    exact absurd (back wide).2 (by decide)

/-- `plant.*.>` is chosen over `plant.*.temp`: `>` comes before `t`. -/
theorem forSubject_wider : ¬ ∀ (list : List PinnedSchema) (subj : Str), (list.map PinnedSchema.pattern).Nodup →
    (∀ p ∈ list, WellFormed p.pattern) → MostSpecific (setPinned list) subj := by
  intro claim
  have specific := claim plant "plant.a.temp".toList (by decide) (by unfold WellFormed; decide)
  rw [plant_set] at specific
  exact specific.inner (pinned "plant.*.temp") (by decide) (pinned "plant.*.>") (by decide) (by decide) (by decide)
    plant_inside (by decide)

theorem forSubject_specific_plant :
    (plant.map PinnedSchema.pattern).Nodup ∧ (∀ p ∈ plant, WellFormed p.pattern) ∧
      (MostSpecific (setPinned plant) "plant.a.temp".toList ↔ Ordered (setPinned plant) "plant.a.temp".toList) :=
  have distinct : (plant.map PinnedSchema.pattern).Nodup := by decide
  have wellFormed : ∀ p ∈ plant, WellFormed p.pattern := by unfold WellFormed; decide
  ⟨distinct, wellFormed, forSubject_specific plant distinct wellFormed "plant.a.temp".toList⟩

end Plant
end NatsExplorer.Feature
