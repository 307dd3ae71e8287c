import Mathlib.Data.List.Infix
import Mathlib.Data.List.TakeDrop

/-! A text from which secrets are removed one after the other, each by replacing what reads
like it. They are gone, and nothing else is, when at its turn each is read only where it
stands. -/
namespace Masking
variable {α : Type*} [DecidableEq α]

def scan (old new : List α) : Nat → List α → List α
  | _, [] => []
  | skip + 1, _ :: t => scan old new skip t
  | 0, c :: t => if old <+: c :: t then new ++ scan old new (old.length - 1) t else c :: scan old new 0 t

/-- Every reading of `old`, from the left and none into another. -/
def replaceAll (old new t : List α) : List α := scan old new 0 t

/-- A stretch of a text: written out, or a secret's. -/
inductive Part (α : Type*) where
  | plain (t : List α)
  | secret (t : List α)
  deriving DecidableEq

def Part.text : Part α → List α
  | .plain t => t
  | .secret t => t

def text (ps : List (Part α)) : List α := ps.flatMap Part.text

def Part.isPlain : Part α → Bool
  | .plain _ => true
  | .secret _ => false

def Plain (ps : List (Part α)) : Prop := ps.all Part.isPlain = true

instance (ps : List (Part α)) : Decidable (Plain ps) := inferInstanceAs (Decidable (_ = true))

/-- `p` is read only where it is the secret. -/
def Only (p : List α) : List (Part α) → Prop
  | [] => True
  | part :: rest => (part = .secret p ∨ ∀ k < part.text.length, ¬ p <+: part.text.drop k ++ text rest) ∧ Only p rest

instance Only.decidable (p : List α) : (ps : List (Part α)) → Decidable (Only p ps)
  | [] => isTrue trivial
  | _ :: rest => @instDecidableAnd _ _ inferInstance (Only.decidable p rest)

variable (mask : List α)

def turn (p : List α) (part : Part α) : Part α := if part = .secret p then .plain mask else part

def hide : Part α → Part α
  | .plain t => .plain t
  | .secret _ => .plain mask

def covered (ps : List (Part α)) : List α := text (ps.map (hide mask))

def Hides : List (List α) → List (Part α) → Prop
  | [], ps => Plain ps
  | p :: more, ps => p ≠ [] ∧ Only p ps ∧ Hides more (ps.map (turn mask p))

instance Hides.decidable : (picks : List (List α)) → (ps : List (Part α)) → Decidable (Hides mask picks ps)
  | [], ps => inferInstanceAs (Decidable (Plain ps))
  | _ :: more, _ => @instDecidableAnd _ _ inferInstance (@instDecidableAnd _ _ inferInstance (Hides.decidable more _))

omit [DecidableEq α] in
@[simp] theorem text_nil : text ([] : List (Part α)) = [] := rfl

omit [DecidableEq α] in
@[simp] theorem text_cons (part : Part α) (ps : List (Part α)) : text (part :: ps) = part.text ++ text ps := rfl

omit [DecidableEq α] in
@[simp] theorem text_append (ps qs : List (Part α)) : text (ps ++ qs) = text ps ++ text qs :=
  List.flatMap_append

omit [DecidableEq α] in
theorem covered_plain {ps : List (Part α)} (plain : Plain ps) : covered mask ps = text ps := by
  have same : ps.map (hide mask) = ps := by
    rw [List.map_congr_left, List.map_id]
    intro part member
    have its := List.all_eq_true.mp plain part member
    cases part with
    | plain t => rfl
    | secret t => exact absurd its Bool.false_ne_true
  rw [covered, same]

omit [DecidableEq α] in
theorem covered_append (ps qs : List (Part α)) : covered mask (ps ++ qs) = covered mask ps ++ covered mask qs := by
  rw [covered, List.map_append, text_append]
  rfl

omit [DecidableEq α] in
theorem text_intercalate (sep : List α) (l : List (List (Part α))) :
    text (List.intercalate [.plain sep] l) = List.intercalate sep (l.map text) := by
  induction l with
  | nil => rfl
  | cons ps l ih =>
    cases l with
    | nil => simp [List.intercalate]
    | cons qs l =>
      rw [List.intercalate_cons_cons, text_append, text_append, ih]
      simp only [List.map_cons, List.intercalate_cons_cons, text_cons, text_nil, List.append_nil, Part.text]

omit [DecidableEq α] in
theorem covered_intercalate (sep : List α) (l : List (List (Part α))) :
    covered mask (List.intercalate [.plain sep] l) = List.intercalate sep (l.map (covered mask)) := by
  induction l with
  | nil => rfl
  | cons ps l ih =>
    cases l with
    | nil => simp [List.intercalate]
    | cons qs l =>
      have between : covered mask [.plain sep] = sep := List.append_nil sep
      rw [List.intercalate_cons_cons, covered_append, covered_append, ih, between]
      simp only [List.map_cons, List.intercalate_cons_cons]

theorem scan_skip (old new : List α) (s t : List α) : scan old new s.length (s ++ t) = scan old new 0 t := by
  induction s with
  | nil => rfl
  | cons c s ih => exact ih

theorem scan_found {old : List α} (some : old ≠ []) (new t : List α) :
    scan old new 0 (old ++ t) = new ++ scan old new 0 t := by
  cases old with
  | nil => exact absurd rfl some
  | cons c s =>
    have found : c :: s <+: c :: (s ++ t) := List.prefix_append (c :: s) t
    rw [List.cons_append, scan, if_pos found, List.length_cons, Nat.add_sub_cancel, scan_skip]

theorem scan_past {old : List α} (new : List α) {s t : List α}
    (none : ∀ k < s.length, ¬ old <+: s.drop k ++ t) : scan old new 0 (s ++ t) = s ++ scan old new 0 t := by
  induction s with
  | nil => rfl
  | cons c s ih =>
    have here : ¬ old <+: c :: (s ++ t) := none 0 (Nat.succ_pos _)
    have later : ∀ k < s.length, ¬ old <+: s.drop k ++ t := fun k short => none (k + 1) (Nat.succ_lt_succ short)
    rw [List.cons_append, scan, if_neg here, ih later]
    rfl

theorem replaceAll_only {p : List α} (some : p ≠ []) {ps : List (Part α)} (only : Only p ps) :
    replaceAll p mask (text ps) = text (ps.map (turn mask p)) := by
  rw [replaceAll]
  induction ps with
  | nil => rfl
  | cons part rest ih =>
    obtain ⟨here, later⟩ := only
    rw [text_cons, List.map_cons, text_cons, ← ih later]
    by_cases its : part = .secret p
    · rw [its, turn, if_pos rfl]
      exact scan_found some mask (text rest)
    · rw [turn, if_neg its]
      exact scan_past mask (here.resolve_left its)

theorem hide_turn (p : List α) (part : Part α) : hide mask (turn mask p part) = hide mask part := by
  unfold turn
  split_ifs with its
  · rw [its]
    rfl
  · rfl

theorem covered_turn (p : List α) (ps : List (Part α)) : covered mask (ps.map (turn mask p)) = covered mask ps := by
  rw [covered, List.map_map]
  exact congrArg text (List.map_congr_left fun part _ => hide_turn mask p part)

/-- Once every secret had its turn, the text is the one with the mask for each. -/
theorem Hides.replaced {picks : List (List α)} {ps : List (Part α)} (hides : Hides mask picks ps) :
    picks.foldl (fun t p => replaceAll p mask t) (text ps) = covered mask ps := by
  induction picks generalizing ps with
  | nil => exact (covered_plain mask hides).symm
  | cons p more ih =>
    obtain ⟨some, only, rest⟩ := hides
    rw [List.foldl_cons, replaceAll_only mask some only, ih rest, covered_turn]

end Masking
