import Mathlib.Data.List.Basic

/-! Runs of transition systems. A deterministic system folds its labels, a
nondeterministic one relates states; either way an invariant is checked one step
at a time, under whatever condition the steps of the run meet. -/
namespace Transition
variable {S L : Type*}

section Deterministic
variable (step : S → L → S)

def run (s : S) (labels : List L) : S := labels.foldl step s

/-- Every step of the run meets a condition on the state it starts in. -/
def Along (ok : S → L → Prop) : S → List L → Prop
  | _, [] => True
  | s, label :: rest => ok s label ∧ Along ok (step s label) rest

variable {step} {ok : S → L → Prop} {P : S → Prop} {s : S} {labels more : List L}

theorem run_append : run step s (labels ++ more) = run step (run step s labels) more :=
  List.foldl_append ..

theorem along_append :
    Along step ok s (labels ++ more) ↔
      Along step ok s labels ∧ Along step ok (run step s labels) more := by
  induction labels generalizing s with
  | nil => simp [Along, run]
  | cons label rest ih =>
    simp only [List.cons_append, Along, ih, and_assoc]
    rfl

theorem Along.mono {ok' : S → L → Prop} (weaker : ∀ s l, l ∈ labels → ok s l → ok' s l)
    (along : Along step ok s labels) : Along step ok' s labels := by
  induction labels generalizing s with
  | nil => trivial
  | cons label rest ih =>
    exact ⟨weaker s label List.mem_cons_self along.1,
      ih (fun s l member => weaker s l (List.mem_cons_of_mem _ member)) along.2⟩

theorem invariant (preserves : ∀ s l, l ∈ labels → P s → ok s l → P (step s l))
    (initial : P s) (along : Along step ok s labels) : P (run step s labels) := by
  induction labels generalizing s with
  | nil => exact initial
  | cons label rest ih =>
    exact ih (fun s l member => preserves s l (List.mem_cons_of_mem _ member))
      (preserves s label List.mem_cons_self initial along.1) along.2

/-- An invariant may be used in the condition on the steps that keep it. -/
theorem Along.keeping (preserves : ∀ s l, l ∈ labels → P s → P (step s l)) (initial : P s)
    (along : Along step ok s labels) : Along step (fun s l => P s ∧ ok s l) s labels := by
  induction labels generalizing s with
  | nil => trivial
  | cons label rest ih =>
    exact ⟨⟨initial, along.1⟩, ih (fun s l member => preserves s l (List.mem_cons_of_mem _ member))
      (preserves s label List.mem_cons_self initial) along.2⟩

theorem always (preserves : ∀ s l, P s → P (step s l)) (initial : P s) :
    P (run step s labels) := by
  induction labels generalizing s with
  | nil => exact initial
  | cons label rest ih => exact ih (preserves s label initial)

/-- What an invariant shows holds throughout a run exactly if its steps meet the
condition that keeps the invariant, where a step that does not is seen at once. -/
theorem visible_iff {Q : S → Prop} (shown : ∀ {s}, P s → Q s)
    (kept : ∀ {s}, P s → ∀ l, ok s l → P (step s l)) (seen : ∀ {s}, P s → ∀ l, Q (step s l) → ok s l)
    (initial : P s) :
    (∀ before, before <+: labels → Q (run step s before)) ↔ Along step ok s labels := by
  induction labels generalizing s with
  | nil =>
    refine iff_of_true (fun before none => ?_) trivial
    rw [List.prefix_nil.mp none]
    exact shown initial
  | cons label rest ih =>
    constructor
    · intro always
      have meets := seen initial label (always [label] ⟨rest, rfl⟩)
      refine ⟨meets, (ih (kept initial label meets)).mp fun before part => ?_⟩
      exact always (label :: before) ((List.prefix_cons_inj label).mpr part)
    · rintro ⟨meets, along⟩ before part
      cases before with
      | nil => exact shown initial
      | cons first before =>
        obtain ⟨rfl, tail⟩ := List.cons_prefix_cons.mp part
        exact (ih (kept initial _ meets)).mpr along before tail

/-- What is shown of a state does not change at a hidden label, and at one that is seen changes by
what was shown: runs that agree on the labels seen show the same. -/
theorem run_shown {V : Type*} {shown : S → V} {seen : L → Bool} (kept : ∀ s l, P s → P (step s l))
    (hidden : ∀ s l, P s → seen l = false → shown (step s l) = shown s)
    (congr : ∀ s t l, seen l = true → shown s = shown t → shown (step s l) = shown (step t l))
    {t : S} (first : P s) (second : P t) (alike : shown s = shown t) (same : labels.filter seen = more.filter seen) :
    shown (run step s labels) = shown (run step t more) := by
  have purged : ∀ (labels : List L) (s t : S), P s → shown s = shown t →
      shown (run step s labels) = shown (run step t (labels.filter seen)) := by
    intro labels
    induction labels with
    | nil => exact fun _ _ _ alike => alike
    | cons l labels ih =>
      intro s t holds alike
      cases visible : seen l with
      | true =>
        rw [List.filter_cons_of_pos visible]
        exact ih _ _ (kept s l holds) (congr s t l visible alike)
      | false =>
        rw [List.filter_cons_of_neg (by simp [visible])]
        exact ih _ _ (kept s l holds) ((hidden s l holds visible).trans alike)
  rw [purged labels s s first rfl, same, ← purged more s s first rfl]
  exact (purged more s t first alike).trans (purged more t t second rfl).symm

/-- A system whose steps may have no result follows one that has them all. -/
theorem Along.follows {T : Type*} {next : T → L → Option T} {R : S → T → Prop}
    (steps : ∀ s t l, R s t → ok s l → ∃ t', next t l = some t' ∧ R (step s l) t') {t : T} (related : R s t)
    (along : Along step ok s labels) : ∃ t', labels.foldlM next t = some t' ∧ R (run step s labels) t' := by
  induction labels generalizing s t with
  | nil => exact ⟨t, rfl, related⟩
  | cons label rest ih =>
    obtain ⟨t', moved, still⟩ := steps s t label related along.1
    obtain ⟨last, ran, related⟩ := ih still along.2
    exact ⟨last, by simp [List.foldlM_cons, moved, ran], related⟩

end Deterministic

section Partial
variable {step : S → L → Option S} {P : S → Prop} {Q : L → S → Prop} {labels : List L}

/-- Steps that may have no result all have one, and what each does for its label stays. -/
theorem foldlM_each (steps : ∀ s, P s → ∀ l ∈ labels, ∃ t, step s l = some t ∧ P t ∧ Q l t ∧ ∀ x, Q x s → Q x t) {s : S}
    (initial : P s) : ∃ t, labels.foldlM step s = some t ∧ P t ∧ (∀ l ∈ labels, Q l t) ∧ ∀ x, Q x s → Q x t := by
  induction labels generalizing s with
  | nil => exact ⟨s, rfl, initial, nofun, fun _ => id⟩
  | cons label rest ih =>
    obtain ⟨t, moved, holds, done, stays⟩ := steps s initial label List.mem_cons_self
    obtain ⟨u, run, last, others, still⟩ := ih (fun s holds l member => steps s holds l (List.mem_cons_of_mem _ member)) holds
    refine ⟨u, by simp [List.foldlM_cons, moved, run], last, ?_, fun x before => still x (stays x before)⟩
    intro l member
    rcases List.mem_cons.mp member with rfl | member
    · exact still l done
    · exact others l member

theorem foldlM_keeps (steps : ∀ s, P s → ∀ l ∈ labels, ∃ t, step s l = some t ∧ P t) {s : S} (initial : P s) :
    ∃ t, labels.foldlM step s = some t ∧ P t := by
  obtain ⟨t, run, holds, -⟩ := foldlM_each (Q := fun _ _ => True) (fun s holds l member => by
    obtain ⟨t, moved, next⟩ := steps s holds l member
    exact ⟨t, moved, next, trivial, fun _ _ => trivial⟩) initial
  exact ⟨t, run, holds⟩

end Partial

section Relational

inductive Reaches (step : S → L → S → Prop) : S → List L → S → Prop where
  | refl (s) : Reaches step s [] s
  | next {s t u label rest} : Reaches step s rest t → step t label u →
      Reaches step s (rest ++ [label]) u

variable {step : S → L → S → Prop} {P : S → Prop} {s t : S} {labels : List L}

theorem Reaches.append {more : List L} {u : S} (first : Reaches step s labels t)
    (second : Reaches step t more u) : Reaches step s (labels ++ more) u := by
  induction second with
  | refl => rwa [List.append_nil]
  | next _ last ih =>
    rw [← List.append_assoc]
    exact ih.next last

theorem Reaches.one {l : L} (only : step s l t) : Reaches step s [l] t := (Reaches.refl s).next only

theorem Reaches.mono {step' : S → L → S → Prop} (weaker : ∀ {s l t}, step s l t → step' s l t)
    (run : Reaches step s labels t) : Reaches step' s labels t := by
  induction run with
  | refl => exact .refl _
  | next _ last ih => exact ih.next (weaker last)

theorem Reaches.invariant (preserves : ∀ {s l t}, P s → step s l t → P t)
    (run : Reaches step s labels t) (initial : P s) : P t := by
  induction run with
  | refl => exact initial
  | next _ last ih => exact preserves ih last

end Relational
end Transition
