import Mathlib.Data.List.Basic
import Mathlib.Data.List.Nodup
import Mathlib.Logic.Function.Iterate
import Mathlib.Order.Lattice

/-! A list read page by page below the last thing shown, where the cursor need not cut the
list where that stands. What was shown may come again, and is not shown twice; what the
cursor leaves out too early never comes. -/
namespace Rereading
variable {A K : Type*}

structure Source (A : Type*) where
  all : List A
  /-- What comes below a cursor. -/
  cut : A → A → Bool
  /-- The size of a page. -/
  n : Nat

namespace Source

def rest (s : Source A) : Option A → List A
  | none => s.all
  | some k => s.all.filter (s.cut k)

/-- The places in the list at which a page ends while nothing is left out. -/
inductive Turn (s : Source A) : Nat → Prop
  | first : s.Turn s.n
  | next {j : Nat} {k : A} : s.Turn j → (s.all.take j).getLast? = some k →
      s.Turn (j + (s.n - (s.all.take j).countP (s.cut k)))

theorem Turn.le {s : Source A} {j : Nat} (turn : s.Turn j) : s.n ≤ j := by
  induction turn with
  | first => exact le_refl _
  | next _ _ ih => exact ih.trans (Nat.le_add_right ..)

/-- From the last thing shown all that is to come is let through, and of what was shown
less than a page. -/
def Clean (s : Source A) (j : Nat) : Prop :=
  ∀ k, (s.all.take j).getLast? = some k →
    (∀ a ∈ s.all.drop j, s.cut k a = true) ∧ (s.all.take j).countP (s.cut k) < s.n

/-- What a reader relies on; `goesOn` is whether the answer to a cursor says that there is more. -/
structure Sound (s : Source A) (goesOn : Option A → Bool) (key : A → K) : Prop where
  room : 0 < s.n
  nodup : s.all.Nodup
  trans : ∀ a b c, s.cut a b = true → s.cut b c = true → s.cut a c = true
  full : ∀ c, s.n < (s.rest c).length → goesOn c = true
  empty : ∀ c, s.rest c = [] → goesOn c = false
  last : ∀ c l, (s.rest c).length ≤ s.n → goesOn c = true → s.all.getLast? = some l → l ∈ s.rest c → s.rest (some l) = []
  apart : ∀ j k, (s.all.take j).getLast? = some k → ∀ a ∈ s.all.take j, ∀ b ∈ s.all.drop j, key a = key b → s.cut k b = false

end Source

structure Shown (A : Type*) where
  list : List A
  more : Bool

def first (s : Source A) (goesOn : Option A → Bool) : Shown A := ⟨s.all.take s.n, goesOn none⟩

variable [DecidableEq K]

def next (s : Source A) (goesOn : Option A → Bool) (key : A → K) (shown : Shown A) : Shown A :=
  match shown.more, shown.list.getLast? with
  | true, some k =>
    ⟨shown.list ++ ((s.rest (some k)).take s.n).filter fun a => key a ∉ shown.list.map key, goesOn (some k)⟩
  | _, _ => shown

variable {s : Source A} {goesOn : Option A → Bool} {key : A → K} {j : Nat} {k : A}

theorem next_stopped {shown : Shown A} (none : shown.more = false) : next s goesOn key shown = shown := by
  unfold next
  rw [none]

variable (goesOn key) in
theorem next_subset {shown : Shown A} (known : shown.list ⊆ s.all) : (next s goesOn key shown).list ⊆ s.all := by
  unfold next
  split
  · refine List.append_subset.mpr ⟨known, fun a member => ?_⟩
    exact List.mem_of_mem_filter (List.mem_of_mem_take (List.mem_of_mem_filter member))
  · exact known

/-- What is let through, where nothing to come is left out. -/
theorem rest_split (whole : ∀ a ∈ s.all.drop j, s.cut k a = true) :
    s.rest (some k) = (s.all.take j).filter (s.cut k) ++ s.all.drop j := by
  calc s.rest (some k) = (s.all.take j ++ s.all.drop j).filter (s.cut k) := by rw [List.take_append_drop]; rfl
    _ = _ := by rw [List.filter_append, List.filter_eq_self.mpr whole]

theorem rest_length (whole : ∀ a ∈ s.all.drop j, s.cut k a = true) :
    (s.rest (some k)).length = (s.all.take j).countP (s.cut k) + (s.all.length - j) := by
  rw [rest_split whole, List.length_append, List.length_drop, List.countP_eq_length_filter]

/-- A page goes on where the one before ended. -/
theorem Source.Sound.next_eq (sound : s.Sound goesOn key) (at_ : (s.all.take j).getLast? = some k) (clean : s.Clean j) :
    next s goesOn key ⟨s.all.take j, true⟩ =
      ⟨s.all.take (j + (s.n - (s.all.take j).countP (s.cut k))), goesOn (some k)⟩ := by
  obtain ⟨whole, few⟩ := clean k at_
  have again : ((s.all.take j).filter (s.cut k)).filter (fun a => key a ∉ (s.all.take j).map key) = [] := by
    refine List.filter_eq_nil_iff.mpr fun a member => ?_
    rw [decide_eq_true_eq, not_not]
    exact List.mem_map_of_mem (List.mem_of_mem_filter member)
  have new (m : Nat) : ((s.all.drop j).take m).filter (fun a => key a ∉ (s.all.take j).map key) = (s.all.drop j).take m := by
    refine List.filter_eq_self.mpr fun b member => decide_eq_true fun seen => ?_
    obtain ⟨a, shown, same⟩ := List.mem_map.mp seen
    have below := List.mem_of_mem_take member
    exact absurd (whole b below) (by rw [sound.apart j k at_ a shown b below same]; exact Bool.false_ne_true)
  have page : ((s.rest (some k)).take s.n).filter (fun a => key a ∉ (s.all.take j).map key) =
      (s.all.drop j).take (s.n - (s.all.take j).countP (s.cut k)) := by
    have short : ((s.all.take j).filter (s.cut k)).length ≤ s.n := by
      rw [← List.countP_eq_length_filter]
      exact few.le
    rw [rest_split whole, List.take_append, List.filter_append, new, List.take_of_length_le short, again,
      List.nil_append, List.countP_eq_length_filter]
  unfold next
  simp only [at_]
  rw [page, List.take_add]

omit [DecidableEq K] in
/-- Before the end there is more. -/
theorem Source.Sound.more_next (sound : s.Sound goesOn key) (at_ : (s.all.take j).getLast? = some k) (clean : s.Clean j)
    (before : j + (s.n - (s.all.take j).countP (s.cut k)) < s.all.length) : goesOn (some k) = true := by
  obtain ⟨whole, few⟩ := clean k at_
  refine sound.full (some k) ?_
  rw [rest_length whole]
  omega

/-- Once everything is shown, one more answer says so. -/
theorem Source.Sound.ends (sound : s.Sound goesOn key) {c : Option A} (few : (s.rest c).length ≤ s.n)
    (within : ∀ l, s.all.getLast? = some l → l ∈ s.rest c) :
    ∃ i, (next s goesOn key)^[i] ⟨s.all, goesOn c⟩ = ⟨s.all, false⟩ := by
  cases more : goesOn c with
  | false => exact ⟨0, rfl⟩
  | true =>
    cases at_ : s.all.getLast? with
    | none =>
      have empty : s.rest c = [] := by
        rw [List.getLast?_eq_none_iff] at at_
        cases c <;> simp [Source.rest, at_]
      rw [sound.empty c empty] at more
      cases more
    | some l =>
      have none := sound.last c l few more at_ (within l at_)
      refine ⟨1, ?_⟩
      rw [Function.iterate_one, next]
      simp only [at_, none, sound.empty _ none, List.take_nil, List.filter_nil, List.append_nil]

variable (s goesOn key) in
/-- Everything is shown, and the reader knows. -/
def Complete : Prop := ∃ i, ((next s goesOn key)^[i] (first s goesOn)).more = false ∧ ((next s goesOn key)^[i] (first s goesOn)).list.Perm s.all

theorem iterate_add {shown shown' : Shown A} {i i' : Nat} (before : (next s goesOn key)^[i] shown = shown')
    (after : (next s goesOn key)^[i'] shown' = ⟨s.all, false⟩) : (next s goesOn key)^[i' + i] shown = ⟨s.all, false⟩ := by
  rw [Function.iterate_add_apply, before, after]

theorem getLast_take (room : 0 < j) (filled : s.all ≠ []) : ∃ k, (s.all.take j).getLast? = some k := by
  refine Option.isSome_iff_exists.mp (List.getLast?_isSome.mpr ?_)
  exact fun none => filled ((List.take_eq_nil_iff.mp none).resolve_left (by omega))

/-- From a turn on the pages come to the end. -/
theorem Source.Sound.read_on (sound : s.Sound goesOn key) (clean : ∀ j, s.Turn j → j < s.all.length → s.Clean j)
    {left : Nat} (turn : s.Turn j) (some_ : 0 < j) (before : s.all.length - j = left + 1) :
    ∃ i, (next s goesOn key)^[i] ⟨s.all.take j, true⟩ = ⟨s.all, false⟩ := by
  induction left using Nat.strongRecOn generalizing j with
  | ind left ih =>
    obtain ⟨k, at_⟩ := getLast_take some_ fun none => by rw [none, List.length_nil] at before; omega
    have clear := clean j turn (by omega)
    obtain ⟨whole, few⟩ := clear k at_
    have step := sound.next_eq at_ clear
    rw [← Function.iterate_one (next s goesOn key)] at step
    by_cases end_ : j + (s.n - (s.all.take j).countP (s.cut k)) < s.all.length
    · rw [sound.more_next at_ clear end_] at step
      obtain ⟨i, rest⟩ := ih (s.all.length - (j + (s.n - (s.all.take j).countP (s.cut k))) - 1) (by omega)
        (.next turn at_) (by omega) (by omega)
      exact ⟨i + 1, iterate_add step rest⟩
    · have size := rest_length whole
      rw [List.take_of_length_le (not_lt.mp end_)] at step
      obtain ⟨i, rest⟩ := sound.ends (c := some k) (by omega) fun l last => by
        rw [rest_split whole]
        refine List.mem_append_right _ ?_
        refine List.mem_of_getLast? ?_
        rw [List.getLast?_drop, if_neg (by omega), last]
      exact ⟨i + 1, iterate_add step rest⟩

/-- What a cursor leaves out no later one lets through. -/
def Lost (s : Source A) (a : A) (shown : Shown A) : Prop :=
  a ∉ shown.list ∧ ∀ l, shown.list.getLast? = some l → s.cut l a = false

theorem Source.Sound.next_lost (sound : s.Sound goesOn key) {a : A} {shown : Shown A} (lost : Lost s a shown) :
    Lost s a (next s goesOn key shown) := by
  unfold next
  split
  · next l _ last =>
    have out := lost.2 l last
    have below : ∀ b ∈ ((s.rest (some l)).take s.n).filter (fun a => key a ∉ shown.list.map key), s.cut l b = true :=
      fun b member => (List.mem_filter.mp (List.mem_of_mem_take (List.mem_of_mem_filter member))).2
    constructor
    · rw [List.mem_append, not_or]
      refine ⟨lost.1, fun member => ?_⟩
      rw [below a member] at out
      cases out
    · intro l' last'
      rw [List.getLast?_append] at last'
      cases new : (((s.rest (some l)).take s.n).filter fun a => key a ∉ shown.list.map key).getLast? with
      | none =>
        rw [new, Option.none_or] at last'
        exact lost.2 l' last'
      | some b =>
        rw [new, Option.some_or] at last'
        cases last'
        by_contra through
        have again := sound.trans l l' a (below l' (List.mem_of_getLast? new)) (eq_true_of_ne_false through)
        rw [out] at again
        cases again
  · exact lost

theorem Source.Sound.iterate_lost (sound : s.Sound goesOn key) {a : A} {shown : Shown A} (lost : Lost s a shown) (i : Nat) :
    Lost s a ((next s goesOn key)^[i] shown) := by
  induction i with
  | zero => exact lost
  | succ i ih =>
    rw [Function.iterate_succ_apply']
    exact sound.next_lost ih

/-- A page of what was shown already leaves the reader where it is. -/
theorem Source.Sound.stuck (sound : s.Sound goesOn key) (at_ : (s.all.take j).getLast? = some k)
    (whole : ∀ a ∈ s.all.drop j, s.cut k a = true) (before : j < s.all.length)
    (many : s.n ≤ (s.all.take j).countP (s.cut k)) : next s goesOn key ⟨s.all.take j, true⟩ = ⟨s.all.take j, true⟩ := by
  have more : goesOn (some k) = true := sound.full (some k) (by rw [rest_length whole]; omega)
  have page : ((s.rest (some k)).take s.n).filter (fun a => key a ∉ (s.all.take j).map key) = [] := by
    rw [List.countP_eq_length_filter] at many
    rw [rest_split whole, List.take_append_of_le_length many]
    refine List.filter_eq_nil_iff.mpr fun a member => ?_
    rw [decide_eq_true_eq, not_not]
    exact List.mem_map_of_mem (List.mem_of_mem_filter (List.mem_of_mem_take member))
  unfold next
  simp only [at_]
  rw [page, List.append_nil, more]

theorem Source.Sound.clean_of_complete (sound : s.Sound goesOn key) (complete : Complete s goesOn key) {i : Nat}
    (here : (next s goesOn key)^[i] (first s goesOn) = ⟨s.all.take j, true⟩) (before : j < s.all.length) : s.Clean j := by
  obtain ⟨i', stopped, every⟩ := complete
  -- the end comes after it
  have later : i ≤ i' := by
    by_contra sooner
    have still : next s goesOn key ((next s goesOn key)^[i'] (first s goesOn)) = (next s goesOn key)^[i'] (first s goesOn) := next_stopped stopped
    have stay := Function.iterate_fixed still (i - i')
    rw [← Function.iterate_add_apply, Nat.sub_add_cancel (by omega), here] at stay
    rw [← stay] at stopped
    cases stopped
  have run : (next s goesOn key)^[i'] (first s goesOn) = (next s goesOn key)^[i' - i] ⟨s.all.take j, true⟩ := by
    rw [← here, ← Function.iterate_add_apply, Nat.sub_add_cancel later]
  rw [run] at stopped every
  intro k at_
  have whole : ∀ a ∈ s.all.drop j, s.cut k a = true := by
    intro a member
    by_contra out
    have split := List.take_append_drop j s.all
    have apart := List.disjoint_of_nodup_append (split.symm ▸ sound.nodup)
    have lost : Lost s a ⟨s.all.take j, true⟩ := by
      refine ⟨fun shown => apart shown member, fun l last => ?_⟩
      rw [at_] at last
      cases last
      exact eq_false_of_ne_true out
    exact (sound.iterate_lost lost (i' - i)).1 (every.mem_iff.mpr (List.mem_of_mem_drop member))
  refine ⟨whole, ?_⟩
  by_contra many
  rw [Function.iterate_fixed (sound.stuck at_ whole before (not_lt.mp many))] at stopped
  cases stopped

/-- The pages come to the end with everything, each thing once, just where every page
that does not end the list leaves a clean cut. -/
theorem Source.Sound.complete_iff (sound : s.Sound goesOn key) :
    Complete s goesOn key ↔ ∀ j, s.Turn j → j < s.all.length → s.Clean j := by
  constructor
  · intro complete
    have reached {j : Nat} (turn : s.Turn j) : j < s.all.length →
        0 < j ∧ ∃ i, (next s goesOn key)^[i] (first s goesOn) = ⟨s.all.take j, true⟩ := by
      induction turn with
      | first => exact fun before => ⟨sound.room, 0, by rw [Function.iterate_zero_apply, first, sound.full none before]⟩
      | @next j k turn at_ ih =>
        intro before
        obtain ⟨some_, i, here⟩ := ih (by omega)
        have clear := sound.clean_of_complete complete here (by omega)
        refine ⟨by omega, i + 1, ?_⟩
        rw [Function.iterate_succ_apply', here, sound.next_eq at_ clear, sound.more_next at_ clear before]
    intro j turn before
    obtain ⟨_, i, here⟩ := reached turn before
    exact sound.clean_of_complete complete here before
  · intro clean
    obtain ⟨i, done⟩ : ∃ i, (next s goesOn key)^[i] (first s goesOn) = ⟨s.all, false⟩ := by
      unfold first
      by_cases before : s.n < s.all.length
      · rw [sound.full none before]
        exact sound.read_on clean .first sound.room (by omega : s.all.length - s.n = s.all.length - s.n - 1 + 1)
      · rw [List.take_of_length_le (not_lt.mp before)]
        exact sound.ends (not_lt.mp before) fun l last => List.mem_of_getLast? last
    exact ⟨i, by rw [done], by rw [done]⟩

end Rereading
