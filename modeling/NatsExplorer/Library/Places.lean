import Mathlib.Data.List.Nodup
import Mathlib.Data.List.Perm.Basic

/-! Things spread out over places: each is in one place, once. Moving things from
one place to another keeps that, and so does bringing in a new one. -/
namespace Places
variable {I A : Type*}

/-- The contents `f` of the places are the things of `all`, each in one place. -/
structure Once (f : I → List A) (all : List A) : Prop where
  nodup (i : I) : (f i).Nodup
  within {i : I} {a : A} : a ∈ f i → a ∈ all
  placed {a : A} : a ∈ all → ∃ i, a ∈ f i
  alone {i j : I} {a : A} : a ∈ f i → a ∈ f j → i = j

variable {f f' : I → List A} {all moved : List A} {x y : I} {a : A}

theorem Once.nowhere (empty : ∀ i, f i = []) : Once f [] where
  nodup i := empty i ▸ List.nodup_nil
  within member := empty _ ▸ member
  placed member := absurd member List.not_mem_nil
  alone member := absurd (empty _ ▸ member) List.not_mem_nil

theorem Once.unique (once : Once f all) (member : a ∈ all) : ∃ i, a ∈ f i ∧ ∀ j, a ∈ f j → j = i := by
  obtain ⟨i, here⟩ := once.placed member
  exact ⟨i, here, fun j there => once.alone there here⟩

/-- What moves leaves one place and comes to another. -/
theorem Once.move (once : Once f all) (apart : x ≠ y) (taken : (f x).Perm (moved ++ f' x))
    (given : (f' y).Perm (f y ++ moved)) (rest : ∀ i, i ≠ x → i ≠ y → f' i = f i) :
    Once f' all := by
  have nodupX := taken.nodup_iff.mp (once.nodup x)
  obtain ⟨nodupMoved, nodupLeft, split⟩ := List.nodup_append.mp nodupX
  -- Where a thing is now says where it was.
  have back {i : I} {a : A} (member : a ∈ f' i) : a ∈ f i ∨ (i = y ∧ a ∈ moved ∧ a ∈ f x) := by
    by_cases atX : i = x
    · subst atX
      exact Or.inl (taken.mem_iff.mpr (List.mem_append_right _ member))
    · by_cases atY : i = y
      · subst atY
        rcases List.mem_append.mp (given.mem_iff.mp member) with old | new
        · exact Or.inl old
        · exact Or.inr ⟨rfl, new, taken.mem_iff.mpr (List.mem_append_left _ new)⟩
      · exact Or.inl (rest i atX atY ▸ member)
  have gone {a : A} (member : a ∈ f' x) : a ∉ moved := fun new => split a new a member rfl
  constructor
  · intro i
    by_cases atX : i = x
    · subst atX
      exact nodupLeft
    · by_cases atY : i = y
      · subst atY
        apply given.nodup_iff.mpr
        apply List.nodup_append.mpr
        refine ⟨once.nodup i, nodupMoved, ?_⟩
        rintro a old _ new rfl
        exact apart (once.alone (taken.mem_iff.mpr (List.mem_append_left _ new)) old)
      · rw [rest i atX atY]
        exact once.nodup i
  · intro i a member
    rcases back member with old | ⟨_, _, old⟩
    · exact once.within old
    · exact once.within old
  · intro a member
    obtain ⟨i, old⟩ := once.placed member
    by_cases atX : i = x
    · subst atX
      rcases List.mem_append.mp (taken.mem_iff.mp old) with new | left
      · exact ⟨y, given.mem_iff.mpr (List.mem_append_right _ new)⟩
      · exact ⟨i, left⟩
    · by_cases atY : i = y
      · subst atY
        exact ⟨i, given.mem_iff.mpr (List.mem_append_left _ old)⟩
      · exact ⟨i, (rest i atX atY).symm ▸ old⟩
  · intro i j a here there
    rcases back here with oldI | ⟨rfl, newI, wasX⟩
    · rcases back there with oldJ | ⟨rfl, newJ, wasX⟩
      · exact once.alone oldI oldJ
      · have same := once.alone oldI wasX
        subst same
        exact absurd newJ (gone here)
    · rcases back there with oldJ | ⟨rfl, _, _⟩
      · have same := once.alone wasX oldJ
        subst same
        exact absurd newI (gone there)
      · rfl

theorem Once.add (once : Once f all) (fresh : a ∉ all) (given : (f' x).Perm (f x ++ [a]))
    (rest : ∀ i, i ≠ x → f' i = f i) : Once f' (all ++ [a]) := by
  have back {i : I} {b : A} (member : b ∈ f' i) : b ∈ f i ∨ (i = x ∧ b = a) := by
    by_cases here : i = x
    · subst here
      rcases List.mem_append.mp (given.mem_iff.mp member) with old | new
      · exact Or.inl old
      · exact Or.inr ⟨rfl, List.mem_singleton.mp new⟩
    · exact Or.inl (rest i here ▸ member)
  have absent {i : I} : a ∉ f i := fun old => fresh (once.within old)
  constructor
  · intro i
    by_cases here : i = x
    · subst here
      apply given.nodup_iff.mpr
      apply List.nodup_append.mpr
      refine ⟨once.nodup i, List.nodup_singleton a, ?_⟩
      rintro b old _ new rfl
      exact absent (List.mem_singleton.mp new ▸ old)
    · rw [rest i here]
      exact once.nodup i
  · intro i b member
    rcases back member with old | ⟨_, rfl⟩
    · exact List.mem_append_left _ (once.within old)
    · exact List.mem_append_right _ List.mem_cons_self
  · intro b member
    rcases List.mem_append.mp member with old | new
    · obtain ⟨i, here⟩ := once.placed old
      by_cases atX : i = x
      · subst atX
        exact ⟨i, given.mem_iff.mpr (List.mem_append_left _ here)⟩
      · exact ⟨i, (rest i atX).symm ▸ here⟩
    · exact ⟨x, given.mem_iff.mpr (List.mem_append_right _ new)⟩
  · intro i j b here there
    rcases back here with oldI | ⟨rfl, rfl⟩
    · rcases back there with oldJ | ⟨rfl, rfl⟩
      · exact once.alone oldI oldJ
      · exact absurd oldI absent
    · rcases back there with oldJ | ⟨rfl, _⟩
      · exact absurd oldJ absent
      · rfl

end Places
