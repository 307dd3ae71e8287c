import Mathlib.Data.List.Basic
import Mathlib.Data.List.Nodup
import Mathlib.Logic.Function.Basic
import Mathlib.Data.List.Induction
import Mathlib.Data.List.Perm.Basic

/-! Maps that remember the order in which their keys were first set. -/

structure OrderedMap (K V : Type*) where
  keys : List K
  get : K → Option V
  nodup : keys.Nodup
  mem_keys : ∀ k, k ∈ keys ↔ get k ≠ none

namespace OrderedMap
variable {K V : Type*}

def empty : OrderedMap K V where
  keys := []
  get := fun _ => none
  nodup := List.nodup_nil
  mem_keys := by simp

@[simp] theorem get_empty (k : K) : (empty : OrderedMap K V).get k = none := rfl

@[simp] theorem keys_empty : (empty : OrderedMap K V).keys = [] := rfl

def values (m : OrderedMap K V) : List V := m.keys.filterMap m.get

theorem mem_values {m : OrderedMap K V} {v : V} : v ∈ m.values ↔ ∃ k, m.get k = some v := by
  simp only [values, List.mem_filterMap]
  constructor
  · rintro ⟨k, -, found⟩
    exact ⟨k, found⟩
  · rintro ⟨k, found⟩
    exact ⟨k, (m.mem_keys k).mpr (by simp [found]), found⟩

theorem keys_eq_nil {m : OrderedMap K V} : m.keys = [] ↔ ∀ k, m.get k = none := by
  constructor
  · intro none k
    by_contra some
    have member := (m.mem_keys k).mpr some
    rw [none] at member
    contradiction
  · intro none
    refine List.eq_nil_iff_forall_not_mem.mpr fun k member => ?_
    exact (m.mem_keys k).mp member (none k)

/-- Each key with its value. -/
def entries (m : OrderedMap K V) : List (K × V) := m.keys.filterMap fun k => (m.get k).map (Prod.mk k)

theorem mem_entries {m : OrderedMap K V} {k : K} {v : V} : (k, v) ∈ m.entries ↔ m.get k = some v := by
  unfold entries
  rw [List.mem_filterMap]
  constructor
  · rintro ⟨k', -, same⟩
    obtain ⟨v', found, same⟩ := Option.map_eq_some_iff.mp same
    cases same
    exact found
  · intro found
    exact ⟨k, (m.mem_keys k).mpr (by rw [found]; exact nofun), by rw [found]; rfl⟩

theorem entries_keys (m : OrderedMap K V) : m.entries.map Prod.fst = m.keys := by
  unfold entries
  rw [List.map_filterMap, List.filterMap_congr (g := some)]
  · exact List.filterMap_some
  · intro k member
    obtain ⟨v, found⟩ := Option.ne_none_iff_exists'.mp ((m.mem_keys k).mp member)
    simp [found]

theorem lookup_entries [BEq K] [LawfulBEq K] (m : OrderedMap K V) (k : K) : m.entries.lookup k = m.get k := by
  classical
  have listed : ∀ keys : List K, (keys.filterMap fun k => (m.get k).map (Prod.mk k)).lookup k =
      if k ∈ keys then m.get k else none := by
    intro keys
    induction keys with
    | nil => rfl
    | cons first keys ih =>
      cases found : m.get first with
      | none =>
        rw [List.filterMap_cons_none (by simp [found]), ih]
        by_cases same : k = first
        · simp [same, found]
        · simp [same]
      | some v =>
        rw [List.filterMap_cons_some (b := (first, v)) (by simp [found]), List.lookup_cons, ih]
        by_cases same : k = first
        · simp [same, found]
        · simp [same, beq_eq_false_iff_ne.mpr same]
  unfold entries
  rw [listed]
  split
  · rfl
  · rename_i absent
    by_contra present
    exact absent ((m.mem_keys k).mpr (Ne.symm present))

variable [DecidableEq K]

/-- Under a key there is one entry at most. -/
theorem entries_filter (m : OrderedMap K V) (k : K) : m.entries.filter (·.1 = k) = ((m.get k).map (Prod.mk k)).toList := by
  have listed : ∀ keys : List K, keys.Nodup → (keys.filterMap fun k => (m.get k).map (Prod.mk k)).filter (·.1 = k) =
      if k ∈ keys then ((m.get k).map (Prod.mk k)).toList else [] := by
    intro keys nodup
    induction keys with
    | nil => rfl
    | cons k' keys ih =>
      obtain ⟨fresh, nodup⟩ := List.nodup_cons.mp nodup
      have split : (k' :: keys).filterMap (fun k => (m.get k).map (Prod.mk k)) =
          ((m.get k').map (Prod.mk k')).toList ++ keys.filterMap fun k => (m.get k).map (Prod.mk k) := by
        cases found : m.get k' <;> simp [found]
      rw [split, List.filter_append, ih nodup]
      by_cases same : k = k'
      · subst same
        cases m.get k <;> simp [fresh]
      · cases m.get k' <;> simp [same, Ne.symm same]
  rw [entries, listed _ m.nodup]
  split
  · rfl
  · next absent =>
    have none : m.get k = none := by
      by_contra some
      exact absent ((m.mem_keys k).mpr some)
    rw [none]
    rfl

/-- A key that is there keeps its place. -/
def set (m : OrderedMap K V) (k : K) (v : V) : OrderedMap K V where
  keys := if k ∈ m.keys then m.keys else m.keys ++ [k]
  get := Function.update m.get k (some v)
  nodup := by
    split
    · exact m.nodup
    · next absent => exact List.nodup_append.mpr ⟨m.nodup, by simp, by grind⟩
  mem_keys := by
    intro k'
    by_cases same : k' = k
    · subst same
      split <;> simp_all
    · split <;> simp [same, m.mem_keys]

def delete (m : OrderedMap K V) (k : K) : OrderedMap K V where
  keys := m.keys.filter (· ≠ k)
  get := Function.update m.get k none
  nodup := m.nodup.filter _
  mem_keys := by
    intro k'
    by_cases same : k' = k
    · simp [same]
    · simp [same, m.mem_keys]

variable {m : OrderedMap K V} {k k' : K} {v : V}

theorem get_set : (m.set k v).get k' = if k' = k then some v else m.get k' := Function.update_apply ..

theorem get_delete : (m.delete k).get k' = if k' = k then none else m.get k' := Function.update_apply ..

theorem keys_set : (m.set k v).keys = if k ∈ m.keys then m.keys else m.keys ++ [k] := rfl

theorem set_keys_ne_nil : (m.set k v).keys ≠ [] := by
  rw [Ne, keys_eq_nil]
  intro none
  simpa [get_set] using none k

end OrderedMap

/-! Things gathered under their keys, in the order of their first. -/
namespace OrderedMap
variable {A K V : Type*} [DecidableEq K]

/-- What is under a key, with one more. -/
def push (m : OrderedMap K (List V)) (k : K) (v : V) : OrderedMap K (List V) := m.set k ((m.get k).getD [] ++ [v])

def grouped (key : A → K) (value : A → V) (l : List A) : OrderedMap K (List V) := l.foldl (fun m a => m.push (key a) (value a)) empty

variable {key : A → K} {value : A → V} {k : K}

theorem grouped_append (l : List A) (a : A) : grouped key value (l ++ [a]) = (grouped key value l).push (key a) (value a) := List.foldl_append

theorem grouped_get (l : List A) : ((grouped key value l).get k).getD [] = (l.filter (key · = k)).map value := by
  induction l using List.reverseRecOn with
  | nil => rfl
  | append_singleton l a ih =>
    rw [grouped_append, push, get_set, List.filter_append, List.map_append, ← ih]
    by_cases same : k = key a
    · subst same
      simp
    · simp [same, Ne.symm same]

theorem mem_grouped {l : List A} : k ∈ (grouped key value l).keys ↔ ∃ a ∈ l, key a = k := by
  induction l using List.reverseRecOn with
  | nil => simp [grouped]
  | append_singleton l a ih =>
    rw [mem_keys, grouped_append, push, get_set]
    rw [mem_keys] at ih
    simp only [List.mem_append, List.mem_singleton, or_and_right, exists_or, exists_eq_left, ← ih]
    by_cases same : k = key a
    · simp [same]
    · simp [same, Ne.symm same]

/-- The groups of some keys are the things that have these keys. -/
theorem flat_groups (key : A → K) (l : List A) {ks : List K} (nodup : ks.Nodup) [DecidablePred fun a => key a ∈ ks] :
    (ks.flatMap fun k => l.filter (key · = k)).Perm (l.filter (key · ∈ ks)) := by
  suffices grown : ∀ keep : A → Bool, (∀ a, keep a = true ↔ key a ∈ ks) → (ks.flatMap fun k => l.filter (key · = k)).Perm (l.filter keep) from
    grown _ fun _ => decide_eq_true_iff
  induction ks with
  | nil =>
    intro keep kept
    have none : l.filter keep = [] := List.filter_eq_nil_iff.mpr fun a _ here => List.not_mem_nil ((kept a).mp here)
    rw [none]
    exact .refl _
  | cons k ks ih =>
    intro keep kept
    obtain ⟨fresh, nodup⟩ := List.nodup_cons.mp nodup
    rw [List.flatMap_cons]
    refine ((ih nodup (fun a => decide (key a ∈ ks)) fun _ => decide_eq_true_iff).append_left _).trans ?_
    have split := List.filter_append_perm (fun a => decide (key a = k)) (l.filter keep)
    rw [List.filter_filter, List.filter_filter] at split
    refine .trans (.of_eq (congrArg₂ (· ++ ·) ?_ ?_)) split <;> refine List.filter_congr fun a _ => ?_ <;> rw [Bool.eq_iff_iff] <;>
      simp only [Bool.and_eq_true, Bool.not_eq_true', decide_eq_true_eq, decide_eq_false_iff_not, kept, List.mem_cons]
    · exact ⟨fun same => ⟨same, .inl same⟩, And.left⟩
    · exact ⟨fun here => ⟨fun same => fresh (same ▸ here), .inr here⟩, fun both => both.2.resolve_left both.1⟩

end OrderedMap
