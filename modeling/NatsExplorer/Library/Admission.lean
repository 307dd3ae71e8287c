import Mathlib.Algebra.BigOperators.Group.Multiset.Basic
import Mathlib.Algebra.Order.BigOperators.Group.Multiset
import Mathlib.Data.Multiset.Filter
import Mathlib.Tactic.Linarith

/-! Admission by a counter that many parties add to first and check afterwards. Every
reservation remembers what the counter read after its own addition; what is held from
before it never outgrows that reading. -/
namespace Admission
variable {A : Type}

/-- `stamp` is the place in the order of the additions. -/
structure Reservation (A : Type) where
  item : A
  stamp : Nat
  total : Int

structure Counter (A : Type) where
  value : Int
  held : Multiset (Reservation A)
  /-- How many additions there were. -/
  clock : Nat

variable (weight : A → Int)

def load (l : Multiset (Reservation A)) : Int := (l.map fun r => weight r.item).sum

/-- What is held of the first additions, up to one. -/
def upTo (l : Multiset (Reservation A)) (stamp : Nat) : Multiset (Reservation A) :=
  l.filter fun r => r.stamp ≤ stamp

/-- What an atomic addition does to the counter. -/
inductive Change : Counter A → Counter A → Prop where
  | keep (c) : Change c c
  | reserve (c : Counter A) (item : A) : Change c {
      value := c.value + weight item
      held := ⟨item, c.clock, c.value + weight item⟩ ::ₘ c.held
      clock := c.clock + 1 }
  | release (c : Counter A) (r : Reservation A) (rest : Multiset (Reservation A)) : c.held = r ::ₘ rest →
      Change c { c with
        value := c.value - weight r.item
        held := rest }

/-- The counter is what is held, and no reservation had more before it than it read. -/
structure Sound (c : Counter A) : Prop where
  value : c.value = load weight c.held
  stamped : ∀ r ∈ c.held, r.stamp < c.clock
  read : ∀ r ∈ c.held, load weight (upTo c.held r.stamp) ≤ r.total

variable {weight} {c c' : Counter A}

@[simp] theorem load_cons (r : Reservation A) (l : Multiset (Reservation A)) :
    load weight (r ::ₘ l) = weight r.item + load weight l := by
  rw [load, Multiset.map_cons, Multiset.sum_cons, load]

theorem load_nonneg (nonneg : ∀ a, 0 ≤ weight a) (l : Multiset (Reservation A)) : 0 ≤ load weight l := by
  refine Multiset.sum_nonneg fun x member => ?_
  obtain ⟨r, _, rfl⟩ := Multiset.mem_map.mp member
  exact nonneg r.item

theorem load_mono (nonneg : ∀ a, 0 ≤ weight a) {l l' : Multiset (Reservation A)} (part : l ≤ l') :
    load weight l ≤ load weight l' := by
  obtain ⟨more, rfl⟩ := Multiset.le_iff_exists_add.mp part
  have rest := load_nonneg nonneg more
  rw [load, load, Multiset.map_add, Multiset.sum_add]
  exact le_add_of_nonneg_right rest

theorem Change.sound (nonneg : ∀ a, 0 ≤ weight a) (change : Change weight c c') (sound : Sound weight c) :
    Sound weight c' := by
  cases change with
  | keep => exact sound
  | reserve item =>
    refine ⟨?_, ?_, ?_⟩
    · rw [load_cons, ← sound.value]
      exact Int.add_comm ..
    · intro r member
      rcases Multiset.mem_cons.mp member with rfl | old
      · exact Nat.lt_succ_self _
      · exact (sound.stamped r old).trans (Nat.lt_succ_self _)
    · intro r member
      rcases Multiset.mem_cons.mp member with rfl | old
      · -- the new one read the whole counter
        refine (load_mono nonneg (Multiset.filter_le _ _)).trans ?_
        rw [load_cons, ← sound.value]
        exact (Int.add_comm ..).le
      · have later : ¬ c.clock ≤ r.stamp := (sound.stamped r old).not_ge
        have same : upTo (⟨item, c.clock, c.value + weight item⟩ ::ₘ c.held) r.stamp = upTo c.held r.stamp :=
          Multiset.filter_cons_of_neg _ later
        exact (congrArg (load weight) same).le.trans (sound.read r old)
  | release r rest held =>
    refine ⟨?_, ?_, ?_⟩
    · have whole := sound.value
      rw [held, load_cons] at whole
      dsimp only
      omega
    · exact fun x member => sound.stamped x (held ▸ Multiset.mem_cons_of_mem member)
    · intro x member
      refine le_trans (load_mono nonneg ?_) (sound.read x (held ▸ Multiset.mem_cons_of_mem member))
      rw [held]
      exact Multiset.filter_le_filter _ (Multiset.le_cons_self _ _)

theorem Sound.nonneg (sound : Sound weight c) (nonneg : ∀ a, 0 ≤ weight a) : 0 ≤ c.value :=
  sound.value.symm ▸ load_nonneg nonneg c.held

/-- Of any part of what is held, the additions up to one weigh at most what it read. -/
theorem Sound.part_le (sound : Sound weight c) (nonneg : ∀ a, 0 ≤ weight a) {part : Multiset (Reservation A)}
    (some : part ≤ c.held) {r : Reservation A} (member : r ∈ part) : load weight (upTo part r.stamp) ≤ r.total :=
  (load_mono nonneg (Multiset.filter_le_filter _ some)).trans (sound.read r (Multiset.subset_of_le some member))

end Admission
