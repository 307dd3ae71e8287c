import Mathlib.Algebra.BigOperators.Group.Finset.Basic
import Mathlib.Algebra.Order.Group.Multiset

/-! A family of holders, and what they hold together. Who changes what it holds changes that much of the whole. -/
namespace NatsExplorer.Holders
variable {ι S α : Type*} [Fintype ι] {hold : S → Multiset α} {states : ι → S} {w : ι} {x : S}

def heldBy (hold : S → Multiset α) (states : ι → S) : Multiset α := ∑ w, hold (states w)

/-- Nobody holds anything. -/
theorem heldBy_eq_zero (none : ∀ w, hold (states w) = 0) : heldBy hold states = 0 := Finset.sum_eq_zero fun w _ => none w

variable [DecidableEq ι]

theorem heldBy_update : heldBy hold (Function.update states w x) + hold (states w) = heldBy hold states + hold x := by
  have others : ∑ v ∈ Finset.univ.erase w, hold (Function.update states w x v) = ∑ v ∈ Finset.univ.erase w, hold (states v) :=
    Finset.sum_congr rfl fun v other => by rw [Function.update_of_ne (Finset.ne_of_mem_erase other)]
  rw [heldBy, heldBy, ← Finset.add_sum_erase _ _ (Finset.mem_univ w), ← Finset.add_sum_erase _ (fun v => hold (states v)) (Finset.mem_univ w),
    others, Function.update_self]
  rw [add_comm, add_comm (hold x), ← add_assoc]

/-- Who takes something up. -/
theorem heldBy_take {m : Multiset α} (before : hold (states w) = 0) (after : hold x = m) :
    heldBy hold (Function.update states w x) = heldBy hold states + m := by
  rw [← after, ← heldBy_update, before, add_zero]

/-- Who puts something down. -/
theorem heldBy_put {m : Multiset α} (before : hold (states w) = m) (after : hold x = 0) :
    heldBy hold (Function.update states w x) + m = heldBy hold states := by
  rw [← before, heldBy_update, after, add_zero]

theorem heldBy_keep (same : hold x = hold (states w)) : heldBy hold (Function.update states w x) = heldBy hold states :=
  add_right_cancel (heldBy_update.trans (by rw [same]))

end NatsExplorer.Holders
