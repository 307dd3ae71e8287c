import Mathlib.Data.Fintype.Perm
import Mathlib.Data.List.OfFn
import Mathlib.Logic.Equiv.Fin.Basic
import Mathlib.Data.List.FinRange
import NatsExplorer.Go.Runtime

/-! `container/heap`: the item at a position comes before none of its two children, so the first comes before none. The
slice of a heap is a function of its positions, `Swap` exchanges two of them. -/
namespace Go.heap
variable {α : Type} {m : ℕ} (less : α → α → Bool)

instance (priority := high) succ_nonzero (m : ℕ) : NeZero (m + 1) := inferInstance

/-- The child that `down` looks at: the smaller one, among the first `n` positions. -/
def child (h : Fin m → α) {n : ℕ} (inside : n ≤ m) (i : Fin m) : Option (Fin m) :=
  if left : 2 * i.val + 1 < n then
    if right : 2 * i.val + 2 < n then
      if less (h ⟨2 * i.val + 2, by omega⟩) (h ⟨2 * i.val + 1, by omega⟩) then some ⟨2 * i.val + 2, by omega⟩
      else some ⟨2 * i.val + 1, by omega⟩
    else some ⟨2 * i.val + 1, by omega⟩
  else none

/-- A position and the two below it. -/
def Parent (i j : ℕ) : Prop := j = 2 * i + 1 ∨ j = 2 * i + 2

theorem Parent.lt {i j : ℕ} (parent : Parent i j) : i < j := by
  unfold Parent at parent
  omega

theorem Parent.unique {i k j : ℕ} (parent : Parent i j) (other : Parent k j) : i = k := by
  unfold Parent at parent other
  omega

/-- Of the children of a position, the one found comes after none. -/
theorem child_some {less : α → α → Bool} {h : Fin m → α} {n : ℕ} {inside : n ≤ m} {i j : Fin m} (weak : StrictWeak less)
    (found : child less h inside i = some j) :
    Parent i j ∧ j.val < n ∧ ∀ c : Fin m, c.val < n → Parent i c → less (h c) (h j) = false := by
  have irrefl (a : α) : less a a = false := by
    cases own : less a a with
    | false => rfl
    | true => exact own ▸ weak.asymm a a own
  unfold child at found
  split at found
  · next left =>
    split at found
    · next right =>
      split at found
      · next before =>
        cases found
        refine ⟨.inr rfl, right, fun c within parent => ?_⟩
        rcases parent with first | second
        · rw [show c = ⟨2 * i.val + 1, by omega⟩ from Fin.ext first]
          exact weak.asymm _ _ before
        · rw [show c = ⟨2 * i.val + 2, by omega⟩ from Fin.ext second]
          exact irrefl _
      · next after =>
        cases found
        refine ⟨.inl rfl, left, fun c within parent => ?_⟩
        rcases parent with first | second
        · rw [show c = ⟨2 * i.val + 1, by omega⟩ from Fin.ext first]
          exact irrefl _
        · rw [show c = ⟨2 * i.val + 2, by omega⟩ from Fin.ext second]
          exact Bool.not_eq_true _ ▸ after
    · next alone =>
      cases found
      refine ⟨.inl rfl, left, fun c within parent => ?_⟩
      rcases parent with first | second
      · rw [show c = ⟨2 * i.val + 1, by omega⟩ from Fin.ext first]
        exact irrefl _
      · omega
  · cases found

theorem child_none {less : α → α → Bool} {h : Fin m → α} {n : ℕ} {inside : n ≤ m} {i : Fin m}
    (none : child less h inside i = none) {c : ℕ} (within : c < n) : ¬ Parent i c := by
  unfold child at none
  split at none
  · split at none
    · split at none <;> cases none
    · cases none
  · next past =>
    intro parent
    unfold Parent at parent
    omega

theorem child_gt {less : α → α → Bool} {h : Fin m → α} {n : ℕ} {inside : n ≤ m} {i j : Fin m}
    (found : child less h inside i = some j) : i < j := by
  unfold child at found
  split at found
  · split at found
    · split at found <;> cases found <;> simp only [Fin.lt_def] <;> omega
    · cases found
      simp only [Fin.lt_def]
      omega
  · cases found

theorem child_lt {less : α → α → Bool} {h : Fin m → α} {n : ℕ} {inside : n ≤ m} {i j : Fin m}
    (found : child less h inside i = some j) : j.val < n := by
  unfold child at found
  split at found
  · split at found
    · split at found <;> cases found <;> assumption
    · cases found
      assumption
  · cases found

/-- Moves the item at `i` down until none of its children comes before it; the position it ends at. -/
def down (h : Fin m → α) {n : ℕ} (inside : n ≤ m) (i : Fin m) : (Fin m → α) × Fin m :=
  match _found : child less h inside i with
  | none => (h, i)
  | some j => if less (h j) (h i) then down (h ∘ Equiv.swap i j) inside j else (h, i)
termination_by m - i.val
decreasing_by
  have := child_gt _found
  omega

/-- Moves the item at `j` up while it comes before its parent. -/
def up (h : Fin m → α) (j : Fin m) : Fin m → α :=
  let i : Fin m := ⟨(j.val - 1) / 2, by omega⟩
  if i = j ∨ less (h j) (h i) = false then h else up (h ∘ Equiv.swap i j) i
termination_by j.val
decreasing_by
  rename_i going
  have apart : (j.val - 1) / 2 ≠ j.val := fun same => going (.inl (Fin.ext same))
  change (j.val - 1) / 2 < j.val
  omega

/-- The loop of `Init`, from the position before `k` on. -/
def initFrom : (k : ℕ) → k ≤ m → (Fin m → α) → Fin m → α
  | 0, _, h => h
  | k + 1, within, h => initFrom k (by omega) (down less h le_rfl ⟨k, within⟩).1

def init (h : Fin m → α) : Fin m → α := initFrom less (m / 2) (Nat.div_le_self m 2) h

def fix (h : Fin m → α) (i : Fin m) : Fin m → α :=
  let (h, j) := down less h le_rfl i
  if i < j then h else up less h i

/-- The first item leaves, and the last one takes its place. -/
def pop (h : Fin (m + 1) → α) : (Fin m → α) × α :=
  let h := (down less (h ∘ Equiv.swap 0 (Fin.last m)) (Nat.le_succ m) 0).1
  (fun i => h i.castSucc, h (Fin.last m))

variable {less} {h : Fin m → α} {n lo : ℕ} {inside : n ≤ m}

/-- From the position `lo` on, no item of the first `n` comes before its parent. -/
def Ordered (less : α → α → Bool) (h : Fin m → α) (n lo : ℕ) : Prop :=
  ∀ i j : Fin m, lo ≤ i.val → j.val < n → Parent i j → less (h j) (h i) = false

/-- Ordered but for what is below `hole`, which comes before nothing above `hole`. -/
structure Sinking (less : α → α → Bool) (h : Fin m → α) (n lo : ℕ) (hole : Fin m) : Prop where
  apart : ∀ i j : Fin m, lo ≤ i.val → i ≠ hole → j.val < n → Parent i j → less (h j) (h i) = false
  grand : ∀ i c : Fin m, lo ≤ i.val → Parent i hole → c.val < n → Parent hole c → less (h c) (h i) = false

theorem swap_other {i j k : Fin m} (first : k ≠ i) (second : k ≠ j) : (h ∘ Equiv.swap i j) k = h k :=
  congrArg h (Equiv.swap_apply_of_ne_of_ne first second)

theorem swap_first (i j : Fin m) : (h ∘ Equiv.swap i j) i = h j := congrArg h (Equiv.swap_apply_left i j)

theorem swap_second (i j : Fin m) : (h ∘ Equiv.swap i j) j = h i := congrArg h (Equiv.swap_apply_right i j)

/-- Where the smaller child changes places with its parent, only what is below it may be out of order. -/
theorem Sinking.swap (weak : StrictWeak less) {i j : Fin m} (sinking : Sinking less h n lo i) (found : child less h inside i = some j)
    (before : less (h j) (h i) = true) : Sinking less (h ∘ Equiv.swap i j) n lo j := by
  obtain ⟨parent, within, smaller⟩ := child_some weak found
  have below : i < j := parent.lt
  constructor
  case apart =>
    intro k c above other inside parent'
    have under : k < c := parent'.lt
    by_cases here : k = i
    · subst here
      rw [swap_first]
      by_cases own : c = j
      · subst own
        rw [swap_second]
        exact weak.asymm _ _ before
      · rw [swap_other under.ne' own]
        exact smaller c inside parent'
    · rw [swap_other here other]
      by_cases hole : c = i
      · subst hole
        rw [swap_first]
        exact sinking.grand k j above parent' within parent
      · by_cases own : c = j
        · subst own
          exact absurd (Fin.ext (parent'.unique parent)) here
        · rw [swap_other hole own]
          exact sinking.apart k c above here inside parent'
  case grand =>
    intro k c above parent' inside below'
    obtain rfl : k = i := Fin.ext (parent'.unique parent)
    have under : j < c := below'.lt
    rw [swap_first, swap_other (below.trans under).ne' under.ne']
    exact sinking.apart j c (above.trans below.le) below.ne' inside below'

/-- An item that moves down leaves everything in order. -/
theorem down_ordered (weak : StrictWeak less) {i : Fin m} (sinking : Sinking less h n lo i) :
    Ordered less (down less h inside i).1 n lo := by
  fun_induction down less h inside i with
  | case1 h i none =>
    intro k c above within parent
    by_cases here : k = i
    · subst here
      exact (child_none none within parent).elim
    · exact sinking.apart k c above here within parent
  | case2 h i j found before ih => exact ih (sinking.swap weak found before)
  | case3 h i j found after =>
    intro k c above within parent
    by_cases here : k = i
    · subst here
      exact weak.trans _ _ _ ((child_some weak found).2.2 c within parent) (Bool.not_eq_true _ ▸ after)
    · exact sinking.apart k c above here within parent

variable (less h inside) in
/-- What moves stays among the first `n`. -/
theorem down_perm (i : Fin m) : ∃ σ : Equiv.Perm (Fin m), (down less h inside i).1 = h ∘ σ ∧ ∀ k : Fin m, n ≤ k.val → σ k = k := by
  fun_induction down less h inside i with
  | case1 h i none => exact ⟨1, rfl, fun _ _ => rfl⟩
  | case2 h i j found before ih =>
    obtain ⟨σ, moved, fixed⟩ := ih
    refine ⟨Equiv.swap i j * σ, moved, fun k past => ?_⟩
    have below := child_gt found
    have within := child_lt found
    rw [Equiv.Perm.mul_apply, fixed k past]
    exact Equiv.swap_apply_of_ne_of_ne (by rintro rfl; omega) (by rintro rfl; omega)
  | case3 h i j found after => exact ⟨1, rfl, fun _ _ => rfl⟩

theorem initFrom_ordered (weak : StrictWeak less) {k : ℕ} (within : k ≤ m) (sorted : Ordered less h m k) :
    Ordered less (initFrom less k within h) m 0 := by
  induction k generalizing h with
  | zero => exact sorted
  | succ k ih =>
    refine ih _ (down_ordered weak ⟨fun i j above other inside parent => ?_, fun i c above parent => ?_⟩)
    · have apart : i.val ≠ k := fun same => other (Fin.ext same)
      exact sorted i j (by omega) inside parent
    · have under := parent.lt
      change i.val < k at under
      omega

variable (less h) in
theorem initFrom_perm {k : ℕ} (within : k ≤ m) : ∃ σ : Equiv.Perm (Fin m), initFrom less k within h = h ∘ σ := by
  induction k generalizing h with
  | zero => exact ⟨1, rfl⟩
  | succ k ih =>
    obtain ⟨σ, first, -⟩ := down_perm less h le_rfl ⟨k, within⟩
    obtain ⟨τ, later⟩ := ih (down less h le_rfl ⟨k, within⟩).1 (by omega)
    exact ⟨σ * τ, later.trans (by rw [first]; rfl)⟩

/-- `Init` makes a heap of anything. -/
theorem init_ordered (weak : StrictWeak less) (h : Fin m → α) : Ordered less (init less h) m 0 := by
  refine initFrom_ordered weak _ fun i j above inside parent => ?_
  unfold Parent at parent
  omega

variable (less) in
theorem init_perm (h : Fin m → α) : (List.ofFn (init less h)).Perm (List.ofFn h) := by
  obtain ⟨σ, same⟩ := initFrom_perm less h (Nat.div_le_self m 2)
  rw [init, same]
  exact σ.ofFn_comp_perm h

/-- The first item of a heap comes after none. -/
theorem root_first (weak : StrictWeak less) {h : Fin (m + 1) → α} (sorted : Ordered less h (m + 1) 0) (j : Fin (m + 1)) :
    less (h j) (h 0) = false := by
  induction j using WellFoundedLT.induction with
  | ind j ih =>
    by_cases first : j = 0
    · subst first
      cases own : less (h 0) (h 0) with
      | false => rfl
      | true => exact own ▸ weak.asymm _ _ own
    · have later : j.val ≠ 0 := fun zero => first (Fin.ext zero)
      let i : Fin (m + 1) := ⟨(j.val - 1) / 2, by omega⟩
      have parent : Parent i j := by
        change j.val = 2 * ((j.val - 1) / 2) + 1 ∨ j.val = 2 * ((j.val - 1) / 2) + 2
        omega
      exact weak.trans _ _ _ (sorted i j (Nat.zero_le _) j.isLt parent) (ih i parent.lt)

theorem fix_root (h : Fin (m + 1) → α) : fix less h 0 = (down less h le_rfl 0).1 := by
  have stays (h : Fin (m + 1) → α) : up less h 0 = h := by
    rw [up]
    exact if_pos (.inl (Fin.ext (by simp)))
  unfold fix
  dsimp only
  split
  · rfl
  · exact stays _

/-- The first item of a heap may be changed if it is fixed after. -/
theorem fix_ordered (weak : StrictWeak less) {h : Fin (m + 1) → α} (sorted : Ordered less h (m + 1) 0) (x : α) :
    Ordered less (fix less (Function.update h 0 x) 0) (m + 1) 0 := by
  rw [fix_root]
  refine down_ordered weak ⟨fun i j above other inside parent => ?_, fun i c above parent => absurd parent.lt (Nat.not_lt_zero _)⟩
  have under : i < j := parent.lt
  rw [Function.update_of_ne other, Function.update_of_ne (Fin.pos_of_ne_zero other |>.trans under).ne']
  exact sorted i j above inside parent

variable (less) in
theorem fix_perm (h : Fin (m + 1) → α) (x : α) :
    (List.ofFn (fix less (Function.update h 0 x) 0)).Perm (x :: List.ofFn fun i : Fin m => h i.succ) := by
  obtain ⟨σ, same, -⟩ := down_perm less (Function.update h 0 x) le_rfl 0
  have whole : List.ofFn (Function.update h 0 x) = x :: List.ofFn fun i : Fin m => h i.succ := by
    rw [List.ofFn_succ, Function.update_self]
    exact congrArg (x :: List.ofFn ·) (funext fun i => Function.update_of_ne i.succ_ne_zero _ _)
  rw [fix_root, same, ← whole]
  exact σ.ofFn_comp_perm _

theorem pop_ordered (weak : StrictWeak less) {h : Fin (m + 1) → α} (sorted : Ordered less h (m + 1) 0) :
    Ordered less (pop less h).1 m 0 := by
  have sunk : Ordered less (down less (h ∘ Equiv.swap 0 (Fin.last m)) (Nat.le_succ m) 0).1 m 0 := by
    refine down_ordered weak ⟨fun i j above other inside parent => ?_, fun i c above parent => absurd parent.lt (Nat.not_lt_zero _)⟩
    have under : i < j := parent.lt
    have early : j ≠ Fin.last m := fun last => by
      subst last
      exact absurd inside (lt_irrefl m)
    rw [swap_other other (under.trans (Fin.lt_last_iff_ne_last.mpr early)).ne, swap_other (Fin.pos_of_ne_zero other |>.trans under).ne' early]
    exact sorted i j above j.isLt parent
  exact fun i j above inside parent => sunk i.castSucc j.castSucc above inside parent

variable (less) in
/-- The first item leaves the heap, and all others stay. -/
theorem pop_perm (h : Fin (m + 1) → α) : (h 0 :: List.ofFn (pop less h).1).Perm (List.ofFn h) ∧ (pop less h).2 = h 0 := by
  obtain ⟨σ, same, fixed⟩ := down_perm less (h ∘ Equiv.swap 0 (Fin.last m)) (Nat.le_succ m) 0
  have last : (pop less h).2 = h 0 := by
    change (down less _ _ 0).1 (Fin.last m) = h 0
    rw [same, Function.comp_apply, fixed _ le_rfl, swap_second]
  refine ⟨?_, last⟩
  have whole : List.ofFn (down less (h ∘ Equiv.swap 0 (Fin.last m)) (Nat.le_succ m) 0).1 = List.ofFn (pop less h).1 ++ [(pop less h).2] := by
    rw [List.ofFn_succ', List.concat_eq_append]
    rfl
  rw [last, same] at whole
  have moved := (σ.ofFn_comp_perm _).trans ((Equiv.swap 0 (Fin.last m)).ofFn_comp_perm h)
  rw [whole] at moved
  exact (List.perm_append_singleton _ _).symm.trans moved

end Go.heap
