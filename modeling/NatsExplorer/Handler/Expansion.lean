import NatsExplorer.Handler.Template

/-! What becomes of a text with placeholders (`expandTemplate` in `internal/handler/run.go`). It is expanded from left to
right, each placeholder to what stands for it, unless the bounds of a random number are too far apart. -/
namespace NatsExplorer.Handler
open Go

/-- The bounds of a random number, the lower one first. -/
def Placeholder.bounds (lo hi : Str) : Int × Int := (min (atoi lo) (atoi hi), max (atoi lo) (atoi hi))

/-- What may stand for a placeholder. -/
inductive Stands (i now : Int) : Placeholder → Str → Prop where
  | i : Stands i now .i (Client.decimal i)
  | ts : Stands i now .ts (Client.decimal now)
  | uuid (bytes : Option (Fin 16 → UInt8)) : Stands i now .uuid (newUUID bytes)
  | rand {lo hi : Str} {n : Int} : (Placeholder.bounds lo hi).1 ≤ n → n ≤ (Placeholder.bounds lo hi).2 →
      Stands i now (.rand lo hi) (Client.decimal n)

/-- A text and what becomes of it: what is outside the placeholders stays, in its order. -/
inductive Expands (i now : Int) : Str → Str → Prop where
  | done : Expands i now [] []
  | text {c : Char} {s r : Str} : templateVar (c :: s) = none → Expands i now s r → Expands i now (c :: s) (c :: r)
  | placeholder {s rest v r : Str} {p : Placeholder} : templateVar s = some (p, rest) → Stands i now p v →
      Expands i now rest r → Expands i now s (v ++ r)

/-- The placeholders of a text, from left to right. -/
def placeholdersIn : ℕ → Str → List Placeholder
  | _, [] => []
  | 0, _ => []
  | fuel + 1, c :: s =>
    match templateVar (c :: s) with
    | some (p, rest) => p :: placeholdersIn fuel rest
    | none => placeholdersIn fuel s

def placeholders (s : Str) : List Placeholder := placeholdersIn s.length s

/-- As many numbers as an `int` can count lie between the bounds. -/
def Placeholder.Narrow : Placeholder → Prop
  | .rand lo hi => (Placeholder.bounds lo hi).2 - (Placeholder.bounds lo hi).1 + 1 < 2 ^ 63
  | _ => True

instance : DecidablePred Placeholder.Narrow
  | .rand _ _ => inferInstanceAs (Decidable (_ < _))
  | .i | .ts | .uuid => inferInstanceAs (Decidable True)

/-- `Intn` gives a number below its bound. -/
structure Draws.Lawful (draws : Draws) : Prop where
  natural (k : ℕ) (n : Int) : 0 < n → 0 ≤ draws.intn k n
  below (k : ℕ) (n : Int) : 0 < n → draws.intn k n < n

section Values
variable {s : Str} {p : Placeholder} {i now : Int} {draws : Draws} {k : ℕ}

theorem atoi_range (s : Str) : -2 ^ 63 ≤ atoi s ∧ atoi s < 2 ^ 63 := by
  have natural (digits : Str) (n : Int) (start : 0 ≤ n) :
      0 ≤ digits.foldl (fun (n : Int) (c : Char) => 10 * n + (c.toNat - '0'.toNat : Nat)) n := by
    induction digits generalizing n with
    | nil => exact start
    | cons c digits ih => exact ih _ (by dsimp only; omega)
  unfold atoi
  dsimp only
  split
  · next digits =>
    have := natural digits 0 le_rfl
    omega
  · have := natural s 0 le_rfl
    omega

/-- The width of a range wraps around exactly if it is none an `int` can hold. -/
theorem width_positive {lo hi : Int} (ordered : lo ≤ hi) (low : -2 ^ 63 ≤ lo) (high : hi < 2 ^ 63) :
    0 < (hi - lo + 1).bmod (2 ^ 64) ↔ hi - lo + 1 < 2 ^ 63 := by
  rw [Int.bmod_def]
  split <;> omega

theorem width_eq {lo hi : Int} (ordered : lo ≤ hi) (narrow : hi - lo + 1 < 2 ^ 63) : (hi - lo + 1).bmod (2 ^ 64) = hi - lo + 1 := by
  rw [Int.bmod_def]
  split <;> omega

theorem swapped (lo hi : Str) : (if atoi hi < atoi lo then (atoi hi, atoi lo) else (atoi lo, atoi hi)) = Placeholder.bounds lo hi := by
  unfold Placeholder.bounds
  split
  · next before => rw [min_eq_right before.le, max_eq_left before.le]
  · next after => rw [min_eq_left (not_lt.mp after), max_eq_right (not_lt.mp after)]

theorem rand_value (k : ℕ) (lo hi : Str) : (Placeholder.rand lo hi).value i now draws k =
    let (lo, hi) := Placeholder.bounds lo hi
    let n := (hi - lo + 1).bmod (2 ^ 64)
    if n ≤ 0 then none else some (Client.decimal (lo + draws.intn k n)) := by
  rw [Placeholder.value, swapped]

/-- Something is put in for a placeholder unless its bounds are too far apart. -/
theorem value_none : p.value i now draws k = none ↔ ¬ p.Narrow := by
  cases p with
  | rand lo hi =>
    have ordered : (Placeholder.bounds lo hi).1 ≤ (Placeholder.bounds lo hi).2 := (min_le_left _ _).trans (le_max_left _ _)
    have low : -2 ^ 63 ≤ (Placeholder.bounds lo hi).1 := le_min (atoi_range lo).1 (atoi_range hi).1
    have high : (Placeholder.bounds lo hi).2 < 2 ^ 63 := max_lt (atoi_range lo).2 (atoi_range hi).2
    rw [rand_value, Placeholder.Narrow, ← width_positive ordered low high]
    simp only [ite_eq_left_iff, reduceCtorEq, imp_false, not_not, not_lt]
  | _ => exact iff_of_false nofun fun wide => wide trivial

/-- What is put in stands for the placeholder. -/
theorem value_stands (lawful : draws.Lawful) {v : Str} (value : p.value i now draws k = some v) : Stands i now p v := by
  cases p with
  | i =>
    cases value
    exact .i
  | ts =>
    cases value
    exact .ts
  | uuid =>
    cases value
    exact .uuid _
  | rand lo hi =>
    have ordered : (Placeholder.bounds lo hi).1 ≤ (Placeholder.bounds lo hi).2 := (min_le_left _ _).trans (le_max_left _ _)
    have narrow : (Placeholder.rand lo hi).Narrow := not_not.mp fun wide => by
      rw [value_none.mpr wide] at value
      cases value
    rw [rand_value] at value
    dsimp only at value
    rw [width_eq ordered narrow] at value
    simp only [Option.ite_none_left_eq_some, Option.some.injEq] at value
    obtain ⟨positive, rfl⟩ := value
    have natural := lawful.natural k _ (not_le.mp positive)
    have below := lawful.below k _ (not_le.mp positive)
    exact .rand (by omega) (by omega)

end Values

section Expanded
variable {s : Str} {i now : Int} {draws : Draws}

/-- What comes out of a text is its expansion, and no bounds in it were too far apart. -/
theorem replaceAll_expands (lawful : draws.Lawful) {fuel k : ℕ} {r : Str} (ran : replaceAll i now draws fuel k s = some r) :
    Expands i now s r ∧ ∀ p ∈ placeholdersIn fuel s, p.Narrow := by
  induction fuel generalizing s k r with
  | zero =>
    cases s with
    | nil =>
      cases ran
      exact ⟨.done, nofun⟩
    | cons c s => cases ran
  | succ fuel ih =>
    cases s with
    | nil =>
      cases ran
      exact ⟨.done, nofun⟩
    | cons c s =>
      rw [replaceAll] at ran
      rw [placeholdersIn]
      cases found : templateVar (c :: s) with
      | none =>
        rw [found] at ran
        obtain ⟨r, later, rfl⟩ := Option.map_eq_some_iff.mp ran
        obtain ⟨expands, narrow⟩ := ih later
        exact ⟨.text found expands, narrow⟩
      | some both =>
        obtain ⟨p, rest⟩ := both
        simp only [found, Option.bind_eq_bind, Option.bind_eq_some_iff, Option.some.injEq] at ran
        obtain ⟨v, value, r, later, rfl⟩ := ran
        obtain ⟨expands, narrow⟩ := ih later
        have own : p.Narrow := not_not.mp fun wide => by
          rw [value_none.mpr wide] at value
          cases value
        exact ⟨.placeholder found (value_stands lawful value) expands, List.forall_mem_cons.mpr ⟨own, narrow⟩⟩

theorem replaceAll_returns {fuel k : ℕ} (enough : s.length ≤ fuel) (narrow : ∀ p ∈ placeholdersIn fuel s, p.Narrow) :
    ∃ r, replaceAll i now draws fuel k s = some r := by
  induction fuel generalizing s k with
  | zero =>
    obtain rfl := List.length_eq_zero_iff.mp (Nat.le_zero.mp enough)
    exact ⟨[], rfl⟩
  | succ fuel ih =>
    cases s with
    | nil => exact ⟨[], rfl⟩
    | cons c s =>
      rw [List.length_cons] at enough
      rw [placeholdersIn] at narrow
      rw [replaceAll]
      cases found : templateVar (c :: s) with
      | none =>
        rw [found] at narrow
        obtain ⟨r, later⟩ := ih (k := k) (by omega) narrow
        exact ⟨c :: r, by dsimp only; rw [later]; rfl⟩
      | some both =>
        obtain ⟨p, rest⟩ := both
        have shorter := templateVar_length found
        rw [List.length_cons] at shorter
        rw [found] at narrow
        obtain ⟨own, narrow⟩ := List.forall_mem_cons.mp narrow
        obtain ⟨r, later⟩ := ih (k := k + 1) (by omega : rest.length ≤ fuel) narrow
        cases value : p.value i now draws k with
        | none => exact absurd own (value_none.mp value)
        | some v => exact ⟨v ++ r, by simp [value, later]⟩

/-- A text without placeholders is its expansion. -/
theorem expands_self (none : ¬ Placed s) : Expands i now s s ∧ ∀ fuel, placeholdersIn fuel s = [] := by
  induction s with
  | nil => exact ⟨.done, fun fuel => by cases fuel <;> rfl⟩
  | cons c s ih =>
    obtain ⟨first, rest⟩ := not_placed_cons.mp none
    obtain ⟨expands, empty⟩ := ih rest
    refine ⟨.text first expands, fun fuel => ?_⟩
    cases fuel with
    | zero => rfl
    | succ fuel =>
      rw [placeholdersIn, first]
      exact empty fuel

/-- The text is returned with every placeholder expanded, exactly if no bounds of a random number in it are too far apart. -/
theorem expandTemplate_iff (lawful : draws.Lawful) (s : Str) :
    (∃ r, expandTemplate s i now draws = some r ∧ Expands i now s r) ↔ ∀ p ∈ placeholders s, p.Narrow := by
  unfold expandTemplate placeholders
  split
  · constructor
    · exact fun ⟨r, ran, _⟩ => (replaceAll_expands lawful ran).2
    · intro narrow
      obtain ⟨r, ran⟩ := replaceAll_returns (k := 0) le_rfl narrow
      exact ⟨r, ran, (replaceAll_expands lawful ran).1⟩
  · next without =>
    have self : Expands i now s s ∧ ∀ fuel, placeholdersIn fuel s = [] := expands_self fun placed => without (contains_of_placed placed)
    obtain ⟨expands, empty⟩ := self
    rw [empty]
    exact iff_of_true ⟨s, rfl, expands⟩ nofun

end Expanded

/-- A source that always draws the least number. -/
def leastDraws : Draws where
  bytes _ := none
  intn _ _ := 0

theorem leastDraws_lawful : leastDraws.Lawful where
  natural _ _ _ := le_rfl
  below _ _ positive := positive

theorem expandTemplate_turned :
    ∃ r, expandTemplate "n={{ rand:5-2 }}".toList 1 0 leastDraws = some r ∧ Expands 1 0 "n={{ rand:5-2 }}".toList r :=
  (expandTemplate_iff leastDraws_lawful _).mpr (by decide)

/-- The numbers from 0 to the largest are one more than the largest. -/
theorem expandTemplate_panics : ¬ ∀ (s : Str) (i now : Int) (draws : Draws), draws.Lawful →
    ∃ r, expandTemplate s i now draws = some r ∧ Expands i now s r := by
  intro returns
  obtain ⟨r, ran, -⟩ := returns "{{rand:0-9223372036854775807}}".toList 1 0 leastDraws leastDraws_lawful
  have panics : expandTemplate "{{rand:0-9223372036854775807}}".toList 1 0 leastDraws = none := by decide
  rw [panics] at ran
  cases ran

end NatsExplorer.Handler
