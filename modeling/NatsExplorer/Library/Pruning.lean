import Mathlib.Data.List.Basic

/-! Walks down a tree to a bounded depth, where the visitor of a node says whether the walk goes on below it.
The answer may depend on what the walk has seen so far; where it comes out as if it were settled from the
start, the walk is a fold over the nodes it would then visit. -/
namespace Pruning
variable {N S : Type*} (kids : N → List N)

/-- Visits a node and, as long as the visitor says so, what is below it. -/
def walk (visit : N → S → Bool × S) : ℕ → N → S → S
  | 0, n, s => (visit n s).2
  | left + 1, n, s =>
    let (go, s) := visit n s
    if go then (kids n).foldl (fun s n => walk visit left n s) s else s

/-- The nodes visited where it is settled below which the walk goes on. -/
def visits (keep : N → Bool) : ℕ → N → List N
  | 0, n => [n]
  | left + 1, n => n :: if keep n then (kids n).flatMap (visits keep left) else []

variable {kids} {visit : N → S → Bool × S} {keep : N → Bool} {act : N → S → S}

theorem fold_eq (Fits : S → Prop) (walks folds : N → S → S)
    (same : ∀ n s, Fits (walks n s) → Fits s ∧ walks n s = folds n s) (nodes : List N) (s : S) (fit : Fits (nodes.foldl (fun s n => walks n s) s)) :
    Fits s ∧ nodes.foldl (fun s n => walks n s) s = nodes.foldl (fun s n => folds n s) s := by
  induction nodes generalizing s with
  | nil => exact ⟨fit, rfl⟩
  | cons n nodes ih =>
    obtain ⟨first, rest⟩ := ih (walks n s) fit
    obtain ⟨start, step⟩ := same n s first
    refine ⟨start, ?_⟩
    rw [List.foldl_cons, rest, step, List.foldl_cons]

/-- A walk that ends in a state which fits was a fold all along, if whatever leads to such a state fits and
was answered as settled. -/
theorem walk_eq (Fits : S → Prop) (settled : ∀ n s, Fits (visit n s).2 → Fits s ∧ visit n s = (keep n, act n s)) (left : ℕ)
    (n : N) (s : S) (fit : Fits (walk kids visit left n s)) :
    Fits s ∧ walk kids visit left n s = (visits kids keep left n).foldl (fun s n => act n s) s := by
  induction left generalizing n s with
  | zero =>
    obtain ⟨before, answer⟩ := settled n s fit
    exact ⟨before, congrArg Prod.snd answer⟩
  | succ left ih =>
    simp only [walk, visits] at fit ⊢
    cases go : (visit n s).1 with
    | false =>
      rw [go] at fit
      obtain ⟨before, answer⟩ := settled n s fit
      rw [answer] at go
      refine ⟨before, ?_⟩
      rw [if_neg nofun, if_neg (by rw [show keep n = false from go]; nofun), answer]
      rfl
    | true =>
      rw [go] at fit
      obtain ⟨after, below⟩ := fold_eq Fits _ _ ih (kids n) (visit n s).2 fit
      obtain ⟨before, answer⟩ := settled n s after
      refine ⟨before, ?_⟩
      rw [if_pos rfl, below]
      rw [answer] at go ⊢
      rw [if_pos (show keep n = true from go), List.foldl_cons, List.foldl_flatMap]

variable (kids) in
/-- A walk followed step by step along all the nodes: where a visitor stops, nothing changes any more. -/
theorem walk_related {T : Type*} (R : S → T → Prop) (step : T → N → T) (each : ∀ n s t, R s t → R (visit n s).2 (step t n))
    (stops : ∀ n s t, R s t → (visit n s).1 = false → ∀ n', step (step t n) n' = step t n) (left : ℕ) (n : N) (s : S) (t : T)
    (related : R s t) : R (walk kids visit left n s) ((visits kids (fun _ => true) left n).foldl step t) := by
  induction left generalizing n s t with
  | zero => exact each n s t related
  | succ left ih =>
    simp only [walk, visits, if_true, List.foldl_cons, List.foldl_flatMap]
    have after : R (visit n s).2 (step t n) := each n s t related
    cases go : (visit n s).1 with
    | false =>
      have stays (nodes : List N) : nodes.foldl step (step t n) = step t n := by
        induction nodes with
        | nil => rfl
        | cons n' nodes ih => rw [List.foldl_cons, stops n s t related go n', ih]
      rw [if_neg nofun]
      have whole : (kids n).foldl (fun t n => (visits kids (fun _ => true) left n).foldl step t) (step t n) = step t n := by
        rw [← List.foldl_flatMap]
        exact stays _
      rw [whole]
      exact after
    | true =>
      rw [if_pos rfl]
      generalize kids n = nodes at *
      generalize (visit n s).2 = s at after ⊢
      generalize step t n = t at after ⊢
      induction nodes generalizing s t with
      | nil => exact after
      | cons n' nodes rest => exact rest _ _ (ih n' s t after)

end Pruning
