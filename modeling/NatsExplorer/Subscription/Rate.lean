import NatsExplorer.Library.SlidingWindow
import NatsExplorer.Library.Transition
import Mathlib.Algebra.Field.Rat
import Mathlib.Data.BitVec
import Mathlib.Data.Int.Order.Basic

/-! The rate of a subject (`internal/subscription/rate.go`): a counter for each of the last ten seconds, and the second the
newest of them is for. However it is hit and read, it counts the window that ends now. -/
namespace NatsExplorer.Subscription.Rate
open Transition SlidingWindow

/-- `float64`, as far as a rate needs it. -/
class Floats (F : Type) where
  ofNat : ℕ → F
  div : F → F → F
  zero_div (n : ℕ) : 0 < n → div (ofNat 0) (ofNat n) = ofNat 0

def rateWindowSec : ℕ := 10

instance : NeZero rateWindowSec := ⟨by decide⟩

/-- `sec` is 0 before the first hit; the counters are `uint32`. -/
structure RateBuckets where
  buckets : Fin rateWindowSec → BitVec 32
  sec : ℤ

namespace RateBuckets

def empty : RateBuckets where
  buckets _ := 0
  sec := 0

/-- Moves the window on, clearing the seconds it skipped. -/
def advance (r : RateBuckets) (sec : ℤ) : RateBuckets :=
  if r.sec = 0 then { r with sec := sec }
  else if sec ≤ r.sec then r
  else if rateWindowSec ≤ sec - r.sec then { buckets := fun _ => 0, sec := sec }
  else
    { buckets := (List.range (sec - r.sec).toNat).foldl
        (fun buckets (i : ℕ) => Function.update buckets (cell rateWindowSec (r.sec + 1 + i)) 0) r.buckets
      sec := sec }

/-- A message at a time in milliseconds. -/
def hit (r : RateBuckets) (nowMs : ℤ) : RateBuckets :=
  let sec := nowMs.tdiv 1000
  let r := r.advance sec
  if r.sec ≤ sec then
    { r with buckets := Function.update r.buckets (cell rateWindowSec sec) (r.buckets (cell rateWindowSec sec) + 1) }
  else r

variable {F : Type} [Floats F]

/-- Messages per second over the window that ends now. -/
def value (r : RateBuckets) (nowMs : ℤ) : RateBuckets × F :=
  if r.sec = 0 then (r, Floats.ofNat 0)
  else
    let r := r.advance (nowMs.tdiv 1000)
    let sum := ∑ i, r.buckets i
    (r, Floats.div (Floats.ofNat sum.toNat) (Floats.ofNat rateWindowSec))

end RateBuckets

/-- What a subject's rate is asked for, with the time. -/
inductive Call where
  | hit (nowMs : ℤ)
  | value (nowMs : ℤ)

def Call.time : Call → ℤ
  | .hit t | .value t => t

def Call.second (c : Call) : ℤ := c.time / 1000

def Call.isHit : Call → Bool
  | .hit _ => true
  | .value _ => false

def step (F : Type) [Floats F] (r : RateBuckets) : Call → RateBuckets
  | .hit t => r.hit t
  | .value t => (r.value (F := F) t).1

/-- How many hits there were in a second. -/
def hitsAt (calls : List Call) (s : ℤ) : ℕ := calls.countP fun c => c.isHit ∧ c.second = s

/-- The counters are for the window that ends at `sec`, which is the second of the last call since the first hit. -/
structure Kept (r : RateBuckets) (calls : List Call) : Prop where
  fresh : r.sec = 0 → r.buckets = (fun _ => 0) ∧ ∀ c ∈ calls, c.isHit = false
  counts : r.sec ≠ 0 → Counts r.buckets r.sec (hitsAt calls)
  latest : r.sec ≠ 0 → ∀ c ∈ calls, c.second ≤ r.sec
  reached : r.sec ≠ 0 → ∃ c ∈ calls, c.second = r.sec

section Invariant
variable {r : RateBuckets} {calls : List Call} {sec : ℤ}

theorem hitsAt_later (kept : Kept r calls) (started : r.sec ≠ 0) {s : ℤ} (later : r.sec < s) : hitsAt calls s = 0 := by
  refine List.countP_eq_zero.mpr fun c there hit => ?_
  have := kept.latest started c there
  have here := (of_decide_eq_true hit).2
  omega

theorem advance_sec (forward : r.sec ≤ sec) : (r.advance sec).sec = sec := by
  unfold RateBuckets.advance
  split
  · rfl
  split
  · next last => exact le_antisymm forward last
  split <;> rfl

/-- Moving on keeps what is counted: the seconds it clears have left the window. -/
theorem Kept.advance (kept : Kept r calls) (after : r.sec ≤ sec) :
    Counts (r.advance sec).buckets sec (hitsAt calls) := by
  by_cases started : r.sec = 0
  · obtain ⟨clear, none⟩ := kept.fresh started
    have buckets : (r.advance sec).buckets = fun _ => 0 := by rw [RateBuckets.advance, if_pos started, clear]
    rw [buckets]
    refine counts_zero fun s _ => List.countP_eq_zero.mpr fun c there hit => ?_
    have := (of_decide_eq_true hit).1
    rw [none c there] at this
    cases this
  · have counts := kept.counts started
    have none := fun s => hitsAt_later kept started (s := s)
    unfold RateBuckets.advance
    rw [if_neg started]
    split
    · next last => exact le_antisymm after last ▸ counts
    split
    · next far => exact counts_zero fun s inside => none s (by omega)
    · next near =>
      have moved := counts.forward none (sec - r.sec).toNat
      rwa [show r.sec + ((sec - r.sec).toNat : ℤ) = sec by omega] at moved

theorem kept_empty : Kept RateBuckets.empty [] where
  fresh _ := ⟨rfl, nofun⟩
  counts started := absurd rfl started
  latest started := absurd rfl started
  reached started := absurd rfl started

/-- A call that is no hit is not counted. -/
theorem hitsAt_value {c : Call} (read : c.isHit = false) : hitsAt (calls ++ [c]) = hitsAt calls := by
  funext s
  simp [hitsAt, read]

theorem hitsAt_hit {c : Call} (hit : c.isHit = true) :
    hitsAt (calls ++ [c]) = Function.update (hitsAt calls) c.second (hitsAt calls c.second + 1) := by
  funext s
  by_cases here : s = c.second
  · subst here
    simp [hitsAt, hit]
  · rw [Function.update_of_ne here]
    simp [hitsAt, Ne.symm here]

/-- The second of a call is not before any the counters have come to. -/
theorem Kept.after (kept : Kept r calls) {c : Call} (forward : ∀ d ∈ calls, d.time ≤ c.time) (late : 1000 ≤ c.time) : r.sec ≤ c.second := by
  by_cases started : r.sec = 0
  · have : 1 ≤ c.second := by
      unfold Call.second
      omega
    omega
  · obtain ⟨d, there, second⟩ := kept.reached started
    have := forward d there
    rw [← second, Call.second, Call.second]
    omega

theorem kept_step (F : Type) [Floats F] (kept : Kept r calls) (c : Call) (forward : ∀ d ∈ calls, d.time ≤ c.time) (late : 1000 ≤ c.time) :
    Kept (step F r c) (calls ++ [c]) := by
  have after := kept.after forward late
  have positive : 0 < c.second := by
    unfold Call.second
    omega
  have second : c.time.tdiv 1000 = c.second := Int.tdiv_eq_ediv_of_nonneg (by omega)
  have latest : ∀ d ∈ calls ++ [c], d.second ≤ c.second := by
    intro d there
    rcases List.mem_append.mp there with before | last
    · have := forward d before
      unfold Call.second
      omega
    · rw [List.mem_singleton.mp last]
  have moved := advance_sec after
  have counts := kept.advance after
  have there : ∃ d ∈ calls ++ [c], d.second = c.second := ⟨c, List.mem_append_right _ (List.mem_singleton.mpr rfl), rfl⟩
  cases c with
  | hit t =>
    have counted : (r.hit t).buckets = Function.update (r.advance (Call.hit t).second).buckets (cell rateWindowSec (Call.hit t).second)
        ((r.advance (Call.hit t).second).buckets (cell rateWindowSec (Call.hit t).second) + 1) ∧ (r.hit t).sec = (Call.hit t).second := by
      have second : t.tdiv 1000 = (Call.hit t).second := second
      simp only [RateBuckets.hit, second, moved, le_refl, if_true, and_self]
    obtain ⟨buckets, sec⟩ := counted
    change Kept (r.hit t) _
    have started : (r.hit t).sec ≠ 0 := by
      rw [sec]
      exact positive.ne'
    refine ⟨fun none => absurd none started, fun _ => ?_, fun _ => ?_, fun _ => ?_⟩
    · rw [buckets, sec, hitsAt_hit rfl]
      exact counts.add
    · rwa [sec]
    · rwa [sec]
  | value t =>
    by_cases started : r.sec = 0
    · obtain ⟨clear, none⟩ := kept.fresh started
      have same : step F r (.value t) = r := by simp only [step, RateBuckets.value, if_pos started]
      rw [same]
      refine ⟨fun _ => ⟨clear, fun d member => ?_⟩, fun other => absurd started other, fun other => absurd started other,
        fun other => absurd started other⟩
      rcases List.mem_append.mp member with before | last
      · exact none d before
      · rw [List.mem_singleton.mp last]
        rfl
    · have second : t.tdiv 1000 = (Call.value t).second := second
      have advanced : step F r (.value t) = r.advance (Call.value t).second := by
        simp only [step, RateBuckets.value, if_neg started, second]
      rw [advanced]
      refine ⟨fun none => absurd (moved.symm.trans none) positive.ne', fun _ => ?_, fun _ => ?_, fun _ => ?_⟩
      · rw [hitsAt_value rfl, moved]
        exact counts
      · rwa [moved]
      · rwa [moved]

/-- However it was called, the counters are for the window. -/
theorem kept_run (F : Type) [Floats F] (calls : List Call) (ordered : calls.Pairwise fun c d => c.time ≤ d.time)
    (late : ∀ c ∈ calls, 1000 ≤ c.time) : Kept (run (step F) .empty calls) calls := by
  induction calls using List.reverseRecOn with
  | nil => exact kept_empty
  | append_singleton calls c ih =>
    obtain ⟨before, -, forward⟩ := List.pairwise_append.mp ordered
    rw [run_append]
    exact kept_step F (ih before fun d there => late d (List.mem_append_left _ there)) c
      (fun d there => forward d there c (List.mem_singleton.mpr rfl)) (late c (List.mem_append_right _ (List.mem_singleton.mpr rfl)))

end Invariant

/-- The hits of the window that ends at a time. -/
def inWindow (calls : List Call) (nowMs : ℤ) : ℕ :=
  calls.countP fun c => c.isHit ∧ nowMs / 1000 - rateWindowSec < c.second ∧ c.second ≤ nowMs / 1000

/-- The rate is what was hit in the window, over its length, whatever was hit and read before. -/
theorem rate_window {F : Type} [Floats F] (calls : List Call) (nowMs : ℤ) (ordered : calls.Pairwise fun c d => c.time ≤ d.time)
    (late : ∀ c ∈ calls, 1000 ≤ c.time) (now : 1000 ≤ nowMs ∧ ∀ c ∈ calls, c.time ≤ nowMs) (few : inWindow calls nowMs < 2 ^ 32) :
    ((run (step F) .empty calls).value nowMs).2 = (Floats.div (Floats.ofNat (inWindow calls nowMs)) (Floats.ofNat rateWindowSec) : F) := by
  have kept := kept_run F calls ordered late
  generalize run (step F) .empty calls = r at kept
  have second : nowMs.tdiv 1000 = nowMs / 1000 := Int.tdiv_eq_ediv_of_nonneg (by omega)
  by_cases started : r.sec = 0
  · have none : inWindow calls nowMs = 0 := List.countP_eq_zero.mpr fun c there hit => by
      have := (of_decide_eq_true hit).1
      rw [(kept.fresh started).2 c there] at this
      cases this
    rw [RateBuckets.value, if_pos started, none, Floats.zero_div _ (by decide)]
  · have after : r.sec ≤ nowMs / 1000 := kept.after (c := .value nowMs) now.2 now.1
    have sum := (kept.advance after).sum
    have hits : ∑ s ∈ Finset.Ioc (nowMs / 1000 - rateWindowSec) (nowMs / 1000), hitsAt calls s = inWindow calls nowMs :=
      sum_countP Call.isHit Call.second calls _ _
    rw [RateBuckets.value, if_neg started, second]
    dsimp only
    rw [sum, hits, BitVec.natCast_eq_ofNat, BitVec.toNat_ofNat, Nat.mod_eq_of_lt few]

@[reducible] def rationals : Floats ℚ where
  ofNat n := n
  div a b := a / b
  zero_div n _ := by rw [Nat.cast_zero, zero_div]

attribute [local instance] rationals

/-- Three hits, one of them after the rate was read. -/
def beats : List Call := [.hit 30000, .hit 30500, .value 30600, .hit 31000]

theorem rate_window_beats : ((run (step ℚ) .empty beats).value 39999).2 = (3 / 10 : ℚ) := by
  have hits : inWindow beats 39999 = 3 := by decide
  have rate := rate_window (F := ℚ) beats 39999 (by decide) (by decide) (by decide) (by decide)
  rw [rate, hits]
  rfl

end NatsExplorer.Subscription.Rate
