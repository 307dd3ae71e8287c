import NatsExplorer.Alerts.Subjects
import NatsExplorer.Library.Circular
import Mathlib.Data.List.GetD

/-! The pause a subject learns (`noteGap`, `typicalGap` and `checkStale` in `alerts.go`), over every run of messages and
ticks. -/
namespace NatsExplorer.Alerts
open Go

/-- The pauses between messages at these times, as far as they are positive and the first of the two has a time. -/
def noted (times : List Int) : List Int :=
  (times.zip times.tail).filterMap fun (last, now) => if 0 < last ∧ last < now then some (now - last) else none

theorem noted_append (times : List Int) (now : Int) : noted (times ++ [now]) =
    noted times ++
      if 0 < times.getLast?.getD 0 ∧ times.getLast?.getD 0 < now then [now - times.getLast?.getD 0] else [] := by
  induction times with
  | nil => simp [noted]
  | cons first rest ih =>
    cases rest with
    | nil =>
      by_cases positive : 0 < first ∧ first < now
      · simp [noted, positive]
      · simp [noted, positive]
    | cons second rest =>
      have last : (first :: second :: rest).getLast? = (second :: rest).getLast? := List.getLast?_cons_cons
      have step (l : List Int) : noted (first :: second :: l) =
          (if 0 < first ∧ first < second then [second - first] else []) ++ noted (second :: l) := by
        simp only [noted, List.tail_cons, List.zip_cons_cons, List.filterMap_cons]
        split <;> simp_all
      rw [last, List.cons_append, List.cons_append, step, step, List.append_assoc, ← ih]
      rfl

theorem noted_positive {times : List Int} {gap : Int} (member : gap ∈ noted times) : 0 < gap := by
  obtain ⟨⟨last, now⟩, -, kept⟩ := List.mem_filterMap.mp member
  simp only [Option.ite_none_right_eq_some, Option.some.injEq] at kept
  omega

/-- A message or a tick, under the rule of the moment. -/
inductive Beat (F : Type) where
  | message (c : Compiled F) (r : Record) (now : Int)
  | tick (c : Compiled F) (now : Int)

/-- The times of the messages. -/
def messageTimes {F : Type} (beats : List (Beat F)) : List Int :=
  beats.filterMap fun
    | .message _ _ now => some now
    | .tick _ _ => none

namespace SubjectState
variable {F : Type}

/-- What the learned pause is taken from. -/
def rhythm (st : SubjectState F) : Int × List Int × Nat := (st.lastSeen, st.gaps, st.gapsN)

/-- The state has noted the pauses between messages at these times. -/
structure Noted (st : SubjectState F) (times : List Int) : Prop where
  last : st.lastSeen = times.getLast?.getD 0
  count : st.gapsN = (noted times).length
  ring : Circular.Latest staleWindow st.gaps (noted times)

theorem Noted.arrive {st : SubjectState F} {times : List Int} (known : st.Noted times) (now : Int) :
    (st.arrive now).1.Noted (times ++ [now]) := by
  have last := known.last
  have grown := noted_append times now
  rw [← last] at grown
  unfold SubjectState.arrive noteGap
  split
  · next positive =>
    rw [if_pos positive] at grown
    refine ⟨?_, ?_, ?_⟩
    · rw [List.getLast?_concat]
      rfl
    · rw [grown, List.length_append]
      exact congrArg (· + 1) known.count
    · rw [grown]
      dsimp only
      rw [known.count]
      exact known.ring.write (by decide) _
  · next idle =>
    rw [if_neg idle, List.append_nil] at grown
    refine ⟨?_, ?_, ?_⟩
    · rw [List.getLast?_concat]
      rfl
    · rw [grown]
      exact known.count
    · rw [grown]
      exact known.ring

theorem Noted.congr {st st' : SubjectState F} {times : List Int} (known : st.Noted times) (same : st'.rhythm = st.rhythm) :
    st'.Noted times := by
  simp only [rhythm, Prod.mk.injEq] at same
  exact ⟨same.1.trans known.last, same.2.2.trans known.count, same.2.1 ▸ known.ring⟩

variable [Numbers F]

theorem observe_rhythm [Payloads F] (c : Compiled F) (r : Record) (now : Int) (st : SubjectState F) :
    (st.observe c r now).1.rhythm = (st.arrive now).1.rhythm := by
  have woken (st : SubjectState F) : (wake r st).1.rhythm = st.rhythm := by
    unfold wake
    split <;> rfl
  have entered (st : SubjectState F) : (enter c r now st).1.rhythm = st.rhythm := by
    unfold enter
    split <;> rfl
  have tracked (st : SubjectState F) : (track c r now st).1.rhythm = st.rhythm := by
    unfold track
    split
    · simp only
      split <;> rfl
    · rfl
  have evaluated (st : SubjectState F) : (evaluate c r now st).1.rhythm = st.rhythm := by
    unfold evaluate
    split
    · simp only
      split <;> rfl
    · split <;> rfl
  simp only [observe, andThen]
  rw [evaluated, tracked, entered, woken]

theorem tick_rhythm (c : Compiled F) (now : Int) (st : SubjectState F) : (st.tick c now).1.rhythm = st.rhythm := by
  have stuck (st : SubjectState F) : (checkStuck c now st).1.rhythm = st.rhythm := by
    unfold checkStuck
    split <;> rfl
  obtain ⟨b, stale, -⟩ := checkStale_spec c now st
  obtain ⟨pv, rate, -⟩ := checkRate_spec c now (checkStale c now st).1
  obtain ⟨pv', level, -⟩ := checkLevel_spec c now (checkRate c now (checkStale c now st).1).1
  simp only [tick, checkWindow, andThen, stuck]
  rw [level, rate, stale]
  rfl

variable [Payloads F]

/-- The state after a run. -/
def run : SubjectState F → List (Beat F) → SubjectState F
  | st, [] => st
  | st, .message c r now :: beats => run (st.observe c r now).1 beats
  | st, .tick c now :: beats => run (st.tick c now).1 beats

theorem Noted.run {st : SubjectState F} {times : List Int} (known : st.Noted times) (beats : List (Beat F)) :
    (st.run beats).Noted (times ++ messageTimes beats) := by
  induction beats generalizing st times with
  | nil => rwa [SubjectState.run, messageTimes, List.filterMap_nil, List.append_nil]
  | cons beat beats ih =>
    cases beat with
    | message c r now =>
      have next := ih ((known.arrive now).congr (observe_rhythm c r now st))
      rwa [List.append_assoc] at next
    | tick c now => exact ih (known.congr (tick_rhythm c now st))

omit [Numbers F] [Payloads F] in
theorem noted_fresh (ruleID connID subject : Str) : (fresh ruleID connID subject : SubjectState F).Noted [] :=
  ⟨rfl, rfl, Circular.Latest.fresh rfl⟩

variable {st : SubjectState F} {times : List Int}

omit [Numbers F] [Payloads F] in
/-- The learned pause is the upper quartile of the recent ones. -/
theorem Noted.typicalGap (known : st.Noted times) (enough : 8 ≤ (noted times).length) :
    ∃ sorted : List Int, sorted.Perm ((noted times).drop ((noted times).length - 16)) ∧ sorted.Pairwise (· ≤ ·) ∧
      sorted[min 16 (noted times).length * 3 / 4]? = some st.typicalGap := by
  have count := known.count
  have perm := known.ring.perm
  rw [← count] at enough perm
  refine ⟨(st.gaps.take (min st.gapsN staleWindow)).insertionSort (· ≤ ·), ?_, ?_, ?_⟩
  · rw [← count]
    exact (List.perm_insertionSort _ _).trans perm
  · exact List.pairwise_insertionSort _ _
  · have size : ((st.gaps.take (min st.gapsN staleWindow)).insertionSort (· ≤ ·)).length = min st.gapsN 16 := by
      rw [List.length_insertionSort, List.length_take, known.ring.size]
      exact Nat.min_eq_left (Nat.min_le_right ..)
    have learned : ¬ min st.gapsN staleWindow < staleMinGaps := by
      simp only [staleWindow, staleMinGaps]
      omega
    have used : min 16 st.gapsN = min st.gapsN staleWindow := Nat.min_comm ..
    have rank : min st.gapsN staleWindow * 3 / 4 <
        ((st.gaps.take (min st.gapsN staleWindow)).insertionSort (· ≤ ·)).length := by
      rw [size, ← used]
      omega
    rw [SubjectState.typicalGap, if_neg learned, ← count, used, List.getElem?_eq_getElem rank]
    exact congrArg some (List.getD_eq_getElem _ _ rank).symm

omit [Numbers F] [Payloads F] in
/-- A subject that has not shown a rhythm has no learned pause. -/
theorem Noted.unlearned (known : st.Noted times) (few : (noted times).length < 8) : st.typicalGap = 0 := by
  have count := known.count
  refine if_pos ?_
  simp only [staleWindow, staleMinGaps]
  omega

omit [Numbers F] [Payloads F] in
theorem Noted.typicalGap_nonneg (known : st.Noted times) : 0 ≤ st.typicalGap := by
  rcases Nat.lt_or_ge (noted times).length 8 with few | enough
  · rw [known.unlearned few]
  · obtain ⟨sorted, perm, -, rank⟩ := known.typicalGap enough
    have member := List.mem_of_mem_drop (perm.subset (List.mem_of_getElem? rank))
    exact (noted_positive member).le

omit [Numbers F] [Payloads F] in
/-- A learned threshold is passed by a long silence only, while it fits in 64 bits. -/
theorem Noted.silent (known : st.Noted times) {c : Compiled F} (auto : c.staleAuto = true) (fits : st.typicalGap * 10 < 2 ^ 63)
    {now : Int} (fires : st.silent c now = true) :
    8 ≤ (noted times).length ∧ st.typicalGap * 10 < now - times.getLast?.getD 0 := by
  have positive := known.typicalGap_nonneg
  have exact_ : mul64 st.typicalGap staleFactor = st.typicalGap * 10 :=
    Int.bmod_eq_of_le_mul_two (by simp only [staleFactor]; omega) (by simp only [staleFactor]; omega)
  have after : st.staleAfter c =
      if st.typicalGap * 10 = 0 then none else some (max (st.typicalGap * 10) (mul64 c.staleAfter 1000)) := by
    rw [staleAfter, if_neg (by simp [auto])]
    simp only [auto, if_true, exact_]
  rw [SubjectState.silent, after] at fires
  rw [← known.last]
  by_cases unlearned : st.typicalGap * 10 = 0
  · rw [if_pos unlearned] at fires
    contradiction
  · rw [if_neg unlearned] at fires
    simp only [Bool.and_eq_true, decide_eq_true_eq] at fires
    refine ⟨?_, by omega⟩
    by_contra few
    have := known.unlearned (not_le.mp few)
    omega

end SubjectState

/-- After any run, the learned pause is the upper quartile of the last pauses, and the stale check of a learned threshold
fires only after ten times as much silence, while that fits in 64 bits. -/
theorem learned_pause {F : Type} [Numbers F] [Payloads F] (ruleID connID subject : Str) (beats : List (Beat F)) (c : Compiled F)
    (now : Int) :
    let st := (SubjectState.fresh ruleID connID subject).run beats
    let gaps := noted (messageTimes beats)
    (8 ≤ gaps.length → ∃ sorted : List Int, sorted.Perm (gaps.drop (gaps.length - 16)) ∧ sorted.Pairwise (· ≤ ·) ∧
      sorted[min 16 gaps.length * 3 / 4]? = some st.typicalGap) ∧
    (c.staleAuto = true → st.typicalGap * 10 < 2 ^ 63 → (st.checkStale c now).2 ≠ [] →
      8 ≤ gaps.length ∧ st.typicalGap * 10 < now - (messageTimes beats).getLast?.getD 0) := by
  intro st gaps
  have known : st.Noted (messageTimes beats) := (SubjectState.noted_fresh ruleID connID subject).run beats
  refine ⟨known.typicalGap, fun auto fits fires => known.silent auto fits ?_⟩
  by_contra quiet
  refine fires ?_
  rw [SubjectState.checkStale, if_neg fun both => quiet both.2]

section Sample
attribute [local instance] Engine.sampleNumbers Engine.samplePayloads

def learning : Compiled Int where
  id := ['r']
  name := ['n']
  pattern := ['>']
  staleAuto := true
  enabled := true
  prog := none

/-- Messages at these times. -/
def beatsAt (times : List Int) : List (Beat Int) := times.map (.message learning Engine.beat)

def seconds : List (Beat Int) := beatsAt [1000, 2000, 3000, 4000, 5000, 6000, 7000, 8000, 9000]

theorem learned_pause_seconds :
    let st := (SubjectState.fresh ['r'] ['c'] ['s']).run seconds
    (8 ≤ 8 ∧ ∃ sorted : List Int, sorted.Perm (List.replicate 8 1000) ∧ sorted.Pairwise (· ≤ ·) ∧
        sorted[min 16 8 * 3 / 4]? = some st.typicalGap) ∧
      (learning.staleAuto = true ∧ st.typicalGap * 10 < 2 ^ 63 ∧ (st.checkStale learning 20000).2 ≠ []) ∧
      8 ≤ 8 ∧ st.typicalGap * 10 < 20000 - 9000 := by
  intro st
  have claim := learned_pause ['r'] ['c'] ['s'] seconds learning 20000
  have fits : st.typicalGap * 10 < 2 ^ 63 := by decide +kernel
  have fires : (st.checkStale learning 20000).2 ≠ [] := List.ne_nil_of_length_pos (by decide +kernel)
  exact ⟨⟨le_rfl, claim.1 (by decide)⟩, ⟨rfl, fits, fires⟩, claim.2 rfl fits fires⟩

/-- Pauses of thirty million years: ten of them are more than 64 bits have, and a pause of a millisecond is stale. -/
theorem learned_pause_wraps :
    let st := (SubjectState.fresh ['r'] ['c'] ['s']).run (beatsAt (List.replicate 8 [1, 2 ^ 60 + 1]).flatten)
    learning.staleAuto = true ∧ (st.checkStale learning (2 ^ 60 + 2)).2 ≠ [] ∧
      ¬ st.typicalGap * 10 < (2 ^ 60 + 2) - st.lastSeen := by
  intro st
  exact ⟨rfl, List.ne_nil_of_length_pos (by decide +kernel), by decide +kernel⟩

end Sample

end NatsExplorer.Alerts
