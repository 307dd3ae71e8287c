import NatsExplorer.Library.Places
import NatsExplorer.Subscription.Handoff

/-! No delivery is lost or doubled on its way to the worker, whatever the
producers and the flusher do to each other. -/
namespace NatsExplorer.Subscription
open Go History

inductive Place (P : Type) where
  | pend
  | held (a : Option P)
  | queue
  | work
  | processed
  deriving DecidableEq

namespace HandOff
variable {P : Type} [DecidableEq P] {connID : Str} {mine : Str → Bool}

def contents (s : HandOff P) : Place P → List Delivery
  | .pend => s.shard.pend
  | .held a => s.held a
  | .queue => s.shard.queue.flatten
  | .work => s.work
  | .processed => s.processed

structure Conserved (s : HandOff P) : Prop where
  once : Places.Once s.contents s.entered
  /-- A producer on its way into `enqueue` has no batch to send. -/
  ready {p d} : s.arriving p = some d → s.held (some p) = []
  numbered {p d} : s.arriving p = some d → d.seq ≤ s.totalRecv
  enteredBelow {d} : d ∈ s.entered → d.seq ≤ s.totalRecv
  fresh {p d} : s.arriving p = some d → d ∉ s.entered
  apart {p q d d'} : s.arriving p = some d → s.arriving q = some d' → p ≠ q → d ≠ d'

/-- The sizes of batches. -/
structure Sized (s : HandOff P) : Prop where
  pend : s.shard.pend.length < batchSize
  full {p} : s.held (some p) ≠ [] → (s.held (some p)).length = batchSize
  flushed : (s.held none).length < batchSize

omit [DecidableEq P] in
theorem Idle.conserved {s : HandOff P} (idle : s.Idle) : s.Conserved where
  once := by
    rw [idle.entered]
    apply Places.Once.nowhere
    intro place
    cases place with
    | pend => exact idle.pend
    | held a => exact idle.held a
    | queue =>
      simp only [contents, idle.queue, List.flatten_nil]
    | work => exact idle.work
    | processed => exact idle.processed
  ready := by simp only [idle.arriving, reduceCtorEq, false_implies, implies_true]
  numbered := by simp only [idle.arriving, reduceCtorEq, false_implies, implies_true]
  enteredBelow := by simp only [idle.entered, List.not_mem_nil, false_implies, implies_true]
  fresh := by simp only [idle.arriving, reduceCtorEq, false_implies, implies_true]
  apart := by simp only [idle.arriving, reduceCtorEq, false_implies, implies_true]

/-- A delivery enters `pend`, and a full batch goes on to its producer. -/
theorem enqueue_once {s : HandOff P} {p : P} {d : Delivery} (once : Places.Once s.contents s.entered)
    (fresh : d ∉ s.entered) (ready : s.held (some p) = []) :
    Places.Once (contents { s with
      shard := (s.shard.enqueue d).1
      arriving := Function.update s.arriving p none
      held := Function.update s.held (some p) (s.shard.enqueue d).2
      entered := s.entered ++ [d] }) (s.entered ++ [d]) := by
  have added : Places.Once (Function.update s.contents .pend (s.shard.pend ++ [d]))
      (s.entered ++ [d]) := by
    apply once.add fresh
    · rw [Function.update_self]
      exact .refl _
    · intro place elsewhere
      exact Function.update_of_ne elsewhere _ _
  unfold Shard.enqueue
  simp only
  split
  · convert added using 1
    funext place
    cases place with
    | pend => rfl
    | held a =>
      simp only [contents, ne_eq, reduceCtorEq, not_false_eq_true, Function.update_of_ne]
      by_cases here : a = some p
      · rw [here, Function.update_self, ready]
      · rw [Function.update_of_ne here]
    | queue => rfl
    | work => rfl
    | processed => rfl
  · apply added.move (x := .pend) (y := .held (some p)) (by simp)
    · simp only [Function.update_self, contents]
      rw [List.append_nil]
    · simp only [contents, Function.update_self, ne_eq, reduceCtorEq, not_false_eq_true,
        Function.update_of_ne, ready]
      exact .refl _
    · intro place notPend notHeld
      rw [Function.update_of_ne notPend]
      cases place with
      | pend => exact absurd rfl notPend
      | held a =>
        have other : a ≠ some p := fun same => notHeld (congrArg Place.held same)
        simp only [contents, Function.update_of_ne other]
      | queue => rfl
      | work => rfl
      | processed => rfl

omit [DecidableEq P] in
theorem Conserved.moved {s s' : HandOff P} (conserved : s.Conserved)
    (totalRecv : s'.totalRecv = s.totalRecv) (arriving : s'.arriving = s.arriving)
    (entered : s'.entered = s.entered) (held : ∀ p, s.held (some p) = [] → s'.held (some p) = [])
    (once : Places.Once s'.contents s.entered) : s'.Conserved where
  once := entered ▸ once
  ready coming := held _ (conserved.ready (arriving ▸ coming))
  numbered coming := totalRecv ▸ conserved.numbered (arriving ▸ coming)
  enteredBelow member := totalRecv ▸ conserved.enteredBelow (entered ▸ member)
  fresh coming := entered ▸ conserved.fresh (arriving ▸ coming)
  apart coming coming' := conserved.apart (arriving ▸ coming) (arriving ▸ coming')

theorem step_conserved {s s' : HandOff P} {act : Act P} (conserved : s.Conserved)
    (step : Step connID mine s act s') : s'.Conserved := by
  cases step with
  | @receive p msg now free ready _ =>
    have cases_of {q d} (coming : Function.update s.arriving p
        (some ⟨msg, s.totalRecv + 1, now⟩) q = some d) :
        (q = p ∧ d = ⟨msg, s.totalRecv + 1, now⟩) ∨ s.arriving q = some d := by
      by_cases here : q = p
      · subst here
        rw [Function.update_self, Option.some.injEq] at coming
        exact Or.inl ⟨rfl, coming.symm⟩
      · rw [Function.update_of_ne here] at coming
        exact Or.inr coming
    constructor
    · exact conserved.once
    · intro q d coming
      rcases cases_of coming with ⟨rfl, _⟩ | old
      · exact ready
      · exact conserved.ready old
    · intro q d coming
      rcases cases_of coming with ⟨_, rfl⟩ | old
      · exact le_rfl
      · exact (conserved.numbered old).trans (Nat.le_succ _)
    · exact fun member => (conserved.enteredBelow member).trans (Nat.le_succ _)
    · intro q d coming member
      rcases cases_of coming with ⟨_, rfl⟩ | old
      · exact absurd (conserved.enteredBelow member) (Nat.not_succ_le_self _)
      · exact conserved.fresh old member
    · intro q q' d d' coming coming' other
      rcases cases_of coming with ⟨rfl, rfl⟩ | old
      · rcases cases_of coming' with ⟨rfl, _⟩ | old'
        · exact absurd rfl other
        · rintro rfl
          exact absurd (conserved.numbered old') (Nat.not_succ_le_self _)
      · rcases cases_of coming' with ⟨rfl, rfl⟩ | old'
        · rintro rfl
          exact absurd (conserved.numbered old) (Nat.not_succ_le_self _)
        · exact conserved.apart old old' other
  | elsewhere =>
    exact { conserved with
      numbered := fun coming => (conserved.numbered coming).trans (Nat.le_succ _)
      enteredBelow := fun member => (conserved.enteredBelow member).trans (Nat.le_succ _) }
  | @enqueue p d coming =>
    have left {q e} (still : Function.update s.arriving p none q = some e) :
        q ≠ p ∧ s.arriving q = some e := by
      by_cases here : q = p
      · subst here
        rw [Function.update_self] at still
        cases still
      · rw [Function.update_of_ne here] at still
        exact ⟨here, still⟩
    constructor
    · exact enqueue_once conserved.once (conserved.fresh coming) (conserved.ready coming)
    · intro q e still
      obtain ⟨other, still⟩ := left still
      have apart : some q ≠ some p := fun same => other (Option.some.inj same)
      simp only [Function.update_of_ne apart]
      exact conserved.ready still
    · exact fun still => conserved.numbered (left still).2
    · intro e member
      rcases List.mem_append.mp member with old | new
      · exact conserved.enteredBelow old
      · rw [List.mem_singleton.mp new]
        exact conserved.numbered coming
    · intro q e still member
      obtain ⟨other, still⟩ := left still
      rcases List.mem_append.mp member with old | new
      · exact conserved.fresh still old
      · exact conserved.apart still coming other (List.mem_singleton.mp new)
    · exact fun still still' => conserved.apart (left still).2 (left still').2
  | flush free =>
    refine conserved.moved rfl rfl rfl ?_ ?_
    · exact fun _ empty => empty
    · apply conserved.once.move (x := .pend) (y := .held none) (by simp)
      · exact .of_eq (List.append_nil _).symm
      · simp only [contents, Function.update_self, free, Shard.flush]
        exact .refl _
      · intro place notPend notHeld
        cases place with
        | pend => exact absurd rfl notPend
        | held a =>
          have other : a ≠ none := fun same => notHeld (congrArg Place.held same)
          simp only [contents, Function.update_of_ne other]
        | queue => rfl
        | work => rfl
        | processed => rfl
  | @send a sh some sent =>
    simp only [Shard.send, Option.ite_none_right_eq_some, Option.some.injEq] at sent
    obtain ⟨_, rfl⟩ := sent
    refine conserved.moved rfl rfl rfl ?_ ?_
    · intro p empty
      by_cases here : Option.some p = a
      · subst here
        exact Function.update_self ..
      · simp only [Function.update_of_ne here]
        exact empty
    · apply conserved.once.move (x := .held a) (y := .queue) (by simp)
      · simp only [contents, Function.update_self, List.append_nil]
        exact .refl _
      · simp only [contents, List.flatten_append, List.flatten_cons, List.flatten_nil,
          List.append_nil]
        exact .refl _
      · intro place notHeld notQueue
        cases place with
        | pend => rfl
        | held b =>
          have other : b ≠ a := fun same => notHeld (congrArg Place.held same)
          simp only [contents, Function.update_of_ne other]
        | queue => exact absurd rfl notQueue
        | work => rfl
        | processed => rfl
  | @take batch rest free first =>
    refine conserved.moved rfl rfl rfl ?_ ?_
    · exact fun _ empty => empty
    · apply conserved.once.move (x := .queue) (y := .work) (by simp)
      · simp only [contents, first, List.flatten_cons]
        exact .refl _
      · simp only [contents, free, List.nil_append]
        exact .refl _
      · intro place notQueue notWork
        cases place with
        | pend => rfl
        | held a => rfl
        | queue => exact absurd rfl notQueue
        | work => exact absurd rfl notWork
        | processed => rfl
  | @process d rest m some done =>
    obtain ⟨pend, queue, totalRecv, _⟩ := HotPath.process_spec done
    refine conserved.moved totalRecv rfl rfl ?_ ?_
    · exact fun _ empty => empty
    · have taken : (s.contents .work).Perm ([d] ++ rest) := .of_eq some
      apply conserved.once.move (x := .work) (y := .processed) (by simp) taken
      · exact .refl _
      · intro place notWork notProcessed
        cases place with
        | pend => exact pend
        | held a => rfl
        | queue =>
          simp only [contents]
          rw [queue]
        | work => exact absurd rfl notWork
        | processed => exact absurd rfl notProcessed
  | store _ _ =>
    refine conserved.moved rfl rfl rfl ?_ ?_
    · exact fun _ empty => empty
    · exact conserved.once

theorem step_sized {s s' : HandOff P} {act : Act P} (sized : s.Sized)
    (step : Step connID mine s act s') : s'.Sized := by
  cases step with
  | receive _ _ _ => exact ⟨sized.pend, sized.full, sized.flushed⟩
  | elsewhere => exact ⟨sized.pend, sized.full, sized.flushed⟩
  | @enqueue p d coming =>
    have one : (s.shard.pend ++ [d]).length = s.shard.pend.length + 1 := by
      rw [List.length_append, List.length_singleton]
    have below := sized.pend
    have flusher : none ≠ some p := nofun
    have roomy : 0 < batchSize := by decide
    unfold Shard.enqueue
    simp only
    split
    · rename_i short
      refine ⟨short, fun {q} busy => ?_, ?_⟩
      · by_cases here : some q = some p
        · rw [here] at busy
          exact absurd (Function.update_self ..) busy
        · simp only [Function.update_of_ne here] at busy ⊢
          exact sized.full busy
      · simp only [Function.update_of_ne flusher]
        exact sized.flushed
    · rename_i full
      refine ⟨roomy, fun {q} busy => ?_, ?_⟩
      · by_cases here : some q = some p
        · simp only [here, Function.update_self]
          omega
        · simp only [Function.update_of_ne here] at busy ⊢
          exact sized.full busy
      · simp only [Function.update_of_ne flusher]
        exact sized.flushed
  | flush _ =>
    have roomy : 0 < batchSize := by decide
    refine ⟨roomy, sized.full, ?_⟩
    simp only [Function.update_self]
    exact sized.pend
  | @send a sh _ sent =>
    simp only [Shard.send, Option.ite_none_right_eq_some, Option.some.injEq] at sent
    obtain ⟨_, rfl⟩ := sent
    refine ⟨sized.pend, fun {p} busy => ?_, ?_⟩
    · by_cases here : some p = a
      · subst here
        exact absurd (Function.update_self ..) busy
      · simp only [Function.update_of_ne here] at busy ⊢
        exact sized.full busy
    · by_cases here : none = a
      · subst here
        simp only [Function.update_self]
        decide
      · simp only [Function.update_of_ne here]
        exact sized.flushed
  | take _ _ => exact ⟨sized.pend, sized.full, sized.flushed⟩
  | process _ done =>
    obtain ⟨pend, _⟩ := HotPath.process_spec done
    exact ⟨pend ▸ sized.pend, sized.full, sized.flushed⟩
  | store _ _ => exact ⟨sized.pend, sized.full, sized.flushed⟩

omit [DecidableEq P] in
theorem Idle.sized {s : HandOff P} (idle : s.Idle) : s.Sized where
  pend := by
    rw [idle.pend]
    decide
  full busy := absurd (idle.held _) busy
  flushed := by
    rw [idle.held]
    decide

/-- Each delivery that went in is in one place, once, and nothing else is
anywhere; the producers hand over full batches and the flusher smaller ones. -/
structure HandedOnce (s : HandOff P) : Prop where
  somewhere {d} : d ∈ s.entered → ∃ place, d ∈ s.contents place ∧
    ∀ other, d ∈ s.contents other → other = place
  once (place) : (s.contents place).Nodup
  known {d place} : d ∈ s.contents place → d ∈ s.entered
  full {p} : s.held (some p) ≠ [] → (s.held (some p)).length = batchSize
  flushed : s.held none ≠ [] → 1 ≤ (s.held none).length ∧ (s.held none).length ≤ batchSize - 1

/-- No interleaving of the producers and the flusher loses or doubles a delivery. -/
theorem handed_once {start s : HandOff P} {acts : List (Act P)} (idle : start.Idle)
    (run : Transition.Reaches (Step connID mine) start acts s) : s.HandedOnce := by
  obtain ⟨conserved, sized⟩ := run.invariant
    (P := fun s => s.Conserved ∧ s.Sized)
    (fun ⟨conserved, sized⟩ step => ⟨step_conserved conserved step, step_sized sized step⟩)
    ⟨idle.conserved, idle.sized⟩
  refine ⟨conserved.once.unique, conserved.once.nodup, conserved.once.within, sized.full,
    fun busy => ?_⟩
  have short := sized.flushed
  have long := List.length_pos_of_ne_nil busy
  omega

theorem handed_once_two : ∃ s : HandOff Bool, s.entered.length = 2 ∧ s.HandedOnce := by
  let msg : Msg := { subject := ['a'], data := .text ['1'] }
  have first : Transition.Reaches (Step ['c'] fun _ => true)
    (start (.newMemStoreShards (fun _ => 0) 0 0 1)) [.receive true msg 0] _ :=
      .one (.receive rfl rfl rfl)
  have second : Transition.Reaches (Step ['c'] fun _ => true) _ [.receive true msg 0,
    .receive false msg 0] _ := first.next (.receive rfl rfl rfl)
  have entered := second.next (.enqueue (p := false) (d := ⟨msg, 2, 0⟩) rfl)
  have flushed := entered.next (.flush rfl)
  have last := flushed.next (.enqueue (p := true) (d := ⟨msg, 1, 0⟩) rfl)
  exact ⟨_, rfl, handed_once (start_idle _) last⟩

end HandOff
end NatsExplorer.Subscription
