import NatsExplorer.Alerts.Engine
import NatsExplorer.Library.Circular
import NatsExplorer.Library.Transition
import Mathlib.Data.List.Nodup

/-! How the changes of one alert are told (`notify` and `record` of `internal/alerts/alerts.go`). An event is sent by a
goroutine of its own and logged after that; it is told in its order, whatever the goroutines do, exactly if none is on its way
when the next one comes. -/
namespace NatsExplorer.Alerts.Told
open Go Transition

def maxEvents : ℕ := 1000

/-- A logged event. `turn` counts the changes of the alert; the events of others have none. -/
structure Entry where
  turn : Option ℕ
  event : Event
  webhookError : Str := []

inductive Channel where
  | webhook
  | email
  deriving DecidableEq

/-- What a rule sends to; empty is nowhere. -/
structure Channels where
  webhook : Str
  email : Str

def Channels.todo (c : Channels) : List Channel :=
  (if c.webhook ≠ [] then [.webhook] else []) ++ if c.email ≠ [] then [.email] else []

/-- A goroutine of `notify`, with the channels it has not been to. -/
structure Sending where
  turn : ℕ
  event : Event
  todo : List Channel
  errs : List Str := []

structure Telling where
  /-- Changes of the alert. -/
  turns : ℕ
  sending : List Sending
  /-- What arrived at a channel. -/
  seen : Channel → List Entry
  events : ℕ → Option Entry
  head : ℕ
  count : ℕ
  pending : List Entry
  /-- What `OnChange` was called with. -/
  pushed : List (List Entry)

inductive Act where
  | notify (c : Channels) (ev : Event)
  /-- The `k`-th goroutine goes to its next channel. An error does not tell whether the event arrived. -/
  | send (k : ℕ) (arrives : Bool) (err : Option Str)
  | log (k : ℕ)
  /-- An event of another alert is logged. -/
  | other (ev : Event)
  | flush

namespace Telling

def new : Telling where
  turns := 0
  sending := []
  seen _ := []
  events _ := none
  head := 0
  count := 0
  pending := []
  pushed := []

def record (s : Telling) (e : Entry) : Telling :=
  { s with
    events := Function.update s.events s.head (some e)
    head := (s.head + 1) % maxEvents
    count := if s.count < maxEvents then s.count + 1 else s.count
    pending := s.pending ++ [e] }

/-- What a failed channel adds to the error of the event. -/
def failure : Channel → Str → Str
  | .webhook, err => "webhook: ".toList ++ err
  | .email, err => "email: ".toList ++ err

def step (s : Telling) : Act → Telling
  | .notify c ev =>
    let s' := { s with turns := s.turns + 1 }
    if ev.muted ∨ (c.webhook = [] ∧ c.email = []) then s'.record { turn := some s.turns, event := ev }
    else { s' with sending := s.sending ++ [{ turn := s.turns, event := ev, todo := c.todo }] }
  | .send k arrives err =>
    match s.sending[k]? with
    | some g =>
      match g.todo with
      | ch :: todo =>
        { s with
          seen := if arrives then Function.update s.seen ch (s.seen ch ++ [{ turn := some g.turn, event := g.event }]) else s.seen
          sending := s.sending.set k { g with todo := todo, errs := g.errs ++ (err.map (failure ch)).toList } }
      | [] => s
    | none => s
  | .log k =>
    match s.sending[k]? with
    | some g =>
      if g.todo = [] then
        { s.record { turn := some g.turn, event := g.event, webhookError := List.intercalate "; ".toList g.errs } with
          sending := s.sending.eraseIdx k }
      else s
    | none => s
  | .other ev => s.record { turn := none, event := ev }
  | .flush => { s with pending := [], pushed := s.pushed ++ [s.pending] }

/-- `Events`: the newest first, at most `limit`. -/
def Events (s : Telling) (limit : Int) : List Entry :=
  let limit := if limit ≤ 0 ∨ s.count < limit then s.count else limit.toNat
  (List.range limit).filterMap fun i => s.events ((s.head + maxEvents - (i + 1)) % maxEvents)

/-- Everything logged, in its order. -/
def logged (s : Telling) : List Entry := s.pushed.flatten ++ s.pending

end Telling

/-- The changes of the alert in a list. -/
def turnsOf (entries : List Entry) : List ℕ := entries.filterMap Entry.turn

/-- The changes are told in their order, and all of them once nothing is on its way. -/
structure InOrder (s : Telling) : Prop where
  seen : ∀ ch, (turnsOf (s.seen ch)).Pairwise (· < ·)
  pushes : (turnsOf s.logged).Pairwise (· < ·)
  events : ∀ limit, (turnsOf (s.Events limit)).Pairwise (· > ·)
  all : s.sending = [] → turnsOf s.logged = List.range s.turns

def Act.isNotify : Act → Bool
  | .notify .. => true
  | _ => false

/-- Whatever the goroutines do from here, the changes are told in their order. -/
def Sure (s : Telling) : Prop := ∀ more : List Act, (∀ l ∈ more, l.isNotify = false) → InOrder (run Telling.step s more)

/-- No goroutine is on its way when the next change comes. -/
def Alone (s : Telling) (l : Act) : Prop := l.isNotify = true → s.sending = []

section Ring
open Telling
variable {s : Telling} {e : Entry}

/-- The ring has the last events logged. -/
structure Ringed (s : Telling) : Prop where
  head : s.head = s.logged.length % maxEvents
  count : s.count = min s.logged.length maxEvents
  cells : ∀ j < s.logged.length, s.logged.length ≤ j + maxEvents → s.events (j % maxEvents) = s.logged[j]?

theorem logged_record : (s.record e).logged = s.logged ++ [e] := by
  simp only [logged, record, List.append_assoc]

theorem ringed_record (ringed : Ringed s) : Ringed (s.record e) := by
  have length : (s.record e).logged.length = s.logged.length + 1 := by rw [logged_record, List.length_append]; rfl
  have counted := ringed.count
  refine { head := ?_, count := ?_, cells := fun j below recent => ?_ }
  · rw [length]
    simp only [record, ringed.head]
    rw [Nat.mod_add_mod]
  · rw [length]
    simp only [record]
    split <;> omega
  · rw [length] at below recent
    rw [logged_record]
    by_cases last : j = s.logged.length
    · subst last
      simp only [record, ringed.head, Function.update_self, List.getElem?_concat_length]
    · have apart : j % maxEvents ≠ s.head := by
        rw [ringed.head]
        intro same
        have := Nat.sub_mod_eq_zero_of_mod_eq same.symm
        unfold maxEvents at *
        omega
      simp only [record, Function.update_of_ne apart]
      rw [ringed.cells j (by omega) (by omega), List.getElem?_append_left (by omega)]

/-- What `Events` returns is the end of what was logged, backwards. -/
theorem events_sublist (ringed : Ringed s) (limit : Int) : (s.Events limit).Sublist s.logged.reverse := by
  have counted := ringed.count
  have head := ringed.head
  obtain ⟨n, within, events⟩ : ∃ n ≤ s.count, s.Events limit =
      (List.range n).filterMap fun i => s.events ((s.head + maxEvents - (i + 1)) % maxEvents) := by
    unfold Events
    split
    · exact ⟨_, le_rfl, rfl⟩
    · exact ⟨_, by omega, rfl⟩
  have length : (s.logged.reverse.take n).length = n := by
    rw [List.length_take, List.length_reverse]
    omega
  have newest : (List.range n).filterMap (fun i => s.events ((s.head + maxEvents - (i + 1)) % maxEvents)) = s.logged.reverse.take n := by
    have each : ∀ i < (s.logged.reverse.take n).length,
        s.events ((s.head + maxEvents - (i + 1)) % maxEvents) = (s.logged.reverse.take n)[i]? := by
      intro i below
      rw [length] at below
      have cell : (s.head + maxEvents - (i + 1)) % maxEvents = (s.logged.length - 1 - i) % maxEvents := by
        unfold maxEvents at *
        omega
      rw [cell, ringed.cells _ (by omega) (by omega), List.getElem?_take_of_lt below, List.getElem?_reverse (by omega)]
    have read := Circular.filterMap_range_eq each
    rwa [length] at read
  rw [events, newest]
  exact List.take_sublist _ _

end Ring

section Turns
variable {entries more : List Entry} {e : Entry}

@[simp] theorem turnsOf_append : turnsOf (entries ++ more) = turnsOf entries ++ turnsOf more := List.filterMap_append

end Turns

section Runs
open Telling
variable {s : Telling} {g : Sending}

/-- At most one goroutine is on its way, with the last change; everything before it is logged. -/
inductive Serial (s : Telling) : Prop where
  | idle (none : s.sending = []) (told : turnsOf s.logged = List.range s.turns)
  | busy (g : Sending) (one : s.sending = [g]) (last : g.turn + 1 = s.turns) (told : turnsOf s.logged = List.range g.turn)

structure Orderly (s : Telling) : Prop where
  ringed : Ringed s
  serial : Serial s
  ordered : ∀ ch, (turnsOf (s.seen ch)).Pairwise (· < ·)
  past : ∀ ch, ∀ t ∈ turnsOf (s.seen ch), t < s.turns
  /-- A channel a goroutine has not been to has not seen its event. -/
  ahead : ∀ g ∈ s.sending, g.todo.Nodup ∧ ∀ ch ∈ g.todo, ∀ t ∈ turnsOf (s.seen ch), t < g.turn

theorem orderly_new : Orderly new where
  ringed := { head := rfl, count := rfl, cells := fun j below => absurd below (Nat.not_lt_zero j) }
  serial := .idle rfl rfl
  ordered _ := .nil
  past _ _ member := absurd member List.not_mem_nil
  ahead _ member := absurd member List.not_mem_nil

theorem Orderly.inOrder (orderly : Orderly s) : InOrder s := by
  have pushes : (turnsOf s.logged).Pairwise (· < ·) := by
    rcases orderly.serial with ⟨-, all⟩ | ⟨g, -, -, all⟩ <;> rw [all] <;> exact List.pairwise_lt_range
  have events (limit : Int) : (turnsOf (s.Events limit)).Pairwise (· > ·) := by
    have part : (turnsOf (s.Events limit)).Sublist (turnsOf s.logged.reverse) := (events_sublist orderly.ringed limit).filterMap _
    refine List.Pairwise.sublist part ?_
    rw [turnsOf, List.filterMap_reverse, List.pairwise_reverse]
    exact pushes
  refine { seen := orderly.ordered, pushes := pushes, events := events, all := fun none => ?_ }
  rcases orderly.serial with ⟨-, all⟩ | ⟨g, one, -, -⟩
  · exact all
  · rw [one] at none
    cases none

theorem Channels.todo_nodup (c : Channels) : c.todo.Nodup := by
  unfold Channels.todo
  split <;> split <;> decide

theorem orderly_notify (orderly : Orderly s) {c : Channels} {ev : Event} (alone : s.sending = []) : Orderly (s.step (.notify c ev)) := by
  have logged : turnsOf s.logged = List.range s.turns := orderly.inOrder.all alone
  have later : ∀ ch, ∀ t ∈ turnsOf (s.seen ch), t < s.turns + 1 := fun ch t member => (orderly.past ch t member).trans (Nat.lt_succ_self _)
  unfold step
  simp only
  split
  · refine { ringed := ringed_record (s := { s with turns := s.turns + 1 }) ⟨orderly.ringed.head, orderly.ringed.count, orderly.ringed.cells⟩
             serial := .idle alone ?_, ordered := orderly.ordered, past := later, ahead := orderly.ahead }
    rw [logged_record, turnsOf_append]
    exact (congrArg (· ++ [s.turns]) logged).trans List.range_succ.symm
  · refine { ringed := ⟨orderly.ringed.head, orderly.ringed.count, orderly.ringed.cells⟩
             serial := .busy { turn := s.turns, event := ev, todo := c.todo } (by rw [alone]; rfl) rfl logged
             ordered := orderly.ordered, past := later, ahead := ?_ }
    intro g member
    rw [alone, List.nil_append, List.mem_singleton] at member
    subst member
    exact ⟨c.todo_nodup, fun ch _ => orderly.past ch⟩

/-- The goroutine that takes a step is the only one. -/
theorem Orderly.only (orderly : Orderly s) {k : ℕ} (here : s.sending[k]? = some g) :
    s.sending = [g] ∧ k = 0 ∧ g.turn + 1 = s.turns ∧ turnsOf s.logged = List.range g.turn := by
  rcases orderly.serial with ⟨none, -⟩ | ⟨g', one, last, told⟩
  · rw [none] at here
    cases here
  · rw [one] at here
    cases k with
    | zero =>
      cases here
      exact ⟨one, rfl, last, told⟩
    | succ k => cases here

theorem orderly_send (orderly : Orderly s) {k : ℕ} {arrives : Bool} {err : Option Str} : Orderly (s.step (.send k arrives err)) := by
  simp only [step]
  split
  · next g here =>
    obtain ⟨one, rfl, last, told⟩ := orderly.only here
    split
    · next ch todo channels =>
      obtain ⟨nodup, ahead⟩ := orderly.ahead g (List.mem_of_getElem? here)
      rw [channels] at nodup ahead
      obtain ⟨fresh, nodup⟩ := List.nodup_cons.mp nodup
      let entry : Entry := { turn := some g.turn, event := g.event }
      let seen := if arrives then Function.update s.seen ch (s.seen ch ++ [entry]) else s.seen
      have other {ch' : Channel} (differs : ch' ≠ ch) : seen ch' = s.seen ch' := by
        simp only [seen]
        split
        · exact Function.update_of_ne differs _ _
        · rfl
      have same : turnsOf (seen ch) = turnsOf (s.seen ch) ∨ turnsOf (seen ch) = turnsOf (s.seen ch) ++ [g.turn] := by
        simp only [seen]
        split
        · rw [Function.update_self, turnsOf_append]
          exact Or.inr rfl
        · exact Or.inl rfl
      have before := ahead ch List.mem_cons_self
      refine { ringed := ⟨orderly.ringed.head, orderly.ringed.count, orderly.ringed.cells⟩
               serial := .busy { g with todo := todo, errs := g.errs ++ (err.map (failure ch)).toList } (by rw [one]; rfl) last told
               ordered := fun ch' => ?_, past := fun ch' t member => ?_, ahead := ?_ }
      · by_cases differs : ch' = ch
        · subst differs
          rcases same with unchanged | added
          · exact unchanged ▸ orderly.ordered ch'
          · refine added ▸ List.pairwise_append.mpr ⟨orderly.ordered ch', List.pairwise_singleton _ _, fun t early u late => ?_⟩
            rw [List.mem_singleton.mp late]
            exact before t early
        · exact (congrArg turnsOf (other differs)).symm ▸ orderly.ordered ch'
      · by_cases differs : ch' = ch
        · subst differs
          rcases same with unchanged | added
          · exact orderly.past ch' t (unchanged ▸ member)
          · rcases List.mem_append.mp (added ▸ member) with early | late
            · exact orderly.past ch' t early
            · rw [List.mem_singleton.mp late]
              exact Nat.lt_of_succ_le last.le
        · exact orderly.past ch' t ((congrArg turnsOf (other differs)) ▸ member)
      · intro g' member
        rw [one, List.set_cons_zero, List.mem_singleton] at member
        subst member
        refine ⟨nodup, fun ch' waiting t member => ?_⟩
        have differs : ch' ≠ ch := fun same => fresh (same ▸ waiting)
        exact ahead ch' (List.mem_cons_of_mem _ waiting) t ((congrArg turnsOf (other differs)) ▸ member)
    · exact orderly
  · exact orderly

theorem orderly_log (orderly : Orderly s) {k : ℕ} : Orderly (s.step (.log k)) := by
  simp only [step]
  split
  · next g here =>
    obtain ⟨one, rfl, last, told⟩ := orderly.only here
    split
    · next done =>
      have none : s.sending.eraseIdx 0 = [] := by rw [one]; rfl
      have ringed := ringed_record (e := { turn := some g.turn, event := g.event, webhookError := List.intercalate "; ".toList g.errs })
        orderly.ringed
      refine { ringed := ⟨ringed.head, ringed.count, ringed.cells⟩, serial := .idle none ?_, ordered := orderly.ordered
               past := orderly.past, ahead := fun g' member => ?_ }
      · have all := (logged_record (s := s)
          (e := { turn := some g.turn, event := g.event, webhookError := List.intercalate "; ".toList g.errs }))
        refine (congrArg turnsOf all).trans ?_
        rw [turnsOf_append, told]
        have next : (s.record { turn := some g.turn, event := g.event, webhookError := List.intercalate "; ".toList g.errs }).turns =
          g.turn + 1 := last.symm
        exact (congrArg List.range next).symm ▸ List.range_succ.symm
      · rw [none] at member
        cases member
    · exact orderly
  · exact orderly

theorem orderly_other (orderly : Orderly s) {ev : Event} : Orderly (s.step (.other ev)) := by
  have logged : turnsOf (s.record { turn := none, event := ev }).logged = turnsOf s.logged := by
    rw [logged_record, turnsOf_append]
    exact List.append_nil _
  refine { ringed := ringed_record orderly.ringed, serial := ?_, ordered := orderly.ordered, past := orderly.past, ahead := orderly.ahead }
  rcases orderly.serial with ⟨none, told⟩ | ⟨g, one, last, told⟩
  · exact .idle none (logged.trans told)
  · exact .busy g one last (logged.trans told)

theorem orderly_flush (orderly : Orderly s) : Orderly (s.step .flush) := by
  have logged : (s.step .flush).logged = s.logged := by
    simp only [step, Telling.logged, List.flatten_append, List.flatten_cons, List.flatten_nil, List.append_nil]
  have ringed := orderly.ringed
  refine { ringed := ⟨?_, ?_, ?_⟩, serial := ?_, ordered := orderly.ordered, past := orderly.past, ahead := orderly.ahead }
  · rw [logged]
    exact ringed.head
  · rw [logged]
    exact ringed.count
  · rw [logged]
    exact ringed.cells
  · rcases orderly.serial with ⟨none, told⟩ | ⟨g, one, last, told⟩
    · exact .idle none (logged.symm ▸ told)
    · exact .busy g one last (logged.symm ▸ told)

theorem orderly_step (orderly : Orderly s) (l : Act) (alone : Alone s l) : Orderly (s.step l) := by
  cases l with
  | notify c ev => exact orderly_notify orderly (alone rfl)
  | send k arrives err => exact orderly_send orderly
  | log k => exact orderly_log orderly
  | other ev => exact orderly_other orderly
  | flush => exact orderly_flush orderly

theorem Orderly.sure (orderly : Orderly s) : Sure s := by
  intro more quiet
  have along : Along step (fun _ l => l.isNotify = false) s more := by
    induction more generalizing s with
    | nil => trivial
    | cons l more ih =>
      obtain ⟨first, rest⟩ := List.forall_mem_cons.mp quiet
      exact ⟨first, ih (orderly_step orderly l fun told => absurd told (by rw [first]; exact Bool.false_ne_true)) rest⟩
  refine (Transition.invariant (P := Orderly) (fun s l _ orderly quiet => ?_) orderly along).inOrder
  exact orderly_step orderly l fun told => absurd told (by rw [quiet]; exact Bool.false_ne_true)

/-- A goroutine may go through to its end before anything else happens. -/
theorem finish {k : ℕ} (here : s.sending[k]? = some g) :
    ∃ more : List Act, (∀ l ∈ more, l.isNotify = false) ∧ turnsOf (run step s more).logged = turnsOf s.logged ++ [g.turn] ∧
      (run step s more).sending = s.sending.eraseIdx k := by
  cases g with
  | mk turn event todo errs =>
    induction todo generalizing s errs with
    | nil =>
      refine ⟨[.log k], by simp [Act.isNotify], ?_, ?_⟩
      · simp only [run, List.foldl_cons, List.foldl_nil, step, here, if_true]
        exact (congrArg turnsOf (logged_record (s := s)
          (e := { turn := some turn, event := event, webhookError := List.intercalate "; ".toList errs }))).trans turnsOf_append
      · simp only [run, List.foldl_cons, List.foldl_nil, step, here, if_true]
    | cons ch todo ih =>
      let errs' := errs ++ ((none : Option Str).map (failure ch)).toList
      let g' : Sending := { turn := turn, event := event, todo := todo, errs := errs' }
      have moved : s.step (.send k false none) = { s with sending := s.sending.set k g' } := by
        simp only [step, here]
        rfl
      have below : k < s.sending.length := (List.getElem?_eq_some_iff.mp here).1
      have there : (s.step (.send k false none)).sending[k]? = some g' := by
        rw [moved, List.getElem?_set_self below]
      obtain ⟨more, quiet, told, left⟩ := ih errs' there
      refine ⟨.send k false none :: more, List.forall_mem_cons.mpr ⟨rfl, quiet⟩, ?_, ?_⟩
      · rw [moved] at told
        have logged : ({ s with sending := s.sending.set k g' } : Telling).logged = s.logged := rfl
        rw [logged] at told
        rw [← told, ← moved]
        rfl
      · rw [moved, List.eraseIdx_set_eq] at left
        rw [← left, ← moved]
        rfl

/-- Nothing is told after a later change in a sure state. -/
theorem not_sure {k t : ℕ} (here : s.sending[k]? = some g) (later : t ∈ turnsOf s.logged) (before : g.turn < t) : ¬ Sure s := by
  intro sure
  obtain ⟨more, quiet, told, -⟩ := finish here
  have pushes := (sure more quiet).pushes
  rw [told] at pushes
  exact absurd ((List.pairwise_append.mp pushes).2.2 t later g.turn (List.mem_singleton_self _)) (by omega)

theorem Sure.run (sure : Sure s) {more : List Act} (quiet : ∀ l ∈ more, l.isNotify = false) : Sure (run step s more) := by
  intro rest still
  rw [← run_append]
  exact sure (more ++ rest) fun l member => (List.mem_append.mp member).elim (quiet l) (still l)

/-- A change that comes while a goroutine is on its way can be told before the one that goroutine tells. -/
theorem alone_of_sure (orderly : Orderly s) (l : Act) (sure : Sure (s.step l)) : Alone s l := by
  intro notify
  cases l with
  | notify c ev =>
    rcases orderly.serial with ⟨none, -⟩ | ⟨g, one, last, told⟩
    · exact none
    · exfalso
      unfold step at sure
      simp only at sure
      split at sure
      · refine not_sure (k := 0) (g := g) (t := s.turns) (by simp only [record, one, List.getElem?_cons_zero]) ?_ (by omega) sure
        rw [logged_record, turnsOf_append]
        exact List.mem_append_right _ (List.mem_singleton_self _)
      · let s' : Telling := { s with
          turns := s.turns + 1, sending := s.sending ++ [{ turn := s.turns, event := ev, todo := c.todo }] }
        have second : s'.sending[1]? = some { turn := s.turns, event := ev, todo := c.todo } := by
          simp only [s', one]
          rfl
        obtain ⟨more, quiet, logged, left⟩ := finish second
        have first : (run step s' more).sending[0]? = some g := by
          rw [left]
          simp only [s', one]
          rfl
        refine not_sure first (t := s.turns) ?_ (by omega) (Sure.run sure quiet)
        rw [logged]
        exact List.mem_append_right _ (List.mem_singleton_self _)
  | send => cases notify
  | log => cases notify
  | other => cases notify
  | flush => cases notify

/-- The changes of an alert are told in their order at every moment and whatever the goroutines do next, exactly if none is on
its way when a change comes. -/
theorem told_in_order (labels : List Act) :
    (∀ before, before <+: labels → Sure (run step new before)) ↔ Along step Alone new labels :=
  visible_iff (P := Orderly) (fun orderly => orderly.sure) (fun orderly l alone => orderly_step orderly l alone)
    (fun orderly l sure => alone_of_sure orderly l sure) orderly_new

def changed (state : State) : Event where
  time := 0
  ruleID := ['r']
  ruleName := ['n']
  connID := ['c']
  subject := ['s']
  state := state
  severity := "warning".toList
  preview := []

/-- The request for the firing alert takes longer than the one for its end. -/
def slowFiring : List Act :=
  let c : Channels := { webhook := "http://h".toList, email := [] }
  [.notify c (changed .firing), .notify c (changed .resolved), .send 1 true none, .log 1, .send 0 true none, .log 0]

/-- The last word on a resolved alert is that it fires. -/
theorem told_late :
    let s := run step new slowFiring
    s.sending.length = 0 ∧ (s.Events 1).map (fun e => e.event.state) = [.firing] ∧
      (s.seen .webhook).map (fun e => e.event.state) = [.resolved, .firing] ∧ ¬ InOrder s := by
  refine ⟨by decide +kernel, by decide +kernel, by decide +kernel, fun inOrder => ?_⟩
  exact absurd inOrder.pushes (by decide +kernel)

end Runs

end NatsExplorer.Alerts.Told
