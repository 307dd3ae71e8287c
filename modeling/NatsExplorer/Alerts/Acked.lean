import NatsExplorer.Alerts.Muted
import NatsExplorer.Alerts.Stuck

/-! How long an acknowledgement lasts. A condition that ends while another holds leaves the alert, and one
that starts puts a new alert up, whatever held before. -/
namespace NatsExplorer.Alerts
open Go

/-- A part of a turn. -/
abbrev Stage (F : Type) := SubjectState F → SubjectState F × List Effect

namespace SubjectState
variable {F : Type}

/-- One part after the other. -/
def through : List (Stage F) → Stage F
  | [] => fun st => (st, [])
  | f :: fs => andThen f (through fs)

/-- The states in between, and the last. -/
def passes : List (Stage F) → SubjectState F → List (SubjectState F)
  | [], _ => []
  | f :: fs, st => (f st).1 :: passes fs (f st).1

def observeStages [Numbers F] [Payloads F] (c : Compiled F) (r : Record) (now : Int) : List (Stage F) :=
  [arrive now, wake r, enter c r now, track c r now, evaluate c r now]

def tickStages [Numbers F] (c : Compiled F) (now : Int) : List (Stage F) :=
  [checkStale c now, checkRate c now, checkLevel c now, checkStuck c now]

theorem observe_through [Numbers F] [Payloads F] (c : Compiled F) (r : Record) (now : Int) (st : SubjectState F) :
    st.observe c r now = through (observeStages c r now) st := by
  simp only [observe, observeStages, through, andThen, List.append_nil]

theorem tick_through [Numbers F] (c : Compiled F) (now : Int) (st : SubjectState F) :
    st.tick c now = through (tickStages c now) st := by
  simp only [tick, checkWindow, tickStages, through, andThen, List.append_nil, List.append_assoc]

/-- A part that puts an alert up or takes it away starts a condition, or leaves none. -/
def Raises (f : Stage F) (st : SubjectState F) (starts : Prop) : Prop :=
  ∀ state preview seen, .change state preview seen ∈ (f st).2 → starts ∨ (f st).1.holds = none

theorem mem_cleared {st : SubjectState F} {pv preview : Str} {state : State} {seen : Int}
    (member : Effect.change state preview seen ∈ [st.cleared pv]) : st.holds = none := by
  rw [List.mem_singleton, cleared] at member
  unfold holds
  cases current : st.current with
  | none => rfl
  | some left =>
    rw [current] at member
    cases member

section Raises
variable (c : Compiled F) (r : Record) (now : Int) (st : SubjectState F)

theorem wake_raises : Raises (wake r) st False := by
  intro state preview seen member
  unfold wake at member ⊢
  split at member
  · rename_i stale
    rw [if_pos stale]
    exact .inr (mem_cleared member)
  · cases member

theorem track_raises [Numbers F] [Payloads F] : Raises (track c r now) st False := by
  intro state preview seen member
  unfold track at member ⊢
  split at member
  · rename_i moves
    rw [if_pos moves]
    simp only at member ⊢
    split at member
    · rename_i stuck
      rw [if_pos stuck]
      exact .inr (mem_cleared member)
    · cases member
  · cases member

/-- The expression starts to hold. -/
def Fires : Prop := st.firing = false ∧ ∃ prog, c.prog = some prog ∧ evalEvery ≤ now - st.lastEval ∧ prog.onRecord r = true

theorem evaluate_raises : Raises (evaluate c r now) st (st.Fires c r now) := by
  intro state preview seen member
  unfold evaluate at member ⊢
  split at member
  · rename_i prog expression early
    simp only at member ⊢
    cases hit : prog.onRecord r <;> cases firing : st.firing <;> simp only [hit, firing] at member ⊢
    · cases member
    · exact .inr (mem_cleared member)
    · exact .inl ⟨firing, prog, expression, of_decide_eq_true early, hit⟩
    · cases member
  · cases member

variable [Numbers F]

omit [Numbers F] in
theorem checkStale_raises : Raises (checkStale c now) st (st.stale = false ∧ st.silent c now = true) := by
  intro state preview seen member
  unfold checkStale at member ⊢
  split at member
  · rename_i starts
    exact .inl ⟨by simpa using starts.1, starts.2⟩
  · cases member

omit [Numbers F] in
theorem judge_raises {state : State} {on : SubjectState F → Bool} {said : SubjectState F → Str}
    {put : SubjectState F → Bool → Str → SubjectState F} (verdict : Bool × Str) :
    Raises (judge state on said put verdict) st (on st = false ∧ verdict.1 = true) := by
  intro state' preview seen member
  obtain ⟨hit, pv⟩ := verdict
  cases hit <;> cases before : on st <;> simp only [judge, before] at member ⊢
  · cases member
  · exact .inr (mem_cleared member)
  · exact .inl ⟨trivial, trivial⟩
  · split at member
    · cases member
    · simp at member

theorem checkRate_raises : Raises (checkRate c now) st (st.rate = false ∧ st.rateAfter c now = true) := by
  intro state preview seen member
  unfold checkRate rateAfter at *
  cases watched : st.watched c now with
  | none =>
    rw [watched] at member
    cases member
  | some t =>
    rw [watched] at member
    simp only at member ⊢
    by_cases asked : (c.minCount.isSome || c.maxCount.isSome) = true
    · rw [if_pos asked] at member ⊢
      rw [if_pos asked]
      exact judge_raises st _ state preview seen member
    · rw [if_neg asked] at member
      cases member

theorem checkLevel_raises : Raises (checkLevel c now) st (st.level = false ∧ st.levelAfter c now = true) := by
  intro state preview seen member
  unfold checkLevel levelAfter at *
  cases watched : st.watched c now with
  | none =>
    rw [watched] at member
    cases member
  | some t =>
    rw [watched] at member
    simp only at member ⊢
    by_cases asked : c.hasAggregate = true
    · rw [if_pos asked] at member ⊢
      rw [if_pos asked]
      exact judge_raises st _ state preview seen member
    · rw [if_neg asked] at member
      cases member

omit [Numbers F] in
theorem checkStuck_raises : Raises (checkStuck c now) st (st.stuck = false ∧ st.unmoved c now = true) := by
  intro state preview seen member
  unfold checkStuck at member ⊢
  split at member
  · rename_i starts
    exact .inl ⟨by simpa using starts.1, starts.2⟩
  · cases member

end Raises

/-- A message makes the expression hold only when nothing else does. A message ends a silence, and a new
value ends that the subject is stuck. -/
def ObserveAlone [Numbers F] [Payloads F] (c : Compiled F) (r : Record) (now : Int) (st : SubjectState F) : Prop :=
  st.Fires c r now →
    top false st.level st.rate (st.stuck && !(decide (0 < c.unchangedFor) && st.moves c r)) false = none

/-- A tick starts a condition only when nothing else holds. -/
def TickAlone [Numbers F] (c : Compiled F) (now : Int) (st : SubjectState F) : Prop :=
  (st.stale = false ∧ st.silent c now = true → top st.firing st.level st.rate st.stuck false = none) ∧
  (st.rate = false ∧ st.rateAfter c now = true →
    top st.firing st.level false st.stuck (st.stale || st.silent c now) = none) ∧
  (st.level = false ∧ st.levelAfter c now = true →
    top st.firing false (st.rateAfter c now) st.stuck (st.stale || st.silent c now) = none) ∧
  (st.stuck = false ∧ st.unmoved c now = true →
    top st.firing (st.levelAfter c now) (st.rateAfter c now) false (st.stale || st.silent c now) = none)

/-- No part of a turn puts an alert up or takes it away. -/
def Gentle (effects : List Effect) : Prop := ∀ state preview seen, .change state preview seen ∉ effects

section Turns
variable [Numbers F] (c : Compiled F) (r : Record) (now : Int) (st : SubjectState F)

/-- What a message leaves of the conditions before the expression is evaluated. -/
theorem before_evaluate [Payloads F] :
    let st' := (track c r now (enter c r now (wake r (arrive now st).1).1).1).1
    st'.conditions = [st.firing, st.level, st.rate, st.stuck && !(decide (0 < c.unchangedFor) && st.moves c r), false] ∧
      st'.lastEval = st.lastEval := by
  have woken : let st' := (wake r (arrive now st).1).1
      st'.conditions = [st.firing, st.level, st.rate, st.stuck, false] ∧ st'.lastEval = st.lastEval ∧
        st'.lastChange = st.lastChange ∧ st'.lastValue = st.lastValue := by
    have same : (arrive now st).1.conditions = st.conditions ∧ (arrive now st).1.lastEval = st.lastEval ∧
        (arrive now st).1.lastChange = st.lastChange ∧ (arrive now st).1.lastValue = st.lastValue := by
      unfold arrive noteGap
      split <;> exact ⟨rfl, rfl, rfl, rfl⟩
    obtain ⟨conditions, last, change, value⟩ := same
    simp only [SubjectState.conditions, List.cons.injEq, and_true] at conditions
    obtain ⟨firing, level, rate, stuck, -⟩ := conditions
    rw [← firing, ← level, ← rate, ← stuck, ← last, ← change, ← value]
    unfold wake
    split
    · exact ⟨rfl, rfl, rfl, rfl⟩
    · rename_i awake
      exact ⟨by rw [SubjectState.conditions, Bool.eq_false_iff.mpr awake], rfl, rfl, rfl⟩
  have entered (st : SubjectState F) : (enter c r now st).1.conditions = st.conditions ∧
      (enter c r now st).1.lastEval = st.lastEval ∧ (enter c r now st).1.lastChange = st.lastChange ∧
        (enter c r now st).1.lastValue = st.lastValue := by
    unfold enter
    split <;> exact ⟨rfl, rfl, rfl, rfl⟩
  obtain ⟨conditions, last, change, value⟩ := woken
  obtain ⟨conditions', last', change', value'⟩ := entered (wake r (arrive now st).1).1
  rw [conditions] at conditions'
  rw [last] at last'
  rw [change] at change'
  rw [value] at value'
  generalize (enter c r now (wake r (arrive now st).1).1).1 = st' at conditions' last' change' value' ⊢
  simp only [SubjectState.conditions, List.cons.injEq, and_true] at conditions' ⊢
  obtain ⟨firing, level, rate, stuck, stale⟩ := conditions'
  have same : st'.moves c r = st.moves c r := by rw [moves, moves, change', value']
  rw [← firing, ← level, ← rate, ← stuck, ← last', ← same]
  unfold track
  by_cases moved : 0 < c.unchangedFor ∧ (st'.lastChange = 0 ∨ reported c r ≠ st'.lastValue)
  · rw [if_pos moved, decide_eq_true moved.1, moves, decide_eq_true moved.2]
    simp only [Bool.true_and, Bool.not_true, Bool.and_false]
    split
    · exact ⟨⟨rfl, rfl, rfl, rfl, stale⟩, rfl⟩
    · rename_i loose
      exact ⟨⟨rfl, rfl, rfl, Bool.eq_false_iff.mpr loose, stale⟩, rfl⟩
  · have still : (decide (0 < c.unchangedFor) && st'.moves c r) = false := by
      rw [moves, ← Bool.decide_and]
      exact decide_eq_false moved
    rw [if_neg moved, still, Bool.not_false, Bool.and_true]
    exact ⟨⟨rfl, rfl, rfl, rfl, stale⟩, rfl⟩

theorem observe_gentle [Payloads F] (alone : st.ObserveAlone c r now)
    (lasts : ∀ st' ∈ passes (observeStages c r now) st, st'.holds ≠ none) : Gentle (st.observe c r now).2 := by
  simp only [passes, observeStages, List.forall_mem_cons] at lasts
  obtain ⟨-, woken, -, tracked, evaluated, -⟩ := lasts
  obtain ⟨conditions, last⟩ := before_evaluate c r now st
  intro state preview seen member
  simp only [observe, andThen, List.mem_append] at member
  obtain none | member | none | member | member := member
  · cases none
  · exact (wake_raises r _ state preview seen member).elim id woken
  · cases none
  · exact (track_raises c r now _ state preview seen member).elim id tracked
  · obtain starts | nothing := evaluate_raises c r now _ state preview seen member
    · refine tracked ?_
      generalize (track c r now (enter c r now (wake r (arrive now st).1).1).1).1 = st' at *
      simp only [SubjectState.conditions, List.cons.injEq, and_true] at conditions
      obtain ⟨firing, level, rate, stuck, stale⟩ := conditions
      obtain ⟨quiet, prog, expression, due, hit⟩ := starts
      rw [holds_eq, quiet, level, rate, stuck, stale]
      exact alone ⟨firing ▸ quiet, prog, expression, last ▸ due, hit⟩
    · exact evaluated nothing

omit [Numbers F] in
theorem checkStale_state : (checkStale c now st).1 = { st with stale := st.stale || st.silent c now } := by
  unfold checkStale
  by_cases starts : ¬ st.stale ∧ st.silent c now
  · rw [if_pos starts, starts.2, Bool.or_true]
  · rw [if_neg starts]
    cases stale : st.stale with
    | true => rw [Bool.true_or, ← stale]
    | false =>
      have loud : st.silent c now = false := Bool.eq_false_iff.mpr fun silent => starts ⟨by simp [stale], silent⟩
      rw [loud, Bool.or_false, ← stale]

theorem tick_gentle (held : st.holds ≠ none) (alone : st.TickAlone c now)
    (lasts : ∀ st' ∈ passes (tickStages c now) st, st'.holds ≠ none) : Gentle (st.tick c now).2 := by
  simp only [passes, tickStages, List.forall_mem_cons] at lasts
  obtain ⟨staled, rated, levelled, stuck, -⟩ := lasts
  obtain ⟨alone₁, alone₂, alone₃, alone₄⟩ := alone
  have stale := checkStale_state c now st
  have stale_raises := checkStale_raises c now st
  have rate_raises := checkRate_raises c now (checkStale c now st).1
  have level_raises := checkLevel_raises c now (checkRate c now (checkStale c now st).1).1
  have stuck_raises := checkStuck_raises c now (checkLevel c now (checkRate c now (checkStale c now st).1).1).1
  obtain ⟨pv, rate, -⟩ := checkRate_spec c now (checkStale c now st).1
  obtain ⟨pv', level, -⟩ := checkLevel_spec c now (checkRate c now (checkStale c now st).1).1
  intro state preview seen member
  simp only [tick, checkWindow, andThen, List.mem_append] at member
  obtain member | (member | member) | member := member
  · obtain starts | nothing := stale_raises state preview seen member
    · refine held ?_
      rw [holds_eq, starts.1]
      exact alone₁ starts
    · exact staled nothing
  · obtain starts | nothing := rate_raises state preview seen member
    · refine staled ?_
      rw [stale] at starts ⊢
      rw [holds_eq, starts.1]
      exact alone₂ starts
    · exact rated nothing
  · obtain starts | nothing := level_raises state preview seen member
    · refine rated ?_
      rw [rate, stale] at starts ⊢
      rw [holds_eq, starts.1]
      exact alone₃ starts
    · exact levelled nothing
  · obtain starts | nothing := stuck_raises state preview seen member
    · refine levelled ?_
      rw [level, rate, stale] at starts ⊢
      rw [holds_eq, starts.1]
      exact alone₄ starts
    · exact stuck nothing

end Turns
end SubjectState
namespace Engine
open SubjectState
variable {F : Type} {e : Engine F} {k : Str} {a : Alert} {now : Int}

/-- An alert that is the same but for what it shows and its mark. -/
def Same (a a' : Alert) : Prop :=
  a'.ruleID = a.ruleID ∧ a'.since = a.since ∧ a'.ackedAt = a.ackedAt ∧ a'.ackedBy = a.ackedBy

theorem acts_same {c : Compiled F} {connID subject : Str} {effects : List Effect} (gentle : Gentle effects)
    (found : e.active.lookup k = some a) :
    ∃ a', (effects.foldl (act c connID subject now) e).active.lookup k = some a' ∧ Same a a' := by
  induction effects generalizing e a with
  | nil => exact ⟨a, found, rfl, rfl, rfl, rfl⟩
  | cons effect effects ih =>
    have rest : Gentle effects := fun state preview seen member => gentle state preview seen (List.mem_cons_of_mem _ member)
    have step : ∃ a', (e.act c connID subject now effect).active.lookup k = some a' ∧ Same a a' := by
      rw [act_lookup, found]
      split
      · cases effect with
        | change state preview seen => exact absurd List.mem_cons_self (gentle state preview seen)
        | left state preview => exact ⟨_, rfl, rfl, rfl, rfl, rfl⟩
        | update state preview =>
          refine ⟨_, rfl, ?_⟩
          simp only
          split <;> exact ⟨rfl, rfl, rfl, rfl⟩
      · exact ⟨a, rfl, rfl, rfl, rfl, rfl⟩
    obtain ⟨a', found', rule, since, at_, by_⟩ := step
    obtain ⟨a'', found'', rule', since', at', by'⟩ := ih rest found'
    exact ⟨a'', found'', rule'.trans rule, since'.trans since, at'.trans at_, by'.trans by_⟩

/-- A turn under another key leaves an alert alone. -/
theorem turn_other {c : Compiled F} {k' : Str} {st : SubjectState F} {turned : SubjectState F × List Effect}
    (other : k ≠ key c.id st.connID st.subject) : (e.turn c k' st now turned).active.lookup k = e.active.lookup k := by
  unfold turn
  generalize e₁ : ({ e with states := e.states.insert k' turned.1 } : Engine F) = e₀
  have start : e₀.active = e.active := e₁ ▸ rfl
  rw [← start]
  clear start e₁
  induction turned.2 generalizing e₀ with
  | nil => rfl
  | cons effect effects ih =>
    rw [List.foldl_cons, ih, act_lookup, if_neg other]

/-- The turn of the state under a key in a call. -/
def turnOf [Numbers F] [Payloads F] (e : Engine F) (k : Str) (op : Op F) : Option (SubjectState F × Compiled F) :=
  (e.states.lookup k).bind fun st => (e.byID.lookup st.ruleID).bind fun c =>
    match op with
    | .observe connID _ r _ =>
      if c.enabled ∧ matchSubject c.pattern r.subject ∧ st.connID = connID ∧ st.subject = r.subject then some (st, c) else none
    | .tick _ _ => if c.enabled then some (st, c) else none
    | _ => none

/-- Some condition of the subject holds all through a call. -/
def Lasts [Numbers F] [Payloads F] (e : Engine F) (k : Str) (op : Op F) : Prop :=
  ∀ st c, e.turnOf k op = some (st, c) →
    match op with
    | .observe _ _ r now => ∀ st' ∈ passes (observeStages c r now) st, st'.holds ≠ none
    | .tick _ now => ∀ st' ∈ passes (tickStages c now) st, st'.holds ≠ none
    | _ => True

/-- No condition of the subject starts in a call while another holds. -/
def Alone [Numbers F] [Payloads F] (e : Engine F) (k : Str) (op : Op F) : Prop :=
  ∀ st c, e.turnOf k op = some (st, c) →
    match op with
    | .observe _ _ r now => st.ObserveAlone c r now
    | .tick _ now => st.TickAlone c now
    | _ => True

/-- The rule of a subject keeps what it watches and stays enabled, and its connection stays. -/
def Stays [Tables] [Filter.Compiler] [Payloads F] (e : Engine F) (k : Str) : Op F → Prop
  | .setRules rules _ _ _ => ∀ st, e.states.lookup k = some st → ∀ cs byID, compile rules ∅ = .ok (cs, byID) →
      ∃ old new, e.byID.lookup st.ruleID = some old ∧ byID.lookup st.ruleID = some new ∧ new.enabled = true ∧ new.watch = old.watch
  | .forget connID _ => ∀ st, e.states.lookup k = some st → st.connID ≠ connID
  | _ => True

/-- When and by whom an alert was acknowledged, after a call. -/
def acknowledged (k : Str) (before : Int × Str) : Op F → Int × Str
  | .ack k' by_ acked now => if k' = k then if acked then (now, by_) else (0, []) else before
  | _ => before

section Observe
variable [Numbers F] [Payloads F] {connID : Str} {r : Record}

theorem observeAt_alert {c : Compiled F} (named : e.Named) (plain : Plain c.id) (conn : Plain connID)
    (other : k ≠ key c.id connID r.subject) : (e.observeAt connID r now c).active.lookup k = e.active.lookup k := by
  obtain ⟨-, owner, subject⟩ := stateAt_names named plain conn r.subject
  unfold observeAt
  split
  · rfl
  · exact turn_other (by rwa [owner, subject])

theorem observeFold_alert {cs : List (Compiled F)} (named : e.Named) (plain : ∀ c ∈ cs, Plain c.id) (conn : Plain connID)
    (other : ∀ c ∈ cs, k ≠ key c.id connID r.subject) :
    (cs.foldl (observeAt connID r now) e).active.lookup k = e.active.lookup k := by
  induction cs generalizing e with
  | nil => rfl
  | cons c cs ih =>
    have own := plain c List.mem_cons_self
    rw [List.foldl_cons, ih (observeAt_named named own conn r now) (fun c member => plain c (List.mem_cons_of_mem _ member))
      (fun c member => other c (List.mem_cons_of_mem _ member)), observeAt_alert named own conn (other c List.mem_cons_self)]

theorem observe_same (owned : e.Owned) (conn : Plain connID) {now : Nat} (found : e.active.lookup k = some a)
    (lasts : e.Lasts k (.observe connID conn r now)) (alone : e.Alone k (.observe connID conn r now)) :
    ∃ a', (e.observe connID r now).active.lookup k = some a' ∧ Same a a' := by
  obtain ⟨st, state, -, -⟩ := owned.alerts k a found
  obtain ⟨place, plain', conn'⟩ := owned.named.states k st state
  have plain := owned.named.rules
  rw [observe_eq]
  by_cases mine : ∃ c ∈ e.rules, k = key c.id connID r.subject
  · obtain ⟨c, listed, here⟩ := mine
    obtain ⟨id, owner, subject⟩ := key_injective (plain c listed) plain' conn conn' (here.symm.trans place)
    obtain ⟨first, last, split⟩ := List.append_of_mem listed
    have distinct := owned.distinct
    rw [split, List.map_append, List.map_cons, List.nodup_middle, List.nodup_cons, List.mem_append, not_or] at distinct
    obtain ⟨⟨before, after⟩, -⟩ := distinct
    have plain_first : ∀ c ∈ first, Plain c.id := fun c member => plain c (split ▸ List.mem_append_left _ member)
    have plain_last : ∀ c ∈ last, Plain c.id :=
      fun c member => plain c (split ▸ List.mem_append_right _ (List.mem_cons_of_mem _ member))
    have apart {cs : List (Compiled F)} (others : c.id ∉ cs.map (·.id)) (plain_cs : ∀ c ∈ cs, Plain c.id) :
        ∀ c' ∈ cs, k ≠ key c'.id connID r.subject := by
      intro c' member same
      have id' := (key_injective (plain c listed) (plain_cs c' member) conn conn (here.symm.trans same)).1
      exact others (List.mem_map.mpr ⟨c', member, id'.symm⟩)
    rw [split, List.foldl_append, List.foldl_cons]
    obtain ⟨named₁, -, -, states₁⟩ := observeFold_spec owned.named plain_first conn r now
    have active₁ : (first.foldl (observeAt connID r now) e).active.lookup k = e.active.lookup k :=
      observeFold_alert owned.named plain_first conn (apart before plain_first)
    have states₁ := states₁ k (apart before plain_first)
    generalize first.foldl (observeAt connID r now) e = e₁ at *
    rw [observeFold_alert (observeAt_named named₁ (plain c listed) conn r now) plain_last conn (apart after plain_last)]
    rw [found] at active₁
    have its : e₁.stateAt c connID r.subject = st := by
      rw [stateAt, ← here, states₁, state]
      rfl
    unfold observeAt
    split
    · exact ⟨a, active₁, rfl, rfl, rfl, rfl⟩
    · rename_i takes
      rw [not_or, not_not, not_not] at takes
      have turn : e.turnOf k (.observe connID conn r now) = some (st, c) := by
        rw [turnOf, state, Option.bind_some, ← id, owned.rules c listed, Option.bind_some]
        exact if_pos ⟨takes.1, takes.2, owner.symm, subject.symm⟩
      rw [its]
      exact acts_same (observe_gentle c r now st (alone st c turn) (lasts st c turn)) active₁
  · rw [observeFold_alert owned.named plain conn fun c member same => mine ⟨c, member, same⟩]
    exact ⟨a, found, rfl, rfl, rfl, rfl⟩

end Observe

section Tick
variable [Numbers F]

theorem tickAt_other (named : e.Named) (now : Int) {k' : Str} (other : k ≠ k') :
    (e.tickAt now k').active.lookup k = e.active.lookup k ∧ (e.tickAt now k').states.lookup k = e.states.lookup k := by
  unfold tickAt
  split
  · exact ⟨rfl, rfl⟩
  · rename_i st state
    split
    · exact ⟨rfl, rfl⟩
    · rename_i c table
      split
      · exact ⟨rfl, rfl⟩
      · obtain ⟨place, -, -⟩ := named.states k' st state
        have id := named.byID st.ruleID c table
        refine ⟨turn_other (id ▸ place ▸ other), ?_⟩
        rw [(turn_states c k' st now _).1, AList.lookup_insert_ne other]

theorem tickFold_other (owned : e.Owned) (now : Int) {keys : List Str} (absent : k ∉ keys) :
    (keys.foldl (tickAt now) e).active.lookup k = e.active.lookup k ∧
      (keys.foldl (tickAt now) e).states.lookup k = e.states.lookup k := by
  induction keys generalizing e with
  | nil => exact ⟨rfl, rfl⟩
  | cons k' keys ih =>
    rw [List.mem_cons, not_or] at absent
    obtain ⟨active, states⟩ := tickAt_other owned.named now absent.1
    obtain ⟨active', states'⟩ := ih ((tickAt_kept owned now k').owned owned) absent.2
    exact ⟨active'.trans active, states'.trans states⟩

theorem tick_same [Payloads F] (owned : e.Owned) (rt : Runtime) {now : Nat} (found : e.active.lookup k = some a)
    (lasts : e.Lasts k (.tick rt now)) (alone : e.Alone k (.tick rt now)) :
    ∃ a', (e.tick rt now).active.lookup k = some a' ∧ Same a a' := by
  obtain ⟨st, state, -, held⟩ := owned.alerts k a found
  have among : k ∈ rt.range e.states.keys := rt.mem_range.mpr (AList.lookup_isSome.mp (Option.isSome_of_eq_some state))
  have distinct : (rt.range e.states.keys).Nodup := (rt.range_perm _).nodup_iff.mpr e.states.keys_nodup
  obtain ⟨first, last, split⟩ := List.append_of_mem among
  rw [split, List.nodup_middle, List.nodup_cons, List.mem_append, not_or] at distinct
  obtain ⟨⟨before, after⟩, -⟩ := distinct
  have ticked : ∃ a', ((rt.range e.states.keys).foldl (tickAt now) e).active.lookup k = some a' ∧ Same a a' := by
    rw [split, List.foldl_append, List.foldl_cons]
    obtain ⟨active₁, states₁⟩ := tickFold_other owned now before
    have kept₁ := tickFold_kept owned now first
    have owned₁ := kept₁.owned owned
    have byID₁ := (kept₁.sends owned).byID
    generalize first.foldl (tickAt now) e = e₁ at *
    rw [(tickFold_other ((tickAt_kept owned₁ now k).owned owned₁) now after).1]
    rw [found] at active₁
    unfold tickAt
    rw [states₁, state]
    simp only
    rw [byID₁]
    cases table : e.byID.lookup st.ruleID with
    | none => exact ⟨a, active₁, rfl, rfl, rfl, rfl⟩
    | some c =>
      simp only
      split
      · exact ⟨a, active₁, rfl, rfl, rfl, rfl⟩
      · rename_i enabled
        have turn : e.turnOf k (.tick rt now) = some (st, c) := by
          rw [turnOf, state, Option.bind_some, table, Option.bind_some]
          exact if_pos (not_not.mp enabled)
        refine acts_same (tick_gentle c now st ?_ (alone st c turn) (lasts st c turn)) active₁
        exact Option.isSome_iff_ne_none.mp held
  obtain ⟨a', found', rule, since, at_, by_⟩ := ticked
  refine ⟨_, (refreshMuted_active rt now k).trans (congrArg (Option.map _) found'), ?_⟩
  unfold remarked
  split <;> exact ⟨rule, since, at_, by_⟩

end Tick
section Runs
variable [Tables] [Filter.Compiler] [Numbers F] [Payloads F] [DecidableEq F]

/-- What keeps an alert through a call: its rule stays, a condition holds all the time, and none starts
while another holds. -/
structure Holds (e : Engine F) (k : Str) (op : Op F) : Prop where
  stays : e.Stays k op
  lasts : e.Lasts k op
  alone : e.Alone k op

omit [Tables] [Filter.Compiler] [Numbers F] [Payloads F] [DecidableEq F] in
theorem sweep_same {p : SubjectState F → Bool} (keys : List Str) {st : SubjectState F} (state : e.states.lookup k = some st)
    (stays : p st = false) :
    (keys.foldl (sweepAt p) e).active.lookup k = e.active.lookup k ∧ (keys.foldl (sweepAt p) e).states.lookup k = some st := by
  induction keys generalizing e with
  | nil => exact ⟨rfl, state⟩
  | cons k' keys ih =>
    have first : (e.sweepAt p k').active.lookup k = e.active.lookup k ∧ (e.sweepAt p k').states.lookup k = some st := by
      unfold sweepAt
      cases found : e.states.lookup k' with
      | none => exact ⟨rfl, state⟩
      | some st' =>
        simp only
        split
        · rename_i goes
          have other : k ≠ k' := by
            rintro rfl
            rw [state] at found
            cases found
            rw [stays] at goes
            cases goes
          exact ⟨AList.lookup_erase_ne other, (AList.lookup_erase_ne other).trans state⟩
        · exact ⟨rfl, state⟩
    obtain ⟨active, states⟩ := ih first.2
    exact ⟨active.trans first.1, states⟩

omit [Tables] [Filter.Compiler] [Numbers F] [Payloads F] [DecidableEq F] in
theorem refreshed_same (rt : Runtime) (now : Int) (found : e.active.lookup k = some a) :
    ∃ a', (e.refreshMuted rt now).active.lookup k = some a' ∧ Same a a' := by
  refine ⟨_, (refreshMuted_active rt now k).trans (congrArg (Option.map _) found), ?_⟩
  unfold remarked
  split <;> exact ⟨rfl, rfl, rfl, rfl⟩

omit [Numbers F] in
theorem setRules_same (owned : e.Owned) {rules : List (Rule F)} {plain : ∀ rule ∈ rules, Plain rule.id} {rt : Runtime} {now : Nat}
    (found : e.active.lookup k = some a) (stays : e.Stays k (.setRules rules plain rt now)) {e' : Engine F}
    (set : e.setRules rules rt now = .ok e') : ∃ a', e'.active.lookup k = some a' ∧ Same a a' := by
  obtain ⟨st, state, -, -⟩ := owned.alerts k a found
  unfold setRules at set
  simp only [bind, Except.bind, pure, Except.pure] at set
  split at set
  · cases set
  · rename_i compiled compiledRules
    obtain ⟨cs, byID⟩ := compiled
    simp only [Except.ok.injEq] at set
    obtain ⟨old, new, before, after, enabled, watch⟩ := stays st state cs byID compiledRules
    have current : outdated e.byID byID st = false := by
      rw [outdated, after, before]
      simp only [enabled, watch, Bool.not_true, Bool.false_or, ne_eq, not_true, decide_false]
    have same := sweep_with (e := e) (outdated e.byID byID) (rt.range e.states.keys) cs byID
    obtain ⟨active, -⟩ := sweep_same (rt.range e.states.keys) state current
    change ((rt.range e.states.keys).foldl (sweepAt (outdated e.byID byID)) { e with rules := cs, byID := byID }).refreshMuted rt now
      = e' at set
    rw [same] at set
    subst set
    exact refreshed_same rt now (active.trans found)

/-- One call. -/
theorem step_acknowledged (owned : e.Owned) (found : e.active.lookup k = some a) {op : Op F} (holds : e.Holds k op) :
    ∃ a', (e.step op).active.lookup k = some a' ∧ a'.since = a.since ∧
      (a'.ackedAt, a'.ackedBy) = acknowledged k (a.ackedAt, a.ackedBy) op := by
  obtain ⟨stays, lasts, alone⟩ := holds
  have same {e' : Engine F} (kept : ∃ a', e'.active.lookup k = some a' ∧ Same a a') :
      ∃ a', e'.active.lookup k = some a' ∧ a'.since = a.since ∧ (a'.ackedAt, a'.ackedBy) = (a.ackedAt, a.ackedBy) := by
    obtain ⟨a', found', -, since, at_, by_⟩ := kept
    exact ⟨a', found', since, by rw [at_, by_]⟩
  have still : ∃ a', e.active.lookup k = some a' ∧ Same a a' := ⟨a, found, rfl, rfl, rfl, rfl⟩
  cases op with
  | observe connID plain r now => exact same (observe_same owned plain found lasts alone)
  | tick rt now => exact same (tick_same owned rt found lasts alone)
  | setRules rules plain rt now =>
    simp only [step]
    cases set : e.setRules rules rt now with
    | error => exact same still
    | ok e' => exact same (setRules_same owned found stays set)
  | setMaintenance list rt now =>
    simp only [step]
    cases set : e.setMaintenance list rt now with
    | error => exact same still
    | ok e' =>
      unfold setMaintenance at set
      simp only [bind, Except.bind, pure, Except.pure] at set
      split at set
      · cases set
      · rename_i out _
        cases set
        exact same (refreshed_same (e := { e with maintenance := out }) rt now found)
  | ack k' by_ acked now =>
    simp only [step, ack, acknowledged]
    by_cases own : k' = k
    · subst own
      rw [found, if_pos rfl]
      simp only
      refine ⟨_, AList.lookup_insert _, ?_⟩
      cases acked <;> exact ⟨rfl, rfl⟩
    · rw [if_neg own]
      cases there : e.active.lookup k' with
      | none => exact same still
      | some a' => exact ⟨a, (AList.lookup_insert_ne (Ne.symm own)).trans found, rfl, rfl⟩
  | forget connID rt =>
    obtain ⟨st, state, -, -⟩ := owned.alerts k a found
    have gone := stays st state
    rw [step, forget_eq]
    exact ⟨a, (sweep_same (rt.range e.states.keys) state (decide_eq_false gone)).1.trans found, rfl, rfl⟩

/-- As long as a condition holds and none starts beside it, an alert keeps the time it began and what the
last `Ack` of its key said. -/
theorem acknowledged_lasts (before later : List (Op F)) {k : Str} {a : Alert}
    (found : (Transition.run step (new : Engine F) before).active.lookup k = some a)
    (holds : Transition.Along step (fun e op => e.Holds k op) (Transition.run step (new : Engine F) before) later) :
    ∃ a', (Transition.run step (new : Engine F) (before ++ later)).active.lookup k = some a' ∧ a'.since = a.since ∧
      (a'.ackedAt, a'.ackedBy) = later.foldl (acknowledged k) (a.ackedAt, a.ackedBy) := by
  have owned : (Transition.run step (new : Engine F) before).Owned := Transition.always step_owned owned_new
  rw [Transition.run_append]
  generalize Transition.run step (new : Engine F) before = e at *
  induction later generalizing e a with
  | nil => exact ⟨a, found, rfl, rfl⟩
  | cons op later ih =>
    obtain ⟨first, rest⟩ := holds
    obtain ⟨a', found', since, acked⟩ := step_acknowledged owned found first
    obtain ⟨a'', found'', since', acked'⟩ := ih _ found' rest (step_owned _ op owned)
    exact ⟨a'', found'', since'.trans since, acked'.trans (congrArg (later.foldl (acknowledged k)) acked)⟩

end Runs

section Sample

/-- The alert of the rule that fires at once. -/
def alwaysAlert : Str := key ['r'] ['c'] ['s']

def alwaysCalls : List (Op Int) := [.setRules [always] (by decide) .plain 0, .observe ['c'] plain_c beat 1000]

/-- It is acknowledged, and a tick comes before the subject is silent for long. -/
def ackCalls : List (Op Int) := [.ack alwaysAlert "me".toList true 1500, .tick .plain 1800]

theorem acknowledged_lasts_mine : let _ := asciiTables; let _ := yes; let _ := sampleNumbers; let _ := samplePayloads
    ∃ a', (Transition.run step (new : Engine Int) (alwaysCalls ++ ackCalls)).active.lookup alwaysAlert = some a' ∧
      a'.since = 1000 ∧ (a'.ackedAt, a'.ackedBy) = (1500, "me".toList) := by
  intro _ _ _ _
  have there : ((Transition.run step (new : Engine Int) alwaysCalls).active.lookup alwaysAlert).isSome := by decide
  have lasts : ∀ turn ∈ (Transition.run step (new : Engine Int) (alwaysCalls ++ ackCalls.take 1)).turnOf alwaysAlert (.tick .plain 1800),
      ∀ st' ∈ passes (tickStages turn.2 1800) turn.1, st'.holds ≠ none := by
    decide
  have alone : ∀ turn ∈ (Transition.run step (new : Engine Int) (alwaysCalls ++ ackCalls.take 1)).turnOf alwaysAlert (.tick .plain 1800),
      turn.1.TickAlone turn.2 1800 := by
    unfold TickAlone
    decide
  have calm : Holds (Transition.run step (new : Engine Int) (alwaysCalls ++ ackCalls.take 1)) alwaysAlert (.tick .plain 1800) :=
    ⟨trivial, fun st c turn => lasts (st, c) turn, fun st c turn => alone (st, c) turn⟩
  obtain ⟨a', found, since, acked⟩ := acknowledged_lasts alwaysCalls ackCalls (Option.some_get there).symm
    ⟨⟨trivial, fun _ _ _ => trivial, fun _ _ _ => trivial⟩, calm, trivial⟩
  exact ⟨a', found, since, acked⟩

/-- It is acknowledged, and falls silent. -/
def silentCalls : List (Op Int) := [.ack alwaysAlert "me".toList true 1500, .tick .plain 3000]

/-- The subject falls silent while the alert fires: the alert begins again, and nobody has acknowledged it. -/
theorem acknowledged_lost : let _ := asciiTables; let _ := yes; let _ := sampleNumbers; let _ := samplePayloads
    ((Transition.run step (new : Engine Int) (alwaysCalls ++ silentCalls.take 1)).active.lookup alwaysAlert).map
        (fun a => (a.ackedAt, a.ackedBy, a.since)) = some (1500, "me".toList, 1000) ∧
      ((Transition.run step (new : Engine Int) (alwaysCalls ++ silentCalls)).active.lookup alwaysAlert).map
        (fun a => (a.ackedAt, a.ackedBy, a.since)) = some (0, [], 3000) ∧
      ((Transition.run step (new : Engine Int) (alwaysCalls ++ silentCalls)).states.lookup alwaysAlert).map (·.firing) = some true := by
  decide

end Sample
end Engine
end NatsExplorer.Alerts
