import NatsExplorer.Alerts.Active

/-! What one subject under one rule sees of a run: its own messages, and every tick. The state
under its key is what these make of a fresh one, whatever else the engine observes. -/
namespace NatsExplorer.Alerts
open Go

/-- A message of the subject, or the passing of time. -/
inductive Turn where
  | message (r : Record) (now : Nat)
  | tick (now : Nat)

/-- A call that is made all the time. -/
inductive Call where
  | observe (connID : Str) (plain : Plain connID) (r : Record) (now : Nat)
  | tick (rt : Runtime) (now : Nat)

def Call.op {F : Type} : Call → Engine.Op F
  | .observe connID plain r now => .observe connID plain r now
  | .tick rt now => .tick rt now

/-- What a subject sees of a call. -/
def Call.turn (connID subject : Str) : Call → Option Turn
  | .observe connID' _ r now => if connID' = connID ∧ r.subject = subject then some (.message r now) else none
  | .tick _ now => some (.tick now)

namespace SubjectState
variable {F : Type} [Numbers F]

def turned [Payloads F] (c : Compiled F) (st : SubjectState F) : Turn → SubjectState F
  | .message r now => (st.observe c r now).1
  | .tick now => (st.tick c now).1

/-- A subject that has not been seen. -/
def fresh (ruleID connID subject : Str) : SubjectState F where
  ruleID := ruleID
  connID := connID
  subject := subject

/-- Time does nothing to a subject that has not been seen. -/
theorem tick_fresh (c : Compiled F) (now : Int) (ruleID connID subject : Str) :
    (fresh (F := F) ruleID connID subject).tick c now = (fresh ruleID connID subject, []) := by
  have loud : (fresh (F := F) ruleID connID subject).silent c now = false := by
    unfold silent
    split <;> rfl
  have unwatched : (fresh (F := F) ruleID connID subject).watched c now = none := by
    unfold watched
    split <;> rfl
  have moved : (fresh (F := F) ruleID connID subject).unmoved c now = false := by simp [unmoved, fresh]
  have stale : checkStale c now (fresh (F := F) ruleID connID subject) = (fresh ruleID connID subject, []) := by
    rw [checkStale, if_neg (by simp [loud])]
  have rate : checkRate c now (fresh (F := F) ruleID connID subject) = (fresh ruleID connID subject, []) := by
    rw [checkRate, unwatched]
  have level : checkLevel c now (fresh (F := F) ruleID connID subject) = (fresh ruleID connID subject, []) := by
    rw [checkLevel, unwatched]
  have stuck : checkStuck c now (fresh (F := F) ruleID connID subject) = (fresh ruleID connID subject, []) := by
    rw [checkStuck, if_neg (by simp [moved])]
  simp only [tick, checkWindow, andThen, stale, rate, level, stuck, List.append_nil]

end SubjectState

namespace Engine
variable {F : Type} {e : Engine F}

/-- The state of a subject under a rule. -/
def stateAt (e : Engine F) [Numbers F] (c : Compiled F) (connID subject : Str) : SubjectState F :=
  (e.states.lookup (key c.id connID subject)).getD (.fresh c.id connID subject)

/-- A rule is in force. -/
structure Watches (e : Engine F) (c : Compiled F) : Prop where
  named : e.Named
  listed : c ∈ e.rules
  distinct : (e.rules.map (·.id)).Nodup
  table : e.byID.lookup c.id = some c
  enabled : c.enabled = true

theorem turn_states (c : Compiled F) (k : Str) (st : SubjectState F) (now : Int) (turned : SubjectState F × List Effect) :
    (e.turn c k st now turned).states = e.states.insert k turned.1 ∧ (e.turn c k st now turned).byID = e.byID ∧
      (e.turn c k st now turned).rules = e.rules := by
  obtain ⟨states, byID, rules, -⟩ := acts_spec c st.connID st.subject now turned.2 { e with states := e.states.insert k turned.1 }
  exact ⟨states, byID, rules⟩

section Observe
variable [Numbers F] [Payloads F]

/-- The turn of one rule. -/
def observeAt (connID : Str) (r : Record) (now : Int) (e : Engine F) (c : Compiled F) : Engine F :=
  if ¬ c.enabled ∨ ¬ matchSubject c.pattern r.subject then e
  else e.turn c (key c.id connID r.subject) (e.stateAt c connID r.subject) now
    ((e.stateAt c connID r.subject).observe c r now)

theorem observe_eq (connID : Str) (r : Record) (now : Int) :
    e.observe connID r now = e.rules.foldl (observeAt connID r now) e := rfl

omit [Payloads F] in
theorem stateAt_names (named : e.Named) {c : Compiled F} (plain : Plain c.id) {connID : Str} (conn : Plain connID) (subject : Str) :
    (e.stateAt c connID subject).ruleID = c.id ∧ (e.stateAt c connID subject).connID = connID ∧
      (e.stateAt c connID subject).subject = subject := by
  unfold stateAt
  cases found : e.states.lookup (key c.id connID subject) with
  | none => exact ⟨rfl, rfl, rfl⟩
  | some st =>
    obtain ⟨here, rule, owner⟩ := named.states _ st found
    obtain ⟨rule, owner, subject⟩ := key_injective plain rule conn owner here
    exact ⟨rule.symm, owner.symm, subject.symm⟩

theorem observeAt_named (named : e.Named) {c : Compiled F} (plain : Plain c.id) {connID : Str} (conn : Plain connID)
    (r : Record) (now : Int) : (e.observeAt connID r now c).Named := by
  unfold observeAt
  split
  · exact named
  · obtain ⟨rule, owner, subject⟩ := stateAt_names named plain conn r.subject
    obtain ⟨rule', owner', subject'⟩ := SubjectState.observe_names c r now (e.stateAt c connID r.subject)
    refine named.turn (by rw [owner, subject]) ?_
    rw [rule', owner', subject', rule, owner, subject]
    exact ⟨rfl, plain, conn⟩

theorem observeAt_same (connID : Str) (r : Record) (now : Int) (c : Compiled F) :
    (e.observeAt connID r now c).byID = e.byID ∧ (e.observeAt connID r now c).rules = e.rules := by
  unfold observeAt
  split
  · exact ⟨rfl, rfl⟩
  · exact (turn_states c _ _ now _).2

theorem observeAt_other {connID : Str} {r : Record} {now : Int} {c : Compiled F} {k : Str}
    (other : k ≠ key c.id connID r.subject) : (e.observeAt connID r now c).states.lookup k = e.states.lookup k := by
  unfold observeAt
  split
  · rfl
  · rw [(turn_states c _ _ now _).1, AList.lookup_insert_ne other]

theorem observeAt_own {connID : Str} {r : Record} {now : Int} {c : Compiled F} (enabled : c.enabled = true)
    (fits : matchSubject c.pattern r.subject = true) :
    (e.observeAt connID r now c).stateAt c connID r.subject = ((e.stateAt c connID r.subject).observe c r now).1 := by
  rw [observeAt, if_neg (by simp [enabled, fits]), stateAt, (turn_states c _ _ now _).1, AList.lookup_insert]
  rfl

/-- What the turns of some rules leave alone. -/
theorem observeFold_spec (named : e.Named) {cs : List (Compiled F)} (plain : ∀ c ∈ cs, Plain c.id) {connID : Str}
    (conn : Plain connID) (r : Record) (now : Int) :
    let e' := cs.foldl (observeAt connID r now) e
    e'.Named ∧ e'.byID = e.byID ∧ e'.rules = e.rules ∧
      ∀ k, (∀ c ∈ cs, k ≠ key c.id connID r.subject) → e'.states.lookup k = e.states.lookup k := by
  induction cs generalizing e with
  | nil => exact ⟨named, rfl, rfl, fun _ _ => rfl⟩
  | cons c cs ih =>
    obtain ⟨byID, rules⟩ := observeAt_same (e := e) connID r now c
    obtain ⟨named, byID', rules', others⟩ := ih (observeAt_named named (plain c List.mem_cons_self) conn r now)
      fun c member => plain c (List.mem_cons_of_mem _ member)
    refine ⟨named, byID'.trans byID, rules'.trans rules, fun k other => ?_⟩
    exact (others k fun c member => other c (List.mem_cons_of_mem _ member)).trans
      (observeAt_other (other c List.mem_cons_self))

/-- Of the rules with an id one takes its turn under its key. -/
theorem observeFold_own (named : e.Named) {cs : List (Compiled F)} (plain : ∀ c ∈ cs, Plain c.id)
    (distinct : (cs.map (·.id)).Nodup) {c : Compiled F} (member : c ∈ cs) (enabled : c.enabled = true) {connID : Str}
    (conn : Plain connID) {r : Record} (fits : matchSubject c.pattern r.subject = true) (now : Int) :
    (cs.foldl (observeAt connID r now) e).stateAt c connID r.subject = ((e.stateAt c connID r.subject).observe c r now).1 := by
  obtain ⟨first, last, rfl⟩ := List.append_of_mem member
  rw [List.map_append, List.map_cons, List.nodup_middle, List.nodup_cons, List.mem_append, not_or] at distinct
  obtain ⟨⟨before, after⟩, -⟩ := distinct
  have own : Plain c.id := plain c member
  have apart {cs : List (Compiled F)} (others : c.id ∉ cs.map (·.id)) (plain : ∀ c ∈ cs, Plain c.id) :
      ∀ c' ∈ cs, key c.id connID r.subject ≠ key c'.id connID r.subject := by
    intro c' member same
    exact others (List.mem_map.mpr ⟨c', member, (key_injective own (plain c' member) conn conn same).1.symm⟩)
  have plain_first : ∀ c ∈ first, Plain c.id := fun c member => plain c (List.mem_append_left _ member)
  have plain_last : ∀ c ∈ last, Plain c.id := fun c member => plain c (List.mem_append_right _ (List.mem_cons_of_mem _ member))
  obtain ⟨named, -, -, still⟩ := observeFold_spec named plain_first conn r now
  rw [List.foldl_append, List.foldl_cons]
  generalize first.foldl (observeAt connID r now) e = e₁ at named still ⊢
  obtain ⟨-, -, -, still'⟩ := observeFold_spec (observeAt_named named own conn r now) plain_last conn r now
  have unchanged : e₁.stateAt c connID r.subject = e.stateAt c connID r.subject := by
    rw [stateAt, stateAt, still _ (apart before plain_first)]
  rw [stateAt, still' _ (apart after plain_last), ← stateAt, observeAt_own enabled fits, unchanged]

end Observe

section Watches
variable [Numbers F] {c : Compiled F} {connID subject : Str}

/-- The state after a call. -/
def seen [Payloads F] (c : Compiled F) (connID subject : Str) (st : SubjectState F) (call : Call) : SubjectState F :=
  (call.turn connID subject).elim st (st.turned c)

theorem Watches.observe [Payloads F] (watches : e.Watches c) (conn : Plain connID) (fits : matchSubject c.pattern subject = true)
    {connID' : Str} (conn' : Plain connID') (r : Record) (now : Nat) :
    (e.observe connID' r now).Watches c ∧
      (e.observe connID' r now).stateAt c connID subject =
        seen c connID subject (e.stateAt c connID subject) (.observe connID' conn' r now) := by
  obtain ⟨named, byID, rules, others⟩ := observeFold_spec watches.named watches.named.rules conn' r now
  rw [observe_eq]
  refine ⟨⟨named, rules.symm ▸ watches.listed, rules.symm ▸ watches.distinct, byID.symm ▸ watches.table, watches.enabled⟩, ?_⟩
  have plain := watches.named.rules
  simp only [seen, Call.turn]
  by_cases own : connID' = connID ∧ r.subject = subject
  · rw [if_pos own, Option.elim_some]
    obtain ⟨rfl, rfl⟩ := own
    exact observeFold_own watches.named plain watches.distinct watches.listed watches.enabled conn fits now
  · rw [if_neg own, Option.elim_none, stateAt, stateAt, others]
    intro c' member same
    obtain ⟨-, sameConn, sameSubject⟩ := key_injective (plain c watches.listed) (plain c' member) conn conn' same
    exact own ⟨sameConn.symm, sameSubject.symm⟩

theorem tickAt_same (now : Int) (k : Str) : (e.tickAt now k).byID = e.byID ∧ (e.tickAt now k).rules = e.rules := by
  unfold tickAt
  split
  · exact ⟨rfl, rfl⟩
  · split
    · exact ⟨rfl, rfl⟩
    · split
      · exact ⟨rfl, rfl⟩
      · exact (turn_states _ _ _ _ _).2

theorem tickFold_same (now : Int) (keys : List Str) :
    (keys.foldl (tickAt now) e).byID = e.byID ∧ (keys.foldl (tickAt now) e).rules = e.rules := by
  induction keys generalizing e with
  | nil => exact ⟨rfl, rfl⟩
  | cons k keys ih =>
    obtain ⟨byID, rules⟩ := tickAt_same (e := e) now k
    exact ⟨ih.1.trans byID, ih.2.trans rules⟩

theorem Watches.tick (watches : e.Watches c) (conn : Plain connID) (rt : Runtime) (now : Int) :
    (e.tick rt now).Watches c ∧
      (e.tick rt now).stateAt c connID subject = ((e.stateAt c connID subject).tick c now).1 := by
  have nodup : (rt.range e.states.keys).Nodup := (rt.range_perm _).nodup_iff.mpr e.states.keys_nodup
  obtain ⟨named, outside, inside⟩ := tickFold_spec watches.named now nodup
  have same := tickFold_same (e := e) now (rt.range e.states.keys)
  unfold Engine.tick
  generalize (rt.range e.states.keys).foldl (tickAt now) e = e' at named outside inside same ⊢
  obtain ⟨states, byID, rules, -⟩ := refreshMuted_same (e := e') rt now
  rw [same.1] at byID
  rw [same.2] at rules
  have named' : (e'.refreshMuted rt now).Named := by
    constructor
    · rw [states]
      exact named.states
    · rw [byID]
      exact watches.named.byID
    · rw [rules]
      exact watches.named.rules
  refine ⟨⟨named', rules.symm ▸ watches.listed, rules.symm ▸ watches.distinct, byID.symm ▸ watches.table, watches.enabled⟩, ?_⟩
  rw [stateAt, stateAt, states]
  cases found : e.states.lookup (key c.id connID subject) with
  | none =>
    have absent : key c.id connID subject ∉ rt.range e.states.keys :=
      fun member => AList.lookup_eq_none.mp found (rt.mem_range.mp member)
    rw [(outside _ absent).1, found, Option.getD_none, SubjectState.tick_fresh]
  | some st =>
    have member : key c.id connID subject ∈ rt.range e.states.keys :=
      rt.mem_range.mpr (AList.lookup_isSome.mp (Option.isSome_of_eq_some found))
    obtain ⟨here, rule, owner⟩ := watches.named.states _ st found
    have own : st.ruleID = c.id :=
      (key_injective (watches.named.rules c watches.listed) rule conn owner here).1.symm
    rw [(inside _ member).1, found, Option.map_some, Option.getD_some, Option.getD_some, ticked, own, watches.table]
    simp only [watches.enabled, not_true, if_false]

end Watches

section Calls
variable [Tables] [Filter.Compiler] [Numbers F] [Payloads F] [DecidableEq F] {c : Compiled F} {connID subject : Str}

/-- The states follow the calls. -/
theorem Watches.call (watches : e.Watches c) (conn : Plain connID) (fits : matchSubject c.pattern subject = true) (call : Call) :
    (e.step call.op).Watches c ∧
      (e.step call.op).stateAt c connID subject = seen c connID subject (e.stateAt c connID subject) call := by
  cases call with
  | observe connID' conn' r now => exact watches.observe conn fits conn' r now
  | tick rt now => exact watches.tick conn rt now

/-- The state of a subject after a run is what its turns make of it. -/
theorem Watches.run (watches : e.Watches c) (conn : Plain connID) (fits : matchSubject c.pattern subject = true)
    (calls : List Call) :
    (Transition.run (fun e call => e.step (Call.op call)) e calls).Watches c ∧
      (Transition.run (fun e call => e.step (Call.op call)) e calls).stateAt c connID subject =
        (calls.filterMap (Call.turn connID subject)).foldl (SubjectState.turned c) (e.stateAt c connID subject) := by
  induction calls generalizing e with
  | nil => exact ⟨watches, rfl⟩
  | cons call calls ih =>
    obtain ⟨watches, state⟩ := watches.call conn fits call
    obtain ⟨last, rest⟩ := ih watches
    refine ⟨last, rest.trans ?_⟩
    rw [state, seen]
    cases turn : call.turn connID subject with
    | none => rw [List.filterMap_cons_none turn, Option.elim_none]
    | some t => rw [List.filterMap_cons_some turn, Option.elim_some, List.foldl_cons]

end Calls

section Rules
variable [Tables] [Filter.Compiler] [Payloads F]

/-- What the compiler says of a rule's expression, as a check. -/
def expressionCheck (r : Rule F) : Bool × Str :=
  match Filter.Compiler.compile r.expr with
  | .error err => (r.expr ≠ [], "expression: ".toList ++ err)
  | .ok _ => (false, [])

/-- A rule that is valid has an expression that compiles, or none. -/
theorem validate_expr {rule r : Rule F} (valid : rule.validate = .ok r) (asked : r.expr ≠ []) :
    ∃ prog, Filter.Compiler.compile r.expr = .ok prog := by
  have own := Rule.validate_completed valid
  unfold Rule.validate at valid
  split at valid
  · cases valid
  · rename_i fine
    have listed : expressionCheck rule.completed ∈ rule.checks := by
      unfold Rule.checks
      exact List.mem_append_left _ (List.mem_append_left _ (.tail _ (.tail _ (.tail _ (.head _)))))
    rw [← own] at listed
    have passed := List.find?_eq_none.mp fine _ listed
    cases compiled : Filter.Compiler.compile r.expr with
    | ok prog => exact ⟨prog, rfl⟩
    | error err =>
      rw [expressionCheck, compiled] at passed
      exact absurd (decide_eq_true asked) passed

/-- The rules are in the table under their ids, which are distinct, each with its program. -/
theorem compile_table {rules : List (Rule F)} {byID byID' : Map Str (Compiled F)} {cs : List (Compiled F)}
    (compiled : compile rules byID = .ok (cs, byID')) :
    (∀ id c, byID.lookup id = some c → byID'.lookup id = some c) ∧
      (∀ c ∈ cs, byID.lookup c.id = none ∧ byID'.lookup c.id = some c) ∧ (cs.map (·.id)).Nodup ∧
      ∀ c ∈ cs, c.expr ≠ [] → ∃ prog, Filter.Compiler.compile c.expr = .ok prog ∧ c.prog = some prog := by
  induction rules generalizing byID byID' cs with
  | nil =>
    simp only [compile, Except.ok.injEq, Prod.mk.injEq] at compiled
    obtain ⟨rfl, rfl⟩ := compiled
    exact ⟨fun _ _ found => found, fun c none => absurd none List.not_mem_nil, List.nodup_nil,
      fun c none => absurd none List.not_mem_nil⟩
  | cons rule rules ih =>
    obtain ⟨c, cs, valid, fresh, prog, rfl, compiledRest⟩ := compile_cons compiled
    obtain ⟨kept, table, nodup, progs⟩ := ih compiledRest
    have other {c' : Compiled F} (member : c' ∈ cs) : c'.id ≠ c.id := by
      intro same
      have absent := (table c' member).1
      rw [same, AList.lookup_insert] at absent
      cases absent
    refine ⟨fun id c' found => ?_, fun c' member => ?_, ?_, fun c' member asked => ?_⟩
    · refine kept id c' ?_
      have differ : id ≠ c.id := by
        rintro rfl
        rw [fresh] at found
        cases found
      rw [AList.lookup_insert_ne differ, found]
    · rcases List.mem_cons.mp member with rfl | member
      · exact ⟨fresh, kept _ _ (AList.lookup_insert _)⟩
      · obtain ⟨absent, present⟩ := table c' member
        rw [AList.lookup_insert_ne (other member)] at absent
        exact ⟨absent, present⟩
    · refine List.nodup_cons.mpr ⟨fun member => ?_, nodup⟩
      obtain ⟨c', member, same⟩ := List.mem_map.mp member
      exact other member same
    · rcases List.mem_cons.mp member with rfl | member
      · obtain ⟨compiled, same⟩ := validate_expr valid asked
        rw [if_neg asked, same] at prog
        exact ⟨compiled, same, prog⟩
      · exact progs c' member asked

variable [DecidableEq F]

/-- What `SetRules` makes of a new engine. -/
theorem setRules_new {rules : List (Rule F)} {rt : Runtime} {now : Int} {e : Engine F}
    (set : (new : Engine F).setRules rules rt now = .ok e) :
    compile rules ∅ = .ok (e.rules, e.byID) ∧ e.states = ∅ := by
  unfold setRules at set
  simp only [bind, Except.bind, pure, Except.pure] at set
  split at set
  · cases set
  · rename_i compiled compiledRules
    have none : rt.range (new : Engine F).states.keys = [] := List.perm_nil.mp (rt.range_perm _)
    simp only [none, List.foldl_nil, Except.ok.injEq] at set
    subst set
    obtain ⟨states, byID, rules, -⟩ := refreshMuted_same (e := { (new : Engine F) with rules := compiled.1, byID := compiled.2 }) rt now
    rw [states, byID, rules]
    exact ⟨compiledRules, rfl⟩

/-- The rules that are set on a new engine are in force. -/
theorem watches_set {rules : List (Rule F)} (plain : ∀ rule ∈ rules, Plain rule.id) {rt : Runtime} {now : Int}
    {e : Engine F} (set : (new : Engine F).setRules rules rt now = .ok e) {c : Compiled F} (listed : c ∈ e.rules)
    (enabled : c.enabled = true) [Numbers F] (connID subject : Str) :
    e.Watches c ∧ e.stateAt c connID subject = .fresh c.id connID subject := by
  obtain ⟨compiled, states⟩ := setRules_new set
  obtain ⟨-, table, distinct, -⟩ := compile_table compiled
  refine ⟨⟨(setRules_sound new_sound plain set).named, listed, distinct, (table c listed).2, enabled⟩, ?_⟩
  rw [stateAt, states]
  rfl

end Rules
end Engine

section Runs
open Engine
variable {F : Type} [Tables] [Filter.Compiler] [Numbers F] [Payloads F] [DecidableEq F]

/-- The messages of a subject, with their times. -/
def told (connID subject : Str) (calls : List Call) : List (Record × Nat) :=
  calls.filterMap fun
    | .observe connID' _ r now => if connID' = connID ∧ r.subject = subject then some (r, now) else none
    | .tick _ _ => none

/-- The engine after some calls. -/
def after (e : Engine F) (calls : List Call) : Engine F := Transition.run (fun e call => e.step (Call.op call)) e calls

/-- A subject under a rule, before its first message. -/
structure Followed (e : Engine F) (c : Compiled F) (connID subject : Str) : Prop where
  watches : e.Watches c
  conn : Plain connID
  fits : matchSubject c.pattern subject = true
  fresh : e.stateAt c connID subject = .fresh c.id connID subject

variable {e : Engine F} {c : Compiled F} {connID subject : Str}

/-- What a call does to a subject. -/
theorem Followed.cases (followed : Followed e c connID subject) (before : List Call) (call : Call) :
    let st := (after e before).stateAt c connID subject
    let st' := (after e (before ++ [call])).stateAt c connID subject
    (∃ r now, call.turn connID subject = some (.message r now) ∧ st' = (st.observe c r now).1 ∧
        told connID subject (before ++ [call]) = told connID subject before ++ [(r, now)]) ∨
      (∃ rt now, call = .tick rt now ∧ st' = (st.tick c now).1 ∧
        told connID subject (before ++ [call]) = told connID subject before) ∨
      (call.turn connID subject = none ∧ st' = st ∧ told connID subject (before ++ [call]) = told connID subject before) := by
  obtain ⟨watches, -⟩ := followed.watches.run followed.conn followed.fits before
  obtain ⟨-, state⟩ := watches.call followed.conn followed.fits call
  have grown : told connID subject (before ++ [call]) = told connID subject before ++ told connID subject [call] :=
    List.filterMap_append
  have last : after e (before ++ [call]) = (after e before).step call.op := Transition.run_append
  rw [last, grown]
  cases call with
  | observe connID' plain r now =>
    by_cases own : connID' = connID ∧ r.subject = subject
    · have turn : (Call.observe connID' plain r now).turn connID subject = some (.message r now) := if_pos own
      have its : told connID subject [.observe connID' plain r now] = [(r, now)] :=
        List.filterMap_cons_some (if_pos own)
      rw [seen, turn, Option.elim_some] at state
      exact .inl ⟨r, now, turn, state, by rw [its]⟩
    · have turn : (Call.observe connID' plain r now).turn connID subject = none := if_neg own
      have its : told connID subject [.observe connID' plain r now] = [] := List.filterMap_cons_none (if_neg own)
      rw [seen, turn, Option.elim_none] at state
      exact .inr (.inr ⟨turn, state, by rw [its, List.append_nil]⟩)
  | tick rt now => exact .inr (.inl ⟨rt, now, rfl, state, List.append_nil _⟩)

/-- Every subject a rule fits is followed from the time the rules are set. -/
theorem followed_set {rules : List (Rule F)} (plain : ∀ rule ∈ rules, Plain rule.id) {rt : Runtime} {now : Int}
    (set : (new : Engine F).setRules rules rt now = .ok e) (listed : c ∈ e.rules) (enabled : c.enabled = true)
    (conn : Plain connID) (fits : matchSubject c.pattern subject = true) : Followed e c connID subject := by
  obtain ⟨watches, fresh⟩ := watches_set plain set listed enabled connID subject
  exact ⟨watches, conn, fits, fresh⟩

end Runs
end NatsExplorer.Alerts
