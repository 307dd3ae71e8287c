import NatsExplorer.Alerts.Shown
import NatsExplorer.Library.Transition

/-! The active alerts over whole runs of the engine. Every call that touches a state
touches the alert under the same key, so the alerts show what holds after every call
exactly if every tick is settled. -/
namespace NatsExplorer.Alerts
open Go

def Plain (s : Str) : Prop := Char.ofNat 0 ∉ s

instance (s : Str) : Decidable (Plain s) := inferInstanceAs (Decidable (_ ∉ s))

/-- A text is cut at the first separator. -/
theorem cut_injective {z : Char} {x x' y y' : Str} (absent : z ∉ x) (absent' : z ∉ x')
    (same : x ++ z :: y = x' ++ z :: y') : x = x' ∧ y = y' := by
  induction x generalizing x' with
  | nil =>
    cases x' with
    | nil => exact ⟨rfl, (List.cons.inj same).2⟩
    | cons c x' => exact absurd ((List.cons.inj same).1 ▸ List.mem_cons_self) absent'
  | cons c x ih =>
    cases x' with
    | nil => exact absurd ((List.cons.inj same).1 ▸ List.mem_cons_self) absent
    | cons c' x' =>
      obtain ⟨rfl, rest⟩ := List.cons.inj same
      obtain ⟨rfl, tail⟩ := ih (List.not_mem_of_not_mem_cons absent)
        (List.not_mem_of_not_mem_cons absent') rest
      exact ⟨rfl, tail⟩

theorem key_injective {ruleID ruleID' connID connID' subject subject' : Str} (rule : Plain ruleID)
    (rule' : Plain ruleID') (conn : Plain connID) (conn' : Plain connID')
    (same : key ruleID connID subject = key ruleID' connID' subject') :
    ruleID = ruleID' ∧ connID = connID' ∧ subject = subject' := by
  have cons (a b c : Str) : key a b c = a ++ Char.ofNat 0 :: (b ++ Char.ofNat 0 :: c) := by simp [key]
  rw [cons, cons] at same
  obtain ⟨first, rest⟩ := cut_injective rule rule' same
  exact ⟨first, cut_injective conn conn' rest⟩

section Active
variable {F : Type} (c : Compiled F) (connID subject : Str) (now : Int) (muted : Bool)

/-- What a change makes of the alert of its subject. -/
def Effect.alert (a : Option Alert) : Effect → Option Alert
  | .change state preview seen =>
    if state = .resolved then none
    else some {
      key := key c.id connID subject, ruleID := c.id, ruleName := c.name, connID := connID, subject := subject
      state := state, severity := c.severity, since := now, preview := preview, seen := seen
      muted := muted }
  | .left state preview => a.map fun a => { a with state := state, preview := preview }
  | .update state preview => a.map fun a => if a.state = state then { a with preview := preview } else a

/-- A change concerns the alert of one subject. -/
theorem apply_lookup (active : Map Str Alert) (effect : Effect) (k : Str) :
    (effect.apply c connID subject now muted active).lookup k =
      if k = key c.id connID subject then effect.alert c connID subject now muted (active.lookup k)
      else active.lookup k := by
  by_cases here : k = key c.id connID subject
  · subst here
    rw [if_pos rfl]
    cases effect with
    | change state preview seen =>
      simp only [Effect.apply, Effect.alert]
      split
      · rw [AList.lookup_erase]
      · rw [AList.lookup_insert]
    | left state preview =>
      simp only [Effect.apply, Effect.alert]
      cases found : active.lookup (key c.id connID subject) with
      | none => exact found
      | some a => exact AList.lookup_insert _
    | update state preview =>
      simp only [Effect.apply, Effect.alert]
      cases found : active.lookup (key c.id connID subject) with
      | none => exact found
      | some a =>
        simp only [Option.map_some]
        split
        · exact AList.lookup_insert _
        · exact found
  · rw [if_neg here]
    cases effect with
    | change state preview seen =>
      simp only [Effect.apply]
      split
      · rw [AList.lookup_erase_ne here]
      · rw [AList.lookup_insert_ne here]
    | left state preview =>
      simp only [Effect.apply]
      split
      · rfl
      · rw [AList.lookup_insert_ne here]
    | update state preview =>
      simp only [Effect.apply]
      split
      · rfl
      · split
        · rw [AList.lookup_insert_ne here]
        · rfl

theorem apply_state (active : Map Str Alert) (effect : Effect) (k : Str) :
    ((effect.apply c connID subject now muted active).lookup k).map (·.state) =
      if k = key c.id connID subject then effect.shown ((active.lookup k).map (·.state))
      else (active.lookup k).map (·.state) := by
  rw [apply_lookup]
  split
  · cases effect with
    | change state preview seen =>
      simp only [Effect.alert, Effect.shown]
      split <;> rfl
    | left state preview =>
      simp only [Effect.alert, Effect.shown, Option.map_map]
      rfl
    | update state preview =>
      simp only [Effect.alert, Effect.shown, Option.map_map]
      refine congrArg (fun f => (active.lookup k).map f) (funext fun a => ?_)
      simp only [Function.comp]
      split <;> rfl
  · rfl

end Active

namespace Engine
variable {F : Type} {e : Engine F}

/-- The state the alert under a key shows. -/
def shownAt (e : Engine F) (k : Str) : Option State := (e.active.lookup k).map (·.state)

/-- There is an alert under a key exactly if a condition of the state there holds, and
it shows the most important one. -/
def Shows (e : Engine F) : Prop :=
  ∀ k, e.shownAt k = (e.states.lookup k).bind SubjectState.holds

/-- States and rules are where their names say. -/
structure Named (e : Engine F) : Prop where
  states : ∀ k st, e.states.lookup k = some st →
    k = key st.ruleID st.connID st.subject ∧ Plain st.ruleID ∧ Plain st.connID
  byID : ∀ id c, e.byID.lookup id = some c → c.id = id
  rules : ∀ c ∈ e.rules, Plain c.id

section Turn
variable (c : Compiled F) (connID subject : Str) (now : Int)

theorem acts_spec (effects : List Effect) (e : Engine F) :
    let e' := effects.foldl (act c connID subject now) e
    e'.states = e.states ∧ e'.byID = e.byID ∧ e'.rules = e.rules ∧
      ∀ k, e'.shownAt k =
        if k = key c.id connID subject then effects.foldl Effect.shown (e.shownAt k) else e.shownAt k := by
  induction effects generalizing e with
  | nil => exact ⟨rfl, rfl, rfl, fun k => by simp only [List.foldl_nil, ite_self]⟩
  | cons effect effects ih =>
    obtain ⟨states, byID, rules, shown⟩ := ih (e.act c connID subject now effect)
    refine ⟨states, byID, rules, fun k => ?_⟩
    simp only [List.foldl_cons] at shown ⊢
    have one := apply_state c connID subject now (e.muted c subject now) e.active effect k
    rw [shown k]
    by_cases here : k = key c.id connID subject
    · rw [if_pos here] at one
      rw [if_pos here, if_pos here]
      exact congrArg (effects.foldl Effect.shown) one
    · rw [if_neg here] at one
      rw [if_neg here, if_neg here]
      exact one

/-- What a turn leaves alone, and what it shows. -/
theorem turn_spec (e : Engine F) {k : Str} {st : SubjectState F} (here : k = key c.id st.connID st.subject)
    (turned : SubjectState F × List Effect) :
    (e.turn c k st now turned).states = e.states.insert k turned.1 ∧
      (e.turn c k st now turned).byID = e.byID ∧ (e.turn c k st now turned).rules = e.rules ∧
      (e.turn c k st now turned).shownAt k = turned.2.foldl Effect.shown (e.shownAt k) ∧
      ∀ k', k' ≠ k → (e.turn c k st now turned).shownAt k' = e.shownAt k' := by
  obtain ⟨states, byID, rules, shown⟩ :=
    acts_spec c st.connID st.subject now turned.2 { e with states := e.states.insert k turned.1 }
  refine ⟨states, byID, rules, ?_, fun k' other => ?_⟩
  · exact (shown k).trans (if_pos here)
  · exact (shown k').trans (if_neg (here ▸ other))

end Turn

/-- What calls keep: the alerts show what holds, and everything has its name. -/
structure Sound (e : Engine F) : Prop where
  named : e.Named
  shows : e.Shows

theorem new_sound : Sound (new : Engine F) := by
  refine ⟨⟨fun k st none => ?_, fun id c none => ?_, fun c none => ?_⟩, fun k => rfl⟩
  · cases none
  · cases none
  · cases none

theorem Named.turn (named : e.Named) {c : Compiled F} {k : Str} {st : SubjectState F} {now : Int}
    (here : k = key c.id st.connID st.subject) {turned : SubjectState F × List Effect}
    (names : k = key turned.1.ruleID turned.1.connID turned.1.subject ∧ Plain turned.1.ruleID ∧
      Plain turned.1.connID) : (e.turn c k st now turned).Named := by
  obtain ⟨states, byID, rules, _, _⟩ := turn_spec c now e here turned
  refine ⟨fun k' st' found => ?_, byID.symm ▸ named.byID, rules.symm ▸ named.rules⟩
  rw [states] at found
  by_cases same : k' = k
  · subst same
    rw [AList.lookup_insert, Option.some.injEq] at found
    exact found ▸ names
  · rw [AList.lookup_insert_ne same] at found
    exact named.states k' st' found

section Observe
variable [Numbers F] [Payloads F]

theorem observe_turn (sound : e.Sound) {c : Compiled F} (plain : Plain c.id) {connID : Str}
    (conn : Plain connID) (r : Record) (now : Int) :
    let k := key c.id connID r.subject
    let st := (e.states.lookup k).getD { ruleID := c.id, connID := connID, subject := r.subject }
    (e.turn c k st now (st.observe c r now)).Sound := by
  intro k st
  have names : st.ruleID = c.id ∧ st.connID = connID ∧ st.subject = r.subject := by
    cases found : e.states.lookup k with
    | none =>
      simp only [st, found, Option.getD_none]
      exact ⟨trivial, trivial, trivial⟩
    | some old =>
      obtain ⟨here, rule, owner⟩ := sound.named.states k old found
      simp only [st, found, Option.getD_some]
      obtain ⟨rule, owner, subject⟩ := key_injective plain rule conn owner here
      exact ⟨rule.symm, owner.symm, subject.symm⟩
  have shown : e.shownAt k = st.holds := by
    rw [sound.shows k]
    cases found : e.states.lookup k with
    | none => simp only [st, found, Option.getD_none]; rfl
    | some old => simp only [st, found, Option.getD_some]; rfl
  have here : k = key c.id st.connID st.subject := by rw [names.2.1, names.2.2]
  obtain ⟨rule, owner, subject⟩ := SubjectState.observe_names c r now st
  obtain ⟨states, _, _, shows, others⟩ := turn_spec c now e here (st.observe c r now)
  refine ⟨sound.named.turn here ?_, fun k' => ?_⟩
  · rw [rule, owner, subject, names.1]
    exact ⟨here, plain, names.2.1.symm ▸ conn⟩
  · rw [states]
    by_cases same : k' = k
    · subst same
      rw [AList.lookup_insert, shows, shown]
      exact SubjectState.observe_follows c r now st
    · rw [AList.lookup_insert_ne same, others k' same]
      exact sound.shows k'

theorem observe_sound (sound : e.Sound) {connID : Str} (conn : Plain connID) (r : Record) (now : Int) :
    (e.observe connID r now).Sound := by
  refine List.foldlRecOn e.rules _ sound fun e' sound' c member => ?_
  split
  · exact sound'
  · exact observe_turn sound' (sound.named.rules c member) conn r now

end Observe

section Drop

theorem Sound.drop (sound : e.Sound) (k : Str) : (e.drop k).Sound := by
  refine ⟨⟨fun k' st found => ?_, sound.named.byID, sound.named.rules⟩, fun k' => ?_⟩
  · simp only [Engine.drop] at found
    by_cases same : k' = k
    · subst same
      rw [AList.lookup_erase] at found
      cases found
    · rw [AList.lookup_erase_ne same] at found
      exact sound.named.states k' st found
  · simp only [shownAt, Engine.drop]
    by_cases same : k' = k
    · subst same
      rw [AList.lookup_erase, AList.lookup_erase]
      rfl
    · rw [AList.lookup_erase_ne same, AList.lookup_erase_ne same]
      exact sound.shows k'

theorem sweep_sound (p : SubjectState F → Prop) [DecidablePred p] (keys : List Str) (sound : e.Sound) :
    (keys.foldl (fun e k =>
      match e.states.lookup k with
      | none => e
      | some st => if p st then e.drop k else e) e).Sound := by
  refine List.foldlRecOn keys _ sound fun e' sound k _ => ?_
  split
  · exact sound
  · split
    · exact sound.drop k
    · exact sound

end Drop

section Alerts

/-- Alerts may change in everything but their state. -/
theorem Sound.same {e' : Engine F} (sound : e.Sound) (states : e'.states = e.states)
    (byID : e'.byID = e.byID) (rules : e'.rules = e.rules) (shown : ∀ k, e'.shownAt k = e.shownAt k) :
    e'.Sound :=
  ⟨⟨states.symm ▸ sound.named.states, byID.symm ▸ sound.named.byID, rules.symm ▸ sound.named.rules⟩,
    fun k => by rw [shown k, states, sound.shows k]⟩

/-- An alert that is rewritten keeps what the new one has in common with it. -/
theorem lookup_rewritten {V : Type} (f : Alert → V) {active : Map Str Alert} {a : Alert} {k : Str}
    (found : active.lookup k = some a) (a' : Alert) (same : f a' = f a) (k' : Str) :
    ((active.insert k a').lookup k').map f = (active.lookup k').map f := by
  by_cases here : k' = k
  · subst here
    rw [AList.lookup_insert, found, Option.map_some, Option.map_some, same]
  · rw [AList.lookup_insert_ne here]

theorem refreshMuted_same (rt : Runtime) (now : Int) :
    (e.refreshMuted rt now).states = e.states ∧ (e.refreshMuted rt now).byID = e.byID ∧
      (e.refreshMuted rt now).rules = e.rules ∧
      ∀ k, ((e.refreshMuted rt now).active.lookup k).map (fun a => (a.ruleID, a.state)) =
        (e.active.lookup k).map fun a => (a.ruleID, a.state) := by
  unfold refreshMuted
  generalize rt.range e.active.keys = keys
  induction keys generalizing e with
  | nil => exact ⟨rfl, rfl, rfl, fun _ => rfl⟩
  | cons k keys ih =>
    simp only [List.foldl_cons]
    split
    · exact ih
    · rename_i a found
      split
      · exact ih
      · rename_i c _
        obtain ⟨states, byID, rules, alerts⟩ := ih
        exact ⟨states, byID, rules, fun k' => (alerts k').trans
          (lookup_rewritten _ found { a with muted := e.muted c a.subject now } rfl k')⟩

theorem refreshMuted_shown (rt : Runtime) (now : Int) (k : Str) :
    (e.refreshMuted rt now).shownAt k = e.shownAt k := by
  have alerts := congrArg (Option.map Prod.snd) ((refreshMuted_same (e := e) rt now).2.2.2 k)
  simp only [Option.map_map] at alerts
  exact alerts

theorem Sound.refreshMuted (sound : e.Sound) (rt : Runtime) (now : Int) : (e.refreshMuted rt now).Sound := by
  obtain ⟨states, byID, rules, _⟩ := refreshMuted_same (e := e) rt now
  exact sound.same states byID rules (refreshMuted_shown rt now)

theorem ack_sound (sound : e.Sound) (k by_ : Str) (acked : Bool) (now : Int) :
    (e.ack k by_ acked now).1.Sound := by
  unfold ack
  split
  · exact sound
  · rename_i a found
    refine sound.same rfl rfl rfl (lookup_rewritten _ found _ ?_)
    split <;> rfl

end Alerts

section Tick
variable [Numbers F]

/-- What a tick does to a state and asks for; without its rule nothing. -/
def ticked (e : Engine F) (now : Int) (st : SubjectState F) : SubjectState F × List Effect :=
  match e.byID.lookup st.ruleID with
  | none => (st, [])
  | some c => if ¬ c.enabled then (st, []) else st.tick c now

theorem tickAt_spec (named : e.Named) (now : Int) (k : Str) :
    (e.tickAt now k).Named ∧ (e.tickAt now k).byID = e.byID ∧ (e.tickAt now k).rules = e.rules ∧
      (∀ k', k' ≠ k → (e.tickAt now k).states.lookup k' = e.states.lookup k' ∧
        (e.tickAt now k).shownAt k' = e.shownAt k') ∧
      (e.tickAt now k).states.lookup k = (e.states.lookup k).map (fun st => (e.ticked now st).1) ∧
      ∀ st, e.states.lookup k = some st →
        (e.tickAt now k).shownAt k = (e.ticked now st).2.foldl Effect.shown (e.shownAt k) := by
  unfold tickAt
  cases found : e.states.lookup k with
  | none => exact ⟨named, rfl, rfl, fun _ _ => ⟨rfl, rfl⟩, found, fun st none => by cases none⟩
  | some st =>
    simp only [Option.map_some, ticked]
    cases rule : e.byID.lookup st.ruleID with
    | none =>
      refine ⟨named, rfl, rfl, fun _ _ => ⟨rfl, rfl⟩, found, fun st' same => ?_⟩
      cases same
      rw [rule]
      rfl
    | some c =>
      simp only
      split
      · rename_i disabled
        refine ⟨named, rfl, rfl, fun _ _ => ⟨rfl, rfl⟩, found, fun st' same => ?_⟩
        cases same
        rw [rule]
        simp only [if_pos disabled]
        rfl
      · rename_i enabled
        obtain ⟨here, plain, conn⟩ := named.states k st found
        have id := named.byID st.ruleID c rule
        have place : k = key c.id st.connID st.subject := id.symm ▸ here
        obtain ⟨states, byID, rules, shows, others⟩ := turn_spec c now e place (st.tick c now)
        obtain ⟨sameRule, sameConn, sameSubject⟩ := SubjectState.tick_names c now st
        refine ⟨named.turn place ?_, byID, rules, fun k' other => ⟨?_, others k' other⟩, ?_, ?_⟩
        · rw [sameRule, sameConn, sameSubject]
          exact ⟨here, plain, conn⟩
        · rw [states, AList.lookup_insert_ne other]
        · rw [states, AList.lookup_insert]
        · intro st' same
          cases same
          rw [shows, rule]
          simp only [if_neg enabled]

theorem tickFold_spec (named : e.Named) (now : Int) {keys : List Str} (distinct : keys.Nodup) :
    let e' := keys.foldl (tickAt now) e
    e'.Named ∧
      (∀ k, k ∉ keys → e'.states.lookup k = e.states.lookup k ∧ e'.shownAt k = e.shownAt k) ∧
      ∀ k ∈ keys, e'.states.lookup k = (e.states.lookup k).map (fun st => (e.ticked now st).1) ∧
        ∀ st, e.states.lookup k = some st →
          e'.shownAt k = (e.ticked now st).2.foldl Effect.shown (e.shownAt k) := by
  induction keys generalizing e with
  | nil => exact ⟨named, fun _ _ => ⟨rfl, rfl⟩, fun k none => absurd none List.not_mem_nil⟩
  | cons k keys ih =>
    obtain ⟨first, distinct⟩ := List.nodup_cons.mp distinct
    obtain ⟨named', byID, rules, others, here, shown⟩ := tickAt_spec named now k
    obtain ⟨named'', outside, inside⟩ := ih named' distinct
    have same : (e.tickAt now k).ticked now = e.ticked now := by
      funext st
      simp only [ticked, byID]
    rw [same] at inside
    refine ⟨named'', fun k' absent => ?_, fun k' member => ?_⟩
    · rw [List.mem_cons, not_or] at absent
      obtain ⟨states, shows⟩ := outside k' absent.2
      obtain ⟨states', shows'⟩ := others k' absent.1
      exact ⟨states.trans states', shows.trans shows'⟩
    · rcases List.mem_cons.mp member with rfl | member
      · obtain ⟨states, shows⟩ := outside k' first
        exact ⟨states.trans here, fun st found => shows.trans (shown st found)⟩
      · have other : k' ≠ k := fun same => first (same ▸ member)
        obtain ⟨states, shows⟩ := others k' other
        obtain ⟨states', shows'⟩ := inside k' member
        rw [states] at states' shows'
        rw [shows] at shows'
        exact ⟨states', shows'⟩

/-- The conditions under which every alert follows a tick. -/
def Settled (e : Engine F) (now : Int) : Prop :=
  ∀ k st c, e.states.lookup k = some st → e.byID.lookup st.ruleID = some c → c.enabled = true →
    st.Settled c now

theorem tick_sound_iff (sound : e.Sound) (rt : Runtime) (now : Int) :
    (e.tick rt now).Named ∧ ((e.tick rt now).Shows ↔ e.Settled now) := by
  have distinct : (rt.range e.states.keys).Nodup := (rt.range_perm _).nodup_iff.mpr e.states.keys_nodup
  obtain ⟨named, outside, inside⟩ := tickFold_spec sound.named now distinct
  set e' := (rt.range e.states.keys).foldl (tickAt now) e
  have refreshed : e.tick rt now = e'.refreshMuted rt now := rfl
  obtain ⟨states, byID, rules, _⟩ := refreshMuted_same (e := e') rt now
  have shown := refreshMuted_shown (e := e') rt now
  refine ⟨⟨?_, ?_, ?_⟩, ?_⟩
  · rw [refreshed, states]
    exact named.states
  · rw [refreshed, byID]
    exact named.byID
  · rw [refreshed, rules]
    exact named.rules
  have one (k : Str) (st : SubjectState F) (found : e.states.lookup k = some st) :
      (e.tick rt now).shownAt k = ((e.tick rt now).states.lookup k).bind SubjectState.holds ↔
        (e.ticked now st).2.foldl Effect.shown st.holds = (e.ticked now st).1.holds := by
    have member : k ∈ rt.range e.states.keys :=
      rt.mem_range.mpr (AList.lookup_isSome.mp (Option.isSome_of_eq_some found))
    obtain ⟨after, shows⟩ := inside k member
    rw [refreshed, states, shown, after, shows st found, sound.shows k, found]
    rfl
  constructor
  · intro shows k st c found rule enabled
    have agrees := (one k st found).mp (shows k)
    simp only [ticked, rule, enabled, not_true, if_false] at agrees
    exact (SubjectState.tick_shown c now st).mp agrees
  · intro settled k
    cases found : e.states.lookup k with
    | none =>
      have absent : k ∉ rt.range e.states.keys := fun member =>
        AList.lookup_eq_none.mp found (rt.mem_range.mp member)
      obtain ⟨after, shows⟩ := outside k absent
      rw [refreshed, states, shown, after, shows]
      exact sound.shows k
    | some st =>
      refine (one k st found).mpr ?_
      unfold ticked
      cases rule : e.byID.lookup st.ruleID with
      | none => rfl
      | some c =>
        simp only
        split
        · rfl
        · rename_i enabled
          exact (SubjectState.tick_shown c now st).mpr
            (settled k st c found rule (by simpa using enabled))

end Tick

section Rules
variable [Tables] [Filter.Compiler] [Payloads F]

/-- A rule that compiles is valid, has an id of its own, and goes into the table for those after it. -/
theorem compile_cons {rule : Rule F} {rules : List (Rule F)} {byID byID' : Map Str (Compiled F)} {cs : List (Compiled F)}
    (compiled : compile (rule :: rules) byID = .ok (cs, byID')) :
    ∃ c cs', rule.validate = .ok c.toRule ∧ byID.lookup c.id = none ∧
      c.prog = (if c.expr = [] then none else (Filter.Compiler.compile c.expr).toOption) ∧
      cs = c :: cs' ∧ compile rules (byID.insert c.id c) = .ok (cs', byID') := by
  unfold compile at compiled
  split at compiled
  · cases compiled
  · rename_i r valid
    split at compiled
    · cases compiled
    · split at compiled
      · cases compiled
      · rename_i fresh
        simp only [bind, Except.bind, pure, Except.pure] at compiled
        split at compiled
        · cases compiled
        · rename_i rest compiledRest
          simp only [Except.ok.injEq, Prod.mk.injEq] at compiled
          obtain ⟨rfl, rfl⟩ := compiled
          exact ⟨_, rest.1, valid, Option.not_isSome_iff_eq_none.mp fresh, rfl, rfl, compiledRest⟩

/-- The rules keep their ids, and the table has them under these. -/
theorem compile_spec {rules : List (Rule F)} {byID byID' : Map Str (Compiled F)} {cs : List (Compiled F)}
    (compiled : compile rules byID = .ok (cs, byID')) (named : ∀ id c, byID.lookup id = some c → c.id = id) :
    (∀ c ∈ cs, ∃ rule ∈ rules, c.id = rule.id) ∧ ∀ id c, byID'.lookup id = some c → c.id = id := by
  induction rules generalizing byID byID' cs with
  | nil =>
    simp only [compile, Except.ok.injEq, Prod.mk.injEq] at compiled
    obtain ⟨rfl, rfl⟩ := compiled
    exact ⟨fun c none => absurd none List.not_mem_nil, named⟩
  | cons rule rules ih =>
    obtain ⟨c, cs, valid, -, -, rfl, compiledRest⟩ := compile_cons compiled
    have id : c.id = rule.id := by
      rw [Rule.validate_completed valid]
      rfl
    obtain ⟨ids, table⟩ := ih compiledRest fun id' c' found => by
      by_cases same : id' = c.id
      · subst same
        rw [AList.lookup_insert, Option.some.injEq] at found
        exact found ▸ rfl
      · rw [AList.lookup_insert_ne same] at found
        exact named id' c' found
    refine ⟨fun c member => ?_, table⟩
    rcases List.mem_cons.mp member with rfl | member
    · exact ⟨rule, List.mem_cons_self, id⟩
    · obtain ⟨rule', listed, same⟩ := ids c member
      exact ⟨rule', List.mem_cons_of_mem _ listed, same⟩

variable [DecidableEq F]

theorem setRules_sound (sound : e.Sound) {rules : List (Rule F)} (plain : ∀ rule ∈ rules, Plain rule.id)
    {rt : Runtime} {now : Int} {e' : Engine F} (set : e.setRules rules rt now = .ok e') : e'.Sound := by
  unfold setRules at set
  simp only [bind, Except.bind, pure, Except.pure] at set
  split at set
  · cases set
  · rename_i compiled compiledRules
    obtain ⟨cs, byID⟩ := compiled
    simp only [Except.ok.injEq] at set
    subst set
    obtain ⟨ids, table⟩ := compile_spec compiledRules fun id c none => by cases none
    have stored : Sound { e with rules := cs, byID := byID } := by
      refine ⟨⟨sound.named.states, table, fun c member => ?_⟩, sound.shows⟩
      obtain ⟨rule, listed, same⟩ := ids c member
      exact same ▸ plain rule listed
    exact (sweep_sound (fun st => outdated e.byID byID st = true) _ stored).refreshMuted rt now

end Rules

section Runs
variable [Tables] [Filter.Compiler] [Numbers F] [Payloads F] [DecidableEq F]

/-- The calls, with the times they read. Ids of rules and connections hold no NUL. -/
inductive Op (F : Type) where
  | observe (connID : Str) (plain : Plain connID) (r : Record) (now : Nat)
  | tick (rt : Runtime) (now : Nat)
  | setRules (rules : List (Rule F)) (plain : ∀ rule ∈ rules, Plain rule.id) (rt : Runtime) (now : Nat)
  | setMaintenance (list : List Maintenance) (rt : Runtime) (now : Nat)
  | ack (k by_ : Str) (acked : Bool) (now : Nat)
  | forget (connID : Str) (rt : Runtime)

/-- A call that is refused changes nothing. -/
def step (e : Engine F) : Op F → Engine F
  | .observe connID _ r now => e.observe connID r now
  | .tick rt now => e.tick rt now
  | .setRules rules _ rt now => (e.setRules rules rt now).toOption.getD e
  | .setMaintenance list rt now => (e.setMaintenance list rt now).toOption.getD e
  | .ack k by_ acked now => (e.ack k by_ acked now).1
  | .forget connID rt => e.forget connID rt

/-- No condition starts last in a tick while one that matters more holds. -/
def Orderly (e : Engine F) : Op F → Prop
  | .tick _ now => e.Settled now
  | _ => True

theorem step_sound_iff (sound : e.Sound) (op : Op F) :
    (e.step op).Named ∧ ((e.step op).Shows ↔ e.Orderly op) := by
  have kept {e' : Engine F} (sound : e'.Sound) : e'.Named ∧ (e'.Shows ↔ True) :=
    ⟨sound.named, iff_of_true sound.shows trivial⟩
  cases op with
  | observe connID plain r now => exact kept (observe_sound sound plain r now)
  | tick rt now => exact tick_sound_iff sound rt now
  | setRules rules plain rt now =>
    refine kept ?_
    simp only [step]
    cases set : e.setRules rules rt now with
    | error => exact sound
    | ok e' => exact setRules_sound sound plain set
  | setMaintenance list rt now =>
    refine kept ?_
    simp only [step]
    cases set : e.setMaintenance list rt now with
    | error => exact sound
    | ok e' =>
      unfold setMaintenance at set
      simp only [bind, Except.bind, pure, Except.pure] at set
      split at set
      · cases set
      · rename_i accepted _
        cases set
        have windows : Sound { e with maintenance := accepted } := sound.same rfl rfl rfl fun _ => rfl
        exact windows.refreshMuted rt now
  | ack k by_ acked now => exact kept (ack_sound sound k by_ acked now)
  | forget connID rt => exact kept (sweep_sound (fun st => st.connID = connID) _ sound)

/-- The active alerts show the conditions that hold after every call exactly if every
tick is in order. -/
theorem active_shows_iff (ops : List (Op F)) :
    (∀ before, before <+: ops → (Transition.run step (new : Engine F) before).Shows) ↔
      Transition.Along step Orderly (new : Engine F) ops := by
  exact Transition.visible_iff Sound.shows
    (fun sound op orderly => ⟨(step_sound_iff sound op).1, (step_sound_iff sound op).2.mpr orderly⟩)
    (fun sound op shows => (step_sound_iff sound op).2.mp shows) new_sound

end Runs

section Sample

@[reducible] def sampleNumbers : Numbers Int where
  zero := 0
  add := (· + ·)
  lt a b := a < b
  mean a n := a / n
  ofInt n := n
  finite _ := true
  whole n := some n
  format n _ := digits n

@[reducible] def samplePayloads : Payloads Int where
  payload _ := .null
  sprint _ := []
  quote s := s

/-- Every expression is `true`. -/
@[reducible] def yes : Filter.Compiler where
  compile _ := .ok ⟨fun _ => true, fun _ => true⟩

/-- A rule that fires at once and calls a subject stale after a second. -/
def always : Rule Int where
  id := ['r']
  name := ['n']
  pattern := ['>']
  expr := "true".toList
  staleAfter := 1
  enabled := true

def beat : Record := { subject := ['s'], data := .text ['1'], timestamp := 1000, sequence := 1 }

theorem plain_c : Plain ['c'] := by decide

/-- A firing subject that falls silent is shown as stale while it still fires. -/
theorem firing_hidden : ¬ ∀ (_ : Tables) (_ : Filter.Compiler) (_ : Numbers Int) (_ : Payloads Int)
    (ops : List (Op Int)), (Transition.run step (new : Engine Int) ops).Shows := by
  intro claim
  have shows := claim asciiTables yes sampleNumbers samplePayloads
    [.setRules [always] (by decide) .plain 0, .observe ['c'] plain_c beat 1000, .tick .plain 3000]
    (key ['r'] ['c'] ['s'])
  exact absurd shows (by decide)

end Sample
end Engine
end NatsExplorer.Alerts
