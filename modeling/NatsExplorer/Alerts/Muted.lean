import NatsExplorer.Alerts.Subjects

/-! What a mute does to the events. An alert that is not marked as muted was announced since it
began, and the marks are read again whenever a mute may have ended. -/
namespace NatsExplorer.Alerts
open Go

/-- An alert that is there shows a condition that holds. -/
theorem shown_mono (effects : List Effect) {a b : Option State} (more : a.isSome → b.isSome) :
    (effects.foldl Effect.shown a).isSome → (effects.foldl Effect.shown b).isSome := by
  induction effects generalizing a b with
  | nil => exact more
  | cons effect effects ih =>
    refine ih ?_
    cases effect with
    | change => exact id
    | left => simpa only [Effect.shown, Option.isSome_map] using more
    | update => exact more

namespace SubjectState
variable {F : Type} {f g : SubjectState F → SubjectState F × List Effect}

/-- Where there was an alert only for a condition that held, there is one only for such a condition. -/
def Backed (f : SubjectState F → SubjectState F × List Effect) : Prop :=
  ∀ (st : SubjectState F) (shown : Option State), (shown.isSome → st.holds.isSome) →
    ((f st).2.foldl Effect.shown shown).isSome → (f st).1.holds.isSome

theorem Backed.andThen (first : Backed f) (second : Backed g) : Backed (andThen f g) := by
  intro st shown before after
  simp only [SubjectState.andThen, List.foldl_append] at after ⊢
  exact second (f st).1 _ (first st shown before) after

theorem observe_backed [Numbers F] [Payloads F] (c : Compiled F) (r : Record) (now : Int) : Backed (observe c r now) := by
  intro st shown before after
  rw [← observe_follows c r now st]
  exact shown_mono _ before after

section Tick
variable [Numbers F] (c : Compiled F) (now : Int)

omit [Numbers F] in
theorem Checked.backed (st : SubjectState F) {st' : SubjectState F} {effects : List Effect} {old new : Bool} {state : State}
    (checked : Checked st' effects old new state) (starts : new = true → st'.holds.isSome)
    (was : old = true → st.holds.isSome) (same : new = old → st'.holds = st.holds) (shown : Option State)
    (before : shown.isSome → st.holds.isSome) : (effects.foldl Effect.shown shown).isSome → st'.holds.isSome := by
  intro after
  cases on : new with
  | true => exact starts on
  | false =>
    cases off : old with
    | false =>
      rw [checked.same shown (on.trans off.symm)] at after
      exact same (on.trans off.symm) ▸ before after
    | true =>
      rw [← checked.ends off on (was off)]
      exact shown_mono effects before after

theorem tick_backed : Backed (tick c now) := by
  have stale : Backed (checkStale (F := F) c now) := by
    intro st shown before after
    unfold checkStale at after ⊢
    split at after
    · rename_i starts
      rw [if_pos starts]
      exact holds_isSome (by simp [conditions])
    · rename_i still
      rw [if_neg still]
      exact before after
  have rate : Backed (checkRate (F := F) c now) := by
    intro st shown before
    obtain ⟨pv, after, checked⟩ := checkRate_spec c now st
    refine checked.backed st (fun on => ?_) (fun on => holds_isSome (by simp [conditions, on])) (fun same => ?_) shown before
    · rw [after]
      exact holds_isSome (by simp [conditions, on])
    · rw [after, same]
      exact holds_congr rfl
  have level : Backed (checkLevel (F := F) c now) := by
    intro st shown before
    obtain ⟨pv, after, checked⟩ := checkLevel_spec c now st
    refine checked.backed st (fun on => ?_) (fun on => holds_isSome (by simp [conditions, on])) (fun same => ?_) shown before
    · rw [after]
      exact holds_isSome (by simp [conditions, on])
    · rw [after, same]
      exact holds_congr rfl
  have stuck : Backed (checkStuck (F := F) c now) := by
    intro st shown before after
    unfold checkStuck at after ⊢
    split at after
    · rename_i starts
      rw [if_pos starts]
      exact holds_isSome (by simp [conditions])
    · rename_i still
      rw [if_neg still]
      exact before after
  exact stale.andThen ((rate.andThen level).andThen stuck)

end Tick
end SubjectState

namespace Engine
variable {F : Type} {e e' e'' : Engine F} {now : Int}

/-- An event that was let through tells of the alert. -/
def Announced (events : List Event) (a : Alert) : Prop :=
  ∃ ev ∈ events, ev.muted = false ∧ ev.ruleID = a.ruleID ∧ ev.connID = a.connID ∧ ev.subject = a.subject ∧ a.since ≤ ev.time

/-- Nothing is let through at `now` that is muted. -/
def Silent (e : Engine F) (now : Int) (events : List Event) : Prop :=
  ∀ ev ∈ events, ev.muted = false → ev.time = now ∧ ∃ c, e.byID.lookup ev.ruleID = some c ∧ e.muted c ev.subject now = false

/-- An alert is of a state. -/
def Owns (st : SubjectState F) (a : Alert) : Prop := a.ruleID = st.ruleID ∧ a.connID = st.connID ∧ a.subject = st.subject

/-- The rules are in the table, the states are of rules in it, and the alerts are of states in which a
condition holds. -/
structure Owned (e : Engine F) : Prop where
  named : e.Named
  distinct : (e.rules.map (·.id)).Nodup
  rules : ∀ c ∈ e.rules, e.byID.lookup c.id = some c
  inForce : ∀ k st, e.states.lookup k = some st → ∃ c, e.byID.lookup st.ruleID = some c
  alerts : ∀ k a, e.active.lookup k = some a → ∃ st, e.states.lookup k = some st ∧ Owns st a ∧ st.holds.isSome

/-- The alerts began by `now`, and those that are not marked as muted were announced. -/
structure Heard (e : Engine F) (now : Int) : Prop where
  began : ∀ k a, e.active.lookup k = some a → a.since ≤ now
  told : ∀ k a, e.active.lookup k = some a → a.muted = false → Announced e.notified a

theorem Announced.mono {events more : List Event} {a : Alert} (announced : Announced events a) : Announced (events ++ more) a := by
  obtain ⟨ev, member, rest⟩ := announced
  exact ⟨ev, List.mem_append_left _ member, rest⟩

/-- What a call does while the rules and the windows stay. -/
structure Sends (e : Engine F) (now : Int) (e' : Engine F) : Prop where
  byID : e'.byID = e.byID
  rules : e'.rules = e.rules
  maintenance : e'.maintenance = e.maintenance
  sent : ∃ events, e'.notified = e.notified ++ events ∧ e.Silent now events

theorem Sends.refl (e : Engine F) (now : Int) : Sends e now e := ⟨rfl, rfl, rfl, [], (List.append_nil _).symm, nofun⟩

theorem Silent.congr {events : List Event} (byID : e'.byID = e.byID) (maintenance : e'.maintenance = e.maintenance)
    (silent : e'.Silent now events) : e.Silent now events := by
  intro ev member loud
  obtain ⟨time, c, found, unmuted⟩ := silent ev member loud
  refine ⟨time, c, byID ▸ found, ?_⟩
  rw [muted, ← maintenance]
  exact unmuted

theorem Sends.trans (first : Sends e now e') (second : Sends e' now e'') : Sends e now e'' := by
  obtain ⟨events, notified, silent⟩ := first.sent
  obtain ⟨more, notified', silent'⟩ := second.sent
  refine ⟨second.byID.trans first.byID, second.rules.trans first.rules, second.maintenance.trans first.maintenance,
    events ++ more, by rw [notified', notified, List.append_assoc], fun ev member => ?_⟩
  rcases List.mem_append.mp member with member | member
  · exact silent ev member
  · exact silent'.congr first.byID first.maintenance ev member

section Act
variable {c : Compiled F} {connID subject : Str}

theorem act_sends (table : e.byID.lookup c.id = some c) (effect : Effect) :
    Sends e now (e.act c connID subject now effect) := by
  refine ⟨rfl, rfl, rfl, _, rfl, fun ev member loud => ?_⟩
  cases effect with
  | change state preview seen =>
    simp only [Effect.event, Option.toList_some, List.mem_singleton] at member
    subst member
    exact ⟨rfl, c, table, loud⟩
  | left | update => cases member

/-- The alert of a subject after a change. -/
theorem act_lookup (effect : Effect) (k : Str) : (e.act c connID subject now effect).active.lookup k =
    if k = key c.id connID subject then
      effect.alert c connID subject now (e.muted c subject now) (e.active.lookup k)
    else e.active.lookup k :=
  apply_lookup c connID subject now (e.muted c subject now) e.active effect k

/-- What an effect leaves of an alert, or makes. -/
theorem act_alert {effect : Effect} {k : Str} {a : Alert} (found : (e.act c connID subject now effect).active.lookup k = some a) :
    (∃ old, e.active.lookup k = some old ∧ a.ruleID = old.ruleID ∧ a.connID = old.connID ∧ a.subject = old.subject ∧
        a.since = old.since ∧ a.muted = old.muted) ∨
      (k = key c.id connID subject ∧ a.ruleID = c.id ∧ a.connID = connID ∧ a.subject = subject ∧ a.since = now ∧
        (a.muted = false → Announced (e.act c connID subject now effect).notified a)) := by
  rw [act_lookup] at found
  by_cases here : k = key c.id connID subject
  · rw [if_pos here] at found
    cases effect with
    | change state preview seen =>
      simp only [Effect.alert] at found
      split at found
      · cases found
      · cases found
        refine .inr ⟨here, rfl, rfl, rfl, rfl, fun loud => ?_⟩
        exact ⟨_, List.mem_append_right _ (List.mem_singleton_self _), loud, rfl, rfl, rfl, le_rfl⟩
    | left state preview =>
      obtain ⟨old, before, rfl⟩ := Option.map_eq_some_iff.mp found
      exact .inl ⟨old, before, rfl, rfl, rfl, rfl, rfl⟩
    | update state preview =>
      obtain ⟨old, before, rfl⟩ := Option.map_eq_some_iff.mp found
      refine .inl ⟨old, before, ?_⟩
      split <;> exact ⟨rfl, rfl, rfl, rfl, rfl⟩
  · rw [if_neg here] at found
    exact .inl ⟨a, found, rfl, rfl, rfl, rfl, rfl⟩

theorem act_heard (heard : e.Heard now) (effect : Effect) : (e.act c connID subject now effect).Heard now := by
  constructor
  · intro k a found
    obtain ⟨old, before, -, -, -, since, -⟩ | ⟨-, -, -, -, since, -⟩ := act_alert found
    · exact since ▸ heard.began k old before
    · exact since.le
  · intro k a found loud
    obtain ⟨old, before, rule, conn, subject, since, muted⟩ | ⟨-, -, -, -, -, told⟩ := act_alert found
    · obtain ⟨ev, member, unmuted, rule', conn', subject', after⟩ := heard.told k old before (muted ▸ loud)
      exact ⟨ev, List.mem_append_left _ member, unmuted, rule'.trans rule.symm, conn'.trans conn.symm,
        subject'.trans subject.symm, since ▸ after⟩
    · exact told loud

/-- What the changes of one turn do. -/
theorem acts_sends (connID subject : Str) (now : Int) (table : e.byID.lookup c.id = some c) (effects : List Effect) :
    let e' := effects.foldl (act c connID subject now) e
    Sends e now e' ∧ (e.Heard now → e'.Heard now) ∧ ∀ k a, e'.active.lookup k = some a →
      (∃ old, e.active.lookup k = some old ∧ a.ruleID = old.ruleID ∧ a.connID = old.connID ∧ a.subject = old.subject) ∨
        (k = key c.id connID subject ∧ a.ruleID = c.id ∧ a.connID = connID ∧ a.subject = subject) := by
  induction effects generalizing e with
  | nil => exact ⟨.refl e now, id, fun k a found => .inl ⟨a, found, rfl, rfl, rfl⟩⟩
  | cons effect effects ih =>
    obtain ⟨sends, heard, alerts⟩ := ih (e := e.act c connID subject now effect) table
    refine ⟨(act_sends table effect).trans sends, fun before => heard (act_heard before effect), fun k a found => ?_⟩
    obtain ⟨middle, found, rule, conn, subject⟩ | own := alerts k a found
    · obtain ⟨old, before, rule', conn', subject', -⟩ | ⟨here, rule', conn', subject', -⟩ := act_alert found
      · exact .inl ⟨old, before, rule.trans rule', conn.trans conn', subject.trans subject'⟩
      · exact .inr ⟨here, rule.trans rule', conn.trans conn', subject.trans subject'⟩
    · exact .inr own

end Act

/-- What every part of a call keeps. -/
structure Kept (e : Engine F) (now : Int) (e' : Engine F) : Prop where
  owned : e.Owned → e'.Owned
  heard : e.Owned → e.Heard now → e'.Heard now
  sends : e.Owned → Sends e now e'

theorem Kept.refl (e : Engine F) (now : Int) : Kept e now e := ⟨id, fun _ => id, fun _ => .refl e now⟩

theorem Kept.trans (first : Kept e now e') (second : Kept e' now e'') : Kept e now e'' :=
  ⟨fun owned => second.owned (first.owned owned),
    fun owned heard => second.heard (first.owned owned) (first.heard owned heard),
    fun owned => (first.sends owned).trans (second.sends (first.owned owned))⟩

/-- A turn of a rule that is in the table, on the state of its key. -/
theorem turn_kept {c : Compiled F} {k : Str} {st : SubjectState F} {turned : SubjectState F × List Effect}
    (table : e.byID.lookup c.id = some c) (plain : Plain c.id) (conn : Plain st.connID)
    (here : k = key c.id st.connID st.subject)
    (names : turned.1.ruleID = c.id ∧ turned.1.connID = st.connID ∧ turned.1.subject = st.subject)
    (own : ∀ st', e.states.lookup k = some st' → st' = st)
    (backed : ∀ shown : Option State, (shown.isSome → st.holds.isSome) →
      (turned.2.foldl Effect.shown shown).isSome → turned.1.holds.isSome) :
    Kept e now (e.turn c k st now turned) := by
  obtain ⟨sends, heard, alerts⟩ := acts_sends (e := { e with states := e.states.insert k turned.1 })
    st.connID st.subject now table turned.2
  obtain ⟨states, byID, rules⟩ := turn_states (e := e) c k st now turned
  obtain ⟨rule, owner, subject⟩ := names
  constructor
  · intro owned
    refine ⟨owned.named.turn here ?_, rules.symm ▸ owned.distinct, rules.symm ▸ byID.symm ▸ owned.rules, fun k' st' found => ?_, fun k' a found => ?_⟩
    · rw [rule, owner, subject]
      exact ⟨here, plain, conn⟩
    · rw [byID]
      rw [states] at found
      by_cases same : k' = k
      · subst same
        rw [AList.lookup_insert, Option.some.injEq] at found
        exact ⟨c, by rw [← found, rule, table]⟩
      · rw [AList.lookup_insert_ne same] at found
        exact owned.inForce k' st' found
    · rw [states]
      by_cases same : k' = k
      · subst same
        have held : turned.1.holds.isSome := by
          refine backed (e.shownAt k') (fun shown => ?_) ?_
          · obtain ⟨old, before⟩ := Option.isSome_iff_exists.mp (Option.isSome_map.symm.trans shown)
            obtain ⟨st', there, -, held⟩ := owned.alerts k' old before
            exact own st' there ▸ held
          · obtain ⟨-, -, -, shown, -⟩ := turn_spec c now e here turned
            rw [← shown, shownAt, found]
            rfl
        refine ⟨turned.1, AList.lookup_insert _, ?_, held⟩
        rw [Owns, rule, owner, subject]
        obtain ⟨old, before, rule₁, conn₁, subject₁⟩ | ⟨-, its⟩ := alerts k' a found
        · obtain ⟨st', there, ⟨rule₂, conn₂, subject₂⟩, -⟩ := owned.alerts k' old before
          obtain ⟨place, plain', conn'⟩ := owned.named.states k' st' there
          obtain ⟨sameRule, sameConn, sameSubject⟩ := key_injective plain plain' conn conn' (here.symm.trans place)
          exact ⟨rule₁.trans (rule₂.trans sameRule.symm), conn₁.trans (conn₂.trans sameConn.symm),
            subject₁.trans (subject₂.trans sameSubject.symm)⟩
        · exact its
      · rw [AList.lookup_insert_ne same]
        obtain ⟨old, before, rule₁, conn₁, subject₁⟩ | ⟨there, -⟩ := alerts k' a found
        · obtain ⟨st', there, ⟨rule₂, conn₂, subject₂⟩, held⟩ := owned.alerts k' old before
          exact ⟨st', there, ⟨rule₁.trans rule₂, conn₁.trans conn₂, subject₁.trans subject₂⟩, held⟩
        · exact absurd (there.trans here.symm) same
  · exact fun _ before => heard ⟨before.began, before.told⟩
  · exact fun _ => ⟨sends.byID, sends.rules, sends.maintenance, sends.sent⟩

section Observe
variable [Numbers F] [Payloads F]

theorem observeAt_kept (owned : e.Owned) {c : Compiled F} (listed : c ∈ e.rules) {connID : Str} (conn : Plain connID)
    (r : Record) (now : Int) : Kept e now (e.observeAt connID r now c) := by
  unfold observeAt
  split
  · exact .refl e now
  · have plain := owned.named.rules c listed
    obtain ⟨rule, owner, subject⟩ := stateAt_names owned.named plain conn r.subject
    obtain ⟨rule', owner', subject'⟩ := SubjectState.observe_names c r now (e.stateAt c connID r.subject)
    refine turn_kept (owned.rules c listed) plain (owner.symm ▸ conn) (by rw [owner, subject])
      ⟨rule'.trans rule, owner', subject'⟩ (fun st there => ?_) (SubjectState.observe_backed c r now _)
    rw [stateAt, there, Option.getD_some]

theorem observe_kept (owned : e.Owned) {connID : Str} (conn : Plain connID) (r : Record) (now : Int) :
    Kept e now (e.observe connID r now) := by
  rw [observe_eq]
  have fold (cs : List (Compiled F)) : ∀ e : Engine F, e.Owned → (∀ c ∈ cs, c ∈ e.rules) →
      Kept e now (cs.foldl (observeAt connID r now) e) := by
    induction cs with
    | nil => exact fun e _ _ => .refl e now
    | cons c cs ih =>
      intro e owned listed
      have first := observeAt_kept owned (listed c List.mem_cons_self) conn r now
      refine first.trans (ih _ (first.owned owned) fun c' member => ?_)
      rw [(observeAt_same connID r now c).2]
      exact listed c' (List.mem_cons_of_mem _ member)
  exact fold e.rules e owned fun c member => member

end Observe

section Tick
variable [Numbers F]

theorem tickAt_kept (owned : e.Owned) (now : Int) (k : Str) : Kept e now (e.tickAt now k) := by
  unfold tickAt
  split
  · exact .refl e now
  · rename_i st found
    split
    · exact .refl e now
    · rename_i c table
      split
      · exact .refl e now
      · obtain ⟨here, plain, conn⟩ := owned.named.states k st found
        have id := owned.named.byID st.ruleID c table
        obtain ⟨rule, owner, subject⟩ := SubjectState.tick_names c now st
        refine turn_kept (by rw [id, table]) (id ▸ plain) conn (id ▸ here) ⟨rule.trans id.symm, owner, subject⟩
          (fun st' there => ?_) (SubjectState.tick_backed c now st)
        exact Option.some.inj (there.symm.trans found)

theorem tickFold_kept (owned : e.Owned) (now : Int) (keys : List Str) : Kept e now (keys.foldl (tickAt now) e) := by
  induction keys generalizing e with
  | nil => exact .refl e now
  | cons k keys ih =>
    have first := tickAt_kept owned now k
    exact first.trans (ih (first.owned owned))

end Tick

section Refresh

/-- An alert whose mark is read again. -/
def remarked (e : Engine F) (now : Int) (a : Alert) : Alert :=
  match e.byID.lookup a.ruleID with
  | none => a
  | some c => { a with muted := e.muted c a.subject now }

/-- What is sent when a mark is read again. -/
def late (e : Engine F) (now : Int) (a : Alert) : List Event :=
  match e.byID.lookup a.ruleID with
  | none => []
  | some c =>
    if a.muted && !e.muted c a.subject now then
      [{ time := now, ruleID := c.id, ruleName := c.name, connID := a.connID, subject := a.subject,
         state := a.state, severity := c.severity, preview := a.preview }]
    else []

def refreshAt (now : Int) (e : Engine F) (k : Str) : Engine F :=
  match e.active.lookup k with
  | none => e
  | some a =>
    match e.byID.lookup a.ruleID with
    | none => e
    | some c =>
      let muted := e.muted c a.subject now
      { e with
        active := e.active.insert k { a with muted := muted }
        notified := e.notified ++
          if a.muted && !muted then
            [{ time := now, ruleID := c.id, ruleName := c.name, connID := a.connID, subject := a.subject,
               state := a.state, severity := c.severity, preview := a.preview }]
          else [] }

theorem refreshMuted_eq (rt : Runtime) (now : Int) :
    e.refreshMuted rt now = (rt.range e.active.keys).foldl (refreshAt now) e := rfl

/-- What reading one mark again does. -/
theorem refreshAt_spec (now : Int) (k : Str) :
    let e' := e.refreshAt now k
    e'.states = e.states ∧ e'.byID = e.byID ∧ e'.rules = e.rules ∧ e'.maintenance = e.maintenance ∧
      e'.active.lookup k = (e.active.lookup k).map (e.remarked now) ∧
      (∀ k', k' ≠ k → e'.active.lookup k' = e.active.lookup k') ∧
      e'.notified = e.notified ++ (e.active.lookup k).elim [] (e.late now) := by
  unfold refreshAt
  cases found : e.active.lookup k with
  | none => exact ⟨rfl, rfl, rfl, rfl, found, fun _ _ => rfl, (List.append_nil _).symm⟩
  | some a =>
    simp only [Option.map_some, Option.elim_some, remarked, late]
    cases e.byID.lookup a.ruleID with
    | none => exact ⟨rfl, rfl, rfl, rfl, found, fun _ _ => rfl, (List.append_nil _).symm⟩
    | some c => exact ⟨rfl, rfl, rfl, rfl, AList.lookup_insert _, fun _ other => AList.lookup_insert_ne other, rfl⟩

theorem refreshFold_spec (now : Int) {keys : List Str} (distinct : keys.Nodup) :
    let e' := keys.foldl (refreshAt now) e
    e'.states = e.states ∧ e'.byID = e.byID ∧ e'.rules = e.rules ∧ e'.maintenance = e.maintenance ∧
      (∀ k, e'.active.lookup k = if k ∈ keys then (e.active.lookup k).map (e.remarked now) else e.active.lookup k) ∧
      e'.notified = e.notified ++ keys.flatMap fun k => (e.active.lookup k).elim [] (e.late now) := by
  induction keys generalizing e with
  | nil => exact ⟨rfl, rfl, rfl, rfl, fun k => by rw [if_neg List.not_mem_nil]; rfl, (List.append_nil _).symm⟩
  | cons k keys ih =>
    obtain ⟨first, distinct⟩ := List.nodup_cons.mp distinct
    obtain ⟨states, byID, rules, maintenance, active, notified⟩ := ih (e := e.refreshAt now k) distinct
    obtain ⟨states', byID', rules', maintenance', here, others, sent⟩ := refreshAt_spec (e := e) now k
    have marks : (e.refreshAt now k).remarked now = e.remarked now ∧ (e.refreshAt now k).late now = e.late now := by
      constructor
      · funext a
        unfold remarked muted
        rw [byID', maintenance']
      · funext a
        unfold late muted
        rw [byID', maintenance']
    refine ⟨states.trans states', byID.trans byID', rules.trans rules', maintenance.trans maintenance', fun k' => ?_, ?_⟩
    · rw [List.foldl_cons, active k', marks.1]
      by_cases own : k' = k
      · subst own
        rw [if_neg first, if_pos List.mem_cons_self, here]
      · rw [others k' own]
        by_cases member : k' ∈ keys
        · rw [if_pos member, if_pos (List.mem_cons_of_mem _ member)]
        · rw [if_neg member, if_neg fun among => (List.mem_cons.mp among).elim own member]
    · rw [List.foldl_cons, notified, sent, List.flatMap_cons, List.append_assoc, marks.2]
      refine congrArg (fun events => e.notified ++ ((e.active.lookup k).elim [] (e.late now) ++ events)) ?_
      refine List.flatMap_congr fun k' member => ?_
      rw [others k' fun own => first (own ▸ member)]

/-- Every mark is read again. -/
theorem refreshMuted_active (rt : Runtime) (now : Int) (k : Str) :
    (e.refreshMuted rt now).active.lookup k = (e.active.lookup k).map (e.remarked now) := by
  have distinct : (rt.range e.active.keys).Nodup := (rt.range_perm _).nodup_iff.mpr e.active.keys_nodup
  rw [refreshMuted_eq, (refreshFold_spec now distinct).2.2.2.2.1 k]
  by_cases member : k ∈ rt.range e.active.keys
  · rw [if_pos member]
  · have absent : e.active.lookup k = none := AList.lookup_eq_none.mpr fun among => member (rt.mem_range.mpr among)
    rw [if_neg member, absent]
    rfl

theorem remarked_same (now : Int) (a : Alert) : (e.remarked now a).ruleID = a.ruleID ∧
    (e.remarked now a).connID = a.connID ∧ (e.remarked now a).subject = a.subject ∧ (e.remarked now a).since = a.since := by
  unfold remarked
  split <;> exact ⟨rfl, rfl, rfl, rfl⟩

theorem late_silent (owned : e.Owned) (now : Int) (a : Alert) : e.Silent now (e.late now a) := by
  intro ev member _
  unfold late at member
  split at member
  · cases member
  · rename_i c table
    split at member
    · rename_i both
      rw [List.mem_singleton] at member
      subst member
      refine ⟨rfl, c, ?_, ?_⟩
      · exact owned.named.byID a.ruleID c table ▸ table
      · simpa using ((Bool.and_eq_true _ _).mp both).2
    · cases member

/-- An alert that is not marked any more was announced before, or is now. -/
theorem remarked_announced (owned : e.Owned) (heard : e.Heard now) {k : Str} {a : Alert} (found : e.active.lookup k = some a)
    (loud : (e.remarked now a).muted = false) : Announced (e.notified ++ e.late now a) (e.remarked now a) := by
  obtain ⟨st, state, own, -⟩ := owned.alerts k a found
  obtain ⟨c, table⟩ := owned.inForce k st state
  rw [← own.1] at table
  have id := owned.named.byID a.ruleID c table
  have began := heard.began k a found
  unfold remarked late at *
  rw [table] at loud ⊢
  simp only at loud ⊢
  cases marked : a.muted with
  | false => exact (heard.told k a found marked).mono
  | true =>
    rw [loud]
    exact ⟨_, List.mem_append_right _ (List.mem_singleton_self _), rfl, id, rfl, rfl, began⟩

theorem refreshMuted_kept (rt : Runtime) (now : Int) : Kept e now (e.refreshMuted rt now) := by
  have distinct : (rt.range e.active.keys).Nodup := (rt.range_perm _).nodup_iff.mpr e.active.keys_nodup
  have active := refreshMuted_active (e := e) rt now
  obtain ⟨states, byID, rules, maintenance, -, notified⟩ := refreshFold_spec (e := e) now distinct
  rw [← refreshMuted_eq] at states byID rules maintenance notified
  generalize e.refreshMuted rt now = e' at *
  constructor
  · intro owned
    refine ⟨⟨states.symm ▸ owned.named.states, byID.symm ▸ owned.named.byID, rules.symm ▸ owned.named.rules⟩,
      rules.symm ▸ owned.distinct, rules.symm ▸ byID.symm ▸ owned.rules, states.symm ▸ byID.symm ▸ owned.inForce, fun k a found => ?_⟩
    rw [active] at found
    obtain ⟨old, before, rfl⟩ := Option.map_eq_some_iff.mp found
    obtain ⟨st, state, ⟨rule, conn, subject⟩, held⟩ := owned.alerts k old before
    obtain ⟨rule', conn', subject', -⟩ := remarked_same (e := e) now old
    exact ⟨st, states ▸ state, ⟨rule'.trans rule, conn'.trans conn, subject'.trans subject⟩, held⟩
  · intro owned heard
    constructor
    · intro k a found
      rw [active] at found
      obtain ⟨old, before, rfl⟩ := Option.map_eq_some_iff.mp found
      exact (remarked_same (e := e) now old).2.2.2 ▸ heard.began k old before
    · intro k a found loud
      rw [active] at found
      obtain ⟨old, before, rfl⟩ := Option.map_eq_some_iff.mp found
      obtain ⟨ev, member, rest⟩ := remarked_announced owned heard before loud
      refine ⟨ev, ?_, rest⟩
      rw [notified]
      rcases List.mem_append.mp member with member | member
      · exact List.mem_append_left _ member
      · have among : k ∈ rt.range e.active.keys :=
          rt.mem_range.mpr (AList.lookup_isSome.mp (Option.isSome_of_eq_some before))
        refine List.mem_append_right _ (List.mem_flatMap.mpr ⟨k, among, ?_⟩)
        rw [before]
        exact member
  · intro owned
    refine ⟨byID, rules, maintenance, _, notified, fun ev member => ?_⟩
    obtain ⟨k, -, sent⟩ := List.mem_flatMap.mp member
    cases found : e.active.lookup k with
    | none =>
      rw [found] at sent
      cases sent
    | some a =>
      rw [found] at sent
      exact late_silent owned now a ev sent

end Refresh

section Sweep

/-- States and alerts that go take nothing from those that stay. -/
theorem drop_kept (now : Int) (k : Str) : Kept e now (e.drop k) := by
  have gone {V : Type} {m : Map Str V} {k' : Str} {v : V} (found : (m.erase k).lookup k' = some v) :
      k' ≠ k ∧ m.lookup k' = some v := by
    by_cases same : k' = k
    · rw [same, AList.lookup_erase] at found
      cases found
    · rw [AList.lookup_erase_ne same] at found
      exact ⟨same, found⟩
  refine ⟨fun owned => ⟨⟨?_, owned.named.byID, owned.named.rules⟩, owned.distinct, owned.rules, ?_, ?_⟩, fun _ heard => ⟨?_, ?_⟩,
    fun _ => ⟨rfl, rfl, rfl, [], (List.append_nil _).symm, nofun⟩⟩
  · exact fun k' st found => owned.named.states k' st (gone found).2
  · exact fun k' st found => owned.inForce k' st (gone found).2
  · intro k' a found
    obtain ⟨other, before⟩ := gone found
    obtain ⟨st, state, own⟩ := owned.alerts k' a before
    exact ⟨st, (AList.lookup_erase_ne other).trans state, own⟩
  · exact fun k' a found => heard.began k' a (gone found).2
  · exact fun k' a found => heard.told k' a (gone found).2

/-- A state goes when it is asked for. -/
def sweepAt (p : SubjectState F → Bool) (e : Engine F) (k : Str) : Engine F :=
  match e.states.lookup k with
  | none => e
  | some st => if p st then e.drop k else e

theorem sweepAt_spec (p : SubjectState F → Bool) (k : Str) :
    let e' := e.sweepAt p k
    e'.notified = e.notified ∧ (∀ k' st, e'.states.lookup k' = some st → e.states.lookup k' = some st) ∧
      ∀ st, e'.states.lookup k = some st → p st = false := by
  unfold sweepAt
  cases found : e.states.lookup k with
  | none => exact ⟨rfl, fun _ _ => id, fun st there => absurd (found.symm.trans there) nofun⟩
  | some st =>
    simp only
    split
    · refine ⟨rfl, fun k' st' there => ?_, fun st' there => ?_⟩
      · by_cases same : k' = k
        · rw [same] at there
          exact absurd ((AList.lookup_erase ..).symm.trans there) nofun
        · exact (AList.lookup_erase_ne same).symm.trans there
      · exact absurd ((AList.lookup_erase ..).symm.trans there) nofun
    · rename_i stays
      refine ⟨rfl, fun _ _ => id, fun st' there => ?_⟩
      rw [found] at there
      cases there
      exact Bool.eq_false_iff.mpr stays

/-- What is left after a sweep. -/
theorem sweep_spec (p : SubjectState F → Bool) (keys : List Str) (now : Int) :
    let e' := keys.foldl (sweepAt p) e
    Kept e now e' ∧ e'.notified = e.notified ∧ (∀ k st, e'.states.lookup k = some st → e.states.lookup k = some st) ∧
      ∀ k ∈ keys, ∀ st, e'.states.lookup k = some st → p st = false := by
  induction keys generalizing e with
  | nil => exact ⟨.refl e now, rfl, fun _ _ => id, fun k none => absurd none List.not_mem_nil⟩
  | cons k keys ih =>
    obtain ⟨kept, notified, fewer, gone⟩ := ih (e := e.sweepAt p k)
    obtain ⟨notified', fewer', gone'⟩ := sweepAt_spec (e := e) p k
    have first : Kept e now (e.sweepAt p k) := by
      unfold sweepAt
      split
      · exact .refl e now
      · split
        · exact drop_kept now k
        · exact .refl e now
    refine ⟨first.trans kept, notified.trans notified', fun k' st there => fewer' k' st (fewer k' st there), ?_⟩
    intro k' member st there
    rcases List.mem_cons.mp member with rfl | member
    · exact gone' st (fewer k' st there)
    · exact gone k' member st there

theorem sweep_with (p : SubjectState F → Bool) (keys : List Str) (cs : List (Compiled F)) (byID : Map Str (Compiled F)) :
    keys.foldl (sweepAt p) { e with rules := cs, byID := byID } =
      { keys.foldl (sweepAt p) e with rules := cs, byID := byID } := by
  induction keys generalizing e with
  | nil => rfl
  | cons k keys ih =>
    rw [List.foldl_cons, List.foldl_cons, ← ih]
    refine congrArg (List.foldl (sweepAt p) · keys) ?_
    unfold sweepAt
    simp only
    cases e.states.lookup k with
    | none => rfl
    | some st =>
      simp only
      split <;> rfl

theorem forget_eq (connID : Str) (rt : Runtime) :
    e.forget connID rt = (rt.range e.states.keys).foldl (sweepAt fun st => st.connID = connID) e := by
  unfold forget
  refine congrArg (fun f => (rt.range e.states.keys).foldl f e) (funext fun e => funext fun k => ?_)
  unfold sweepAt
  cases e.states.lookup k with
  | none => rfl
  | some st => simp only [decide_eq_true_eq]

end Sweep

section Fair

/-- What a call leaves. -/
structure Fair (e : Engine F) (now : Int) (e' : Engine F) : Prop where
  owned : e'.Owned
  heard : e'.Heard now
  sent : ∃ events, e'.notified = e.notified ++ events ∧ e'.Silent now events

theorem Heard.later {t : Int} (heard : e.Heard t) (later : t ≤ now) : e.Heard now :=
  ⟨fun k a found => (heard.began k a found).trans later, heard.told⟩

theorem Kept.fair (kept : Kept e now e') (owned : e.Owned) (heard : e.Heard now) : Fair e now e' := by
  have sends := kept.sends owned
  obtain ⟨events, notified, silent⟩ := sends.sent
  exact ⟨kept.owned owned, kept.heard owned heard, events, notified, silent.congr sends.byID.symm sends.maintenance.symm⟩

/-- The rules or windows change, and then the marks are read again. -/
theorem Fair.refreshed (owned : e'.Owned) (heard : e'.Heard now) (notified : e'.notified = e.notified) (rt : Runtime) :
    Fair e now (e'.refreshMuted rt now) := by
  obtain ⟨owned, heard, sent⟩ := (refreshMuted_kept rt now).fair owned heard
  exact ⟨owned, heard, notified ▸ sent⟩

theorem Owned.maintained (owned : e.Owned) (list : List Maintenance) : Owned { e with maintenance := list } :=
  ⟨⟨owned.named.states, owned.named.byID, owned.named.rules⟩, owned.distinct, owned.rules, owned.inForce, owned.alerts⟩

/-- What an acknowledgement changes. -/
theorem ack_lookup (k by_ : Str) (acked : Bool) (at_ : Int) {k' : Str} {a' : Alert}
    (there : (e.ack k by_ acked at_).1.active.lookup k' = some a') :
    ∃ ackedAt ackedBy old, e.active.lookup k' = some old ∧ a' = { old with ackedAt := ackedAt, ackedBy := ackedBy } := by
  unfold ack at there
  cases found : e.active.lookup k with
  | none =>
    rw [found] at there
    exact ⟨a'.ackedAt, a'.ackedBy, a', there, rfl⟩
  | some a =>
    rw [found] at there
    by_cases own : k' = k
    · rw [own, AList.lookup_insert] at there
      rw [← Option.some.inj there, own]
      split
      · exact ⟨at_, by_, a, found, rfl⟩
      · exact ⟨0, [], a, found, rfl⟩
    · rw [AList.lookup_insert_ne own] at there
      exact ⟨a'.ackedAt, a'.ackedBy, a', there, rfl⟩

theorem ack_rest (k by_ : Str) (acked : Bool) (at_ : Int) :
    let e' := (e.ack k by_ acked at_).1
    e'.states = e.states ∧ e'.byID = e.byID ∧ e'.rules = e.rules ∧ e'.notified = e.notified := by
  unfold ack
  split <;> exact ⟨rfl, rfl, rfl, rfl⟩

theorem ack_owned (owned : e.Owned) (k by_ : Str) (acked : Bool) (at_ : Int) : (e.ack k by_ acked at_).1.Owned := by
  obtain ⟨states, byID, rules, -⟩ := ack_rest (e := e) k by_ acked at_
  obtain ⟨⟨named, table, plain⟩, distinct, listed, inForce, alerts⟩ := owned
  refine ⟨⟨?_, ?_, ?_⟩, ?_, ?_, ?_, fun k' a' there => ?_⟩ <;> simp only [states, byID, rules]
  · exact named
  · exact table
  · exact plain
  · exact distinct
  · exact listed
  · exact inForce
  · obtain ⟨_, _, a₀, before, rfl⟩ := ack_lookup k by_ acked at_ there
    exact alerts k' a₀ before

theorem ack_fair (owned : e.Owned) (heard : e.Heard now) (k by_ : Str) (acked : Bool) (at_ : Int) :
    Fair e now (e.ack k by_ acked at_).1 := by
  have notified := (ack_rest (e := e) k by_ acked at_).2.2.2
  refine ⟨ack_owned owned k by_ acked at_, ⟨fun k' a' there => ?_, fun k' a' there loud => ?_⟩,
    [], by rw [notified, List.append_nil], nofun⟩
  · obtain ⟨_, _, a₀, before, rfl⟩ := ack_lookup k by_ acked at_ there
    exact heard.began k' a₀ before
  · rw [notified]
    obtain ⟨_, _, a₀, before, rfl⟩ := ack_lookup k by_ acked at_ there
    exact heard.told k' a₀ before loud

end Fair

section Runs
variable [Tables] [Filter.Compiler] [Numbers F] [Payloads F] [DecidableEq F]

/-- The time a call reads, or the last one. -/
def clock (t : Nat) : Op F → Nat
  | .observe _ _ _ now | .tick _ now | .setRules _ _ _ now | .setMaintenance _ _ now | .ack _ _ _ now => now
  | .forget .. => t

omit [Numbers F] in
/-- New rules leave an engine swept of what they outdate. -/
theorem setRules_left (owned : e.Owned) {rules : List (Rule F)} (plain : ∀ rule ∈ rules, Plain rule.id) {rt : Runtime}
    (set : e.setRules rules rt now = .ok e') :
    ∃ swept cs byID, Kept e now swept ∧ swept.notified = e.notified ∧ Owned { swept with rules := cs, byID := byID } ∧
      e' = ({ swept with rules := cs, byID := byID } : Engine F).refreshMuted rt now := by
  unfold setRules at set
  simp only [bind, Except.bind, pure, Except.pure] at set
  split at set
  · cases set
  · rename_i compiled compiledRules
    obtain ⟨cs, byID⟩ := compiled
    simp only [Except.ok.injEq] at set
    obtain ⟨ids, named⟩ := compile_spec compiledRules fun id c none => by cases none
    obtain ⟨-, table, distinct, -⟩ := compile_table compiledRules
    have same := sweep_with (e := e) (outdated e.byID byID) (rt.range e.states.keys) cs byID
    obtain ⟨kept, notified, fewer, current⟩ := sweep_spec (e := e) (outdated e.byID byID) (rt.range e.states.keys) now
    have left := kept.owned owned
    change ((rt.range e.states.keys).foldl (sweepAt (outdated e.byID byID)) { e with rules := cs, byID := byID }).refreshMuted rt now
      = e' at set
    rw [same] at set
    refine ⟨_, cs, byID, kept, notified, ?_, set.symm⟩
    generalize (rt.range e.states.keys).foldl (sweepAt (outdated e.byID byID)) e = swept at *
    refine ⟨⟨left.named.states, named, fun c member => ?_⟩, distinct, fun c member => (table c member).2, fun k st found => ?_, left.alerts⟩
    · obtain ⟨rule, listed, id⟩ := ids c member
      exact id ▸ plain rule listed
    have among : k ∈ rt.range e.states.keys :=
      rt.mem_range.mpr (AList.lookup_isSome.mp (Option.isSome_of_eq_some (fewer k st found)))
    have up := current k among st found
    unfold outdated at up
    split at up
    · rename_i new _ there _
      exact ⟨new, there⟩
    · cases up

omit [Numbers F] in
theorem setRules_fair (owned : e.Owned) (heard : e.Heard now) {rules : List (Rule F)} (plain : ∀ rule ∈ rules, Plain rule.id)
    {rt : Runtime} (set : e.setRules rules rt now = .ok e') : Fair e now e' := by
  obtain ⟨swept, cs, byID, kept, notified, owned', rfl⟩ := setRules_left owned plain set
  have still := kept.heard owned heard
  exact Fair.refreshed owned' ⟨still.began, still.told⟩ notified rt

/-- Whatever time it reads, a call leaves every alert the one of a subject where a condition holds. -/
theorem step_owned (e : Engine F) (op : Op F) (owned : e.Owned) : (e.step op).Owned := by
  cases op with
  | observe connID plain r now => exact (observe_kept owned plain r now).owned owned
  | tick rt now =>
    have turns := tickFold_kept owned now (rt.range e.states.keys)
    exact (turns.trans (refreshMuted_kept rt now)).owned owned
  | setRules rules plain rt now =>
    simp only [step]
    cases set : e.setRules rules rt now with
    | error => exact owned
    | ok e' =>
      obtain ⟨swept, cs, byID, -, -, owned', rfl⟩ := setRules_left owned plain set
      exact (refreshMuted_kept rt now).owned owned'
  | setMaintenance list rt now =>
    simp only [step]
    cases set : e.setMaintenance list rt now with
    | error => exact owned
    | ok e' =>
      unfold setMaintenance at set
      simp only [bind, Except.bind, pure, Except.pure] at set
      split at set
      · cases set
      · rename_i out _
        cases set
        exact (refreshMuted_kept rt now).owned (owned.maintained out)
  | ack k by_ acked now => exact ack_owned owned k by_ acked now
  | forget connID rt =>
    rw [step, forget_eq]
    exact (sweep_spec (fun st => st.connID = connID) (rt.range e.states.keys) 0).1.owned owned

theorem step_fair (owned : e.Owned) {t : Nat} (heard : e.Heard t) (op : Op F) (later : t ≤ clock t op) :
    Fair e (clock t op) (e.step op) := by
  have heard := heard.later (Int.ofNat_le.mpr later)
  cases op with
  | observe connID plain r now => exact (observe_kept owned plain r now).fair owned heard
  | tick rt now =>
    have turns := tickFold_kept owned now (rt.range e.states.keys)
    exact (turns.trans (refreshMuted_kept rt now)).fair owned heard
  | setRules rules plain rt now =>
    simp only [step]
    cases set : e.setRules rules rt now with
    | error => exact (Kept.refl e _).fair owned heard
    | ok e' => exact setRules_fair owned heard plain set
  | setMaintenance list rt now =>
    simp only [step]
    cases set : e.setMaintenance list rt now with
    | error => exact (Kept.refl e _).fair owned heard
    | ok e' =>
      unfold setMaintenance at set
      simp only [bind, Except.bind, pure, Except.pure] at set
      split at set
      · cases set
      · rename_i out _
        cases set
        exact Fair.refreshed (e := e) (owned.maintained out) ⟨heard.began, heard.told⟩ rfl rt
  | ack k by_ acked now => exact ack_fair owned heard k by_ acked now
  | forget connID rt =>
    rw [step, forget_eq]
    exact (sweep_spec (fun st => st.connID = connID) (rt.range e.states.keys) _).1.fair owned heard

omit [Tables] [Filter.Compiler] [Payloads F] [DecidableEq F] in
/-- After a tick the marks are those of its time. -/
theorem tick_marks (rt : Runtime) (now : Nat) {k : Str} {a : Alert} {c : Compiled F}
    (found : (e.tick rt now).active.lookup k = some a) (table : (e.tick rt now).byID.lookup a.ruleID = some c) :
    a.muted = (e.tick rt now).muted c a.subject now := by
  unfold tick at *
  generalize (rt.range e.states.keys).foldl (tickAt now) e = e' at *
  have distinct : (rt.range e'.active.keys).Nodup := (rt.range_perm _).nodup_iff.mpr e'.active.keys_nodup
  obtain ⟨-, byID, -, maintenance, -, -⟩ := refreshFold_spec (e := e') now distinct
  rw [← refreshMuted_eq] at byID maintenance
  rw [refreshMuted_active] at found
  obtain ⟨old, -, rfl⟩ := Option.map_eq_some_iff.mp found
  rw [byID, (remarked_same (e := e') now old).1] at table
  unfold remarked muted
  rw [maintenance, table]

omit [Tables] [Filter.Compiler] [Numbers F] [Payloads F] [DecidableEq F] in
theorem owned_new : Owned (new : Engine F) := by
  refine ⟨new_sound.named, List.nodup_nil, fun c none => ?_, fun k st none => ?_, fun k a none => ?_⟩
  · cases none
  · cases none
  · cases none

omit [Tables] [Filter.Compiler] [Numbers F] [Payloads F] [DecidableEq F] in
theorem heard_new (now : Int) : Heard (new : Engine F) now := by
  refine ⟨fun k a none => ?_, fun k a none => ?_⟩
  · cases none
  · cases none

/-- The calls come one after the other. -/
def InOrder : Nat → List (Op F) → Prop := Transition.Along clock fun t op => t ≤ clock t op

theorem run_fair {ops : List (Op F)} {t : Nat} (owned : e.Owned) (heard : e.Heard t) (ordered : InOrder t ops) :
    (Transition.run step e ops).Owned ∧ (Transition.run step e ops).Heard (Transition.run clock t ops : Nat) := by
  induction ops generalizing e t with
  | nil => exact ⟨owned, heard⟩
  | cons op ops ih =>
    obtain ⟨later, ordered⟩ := ordered
    obtain ⟨owned, heard, -⟩ := step_fair owned heard op later
    exact ih owned heard ordered

/-- A mute holds an alert back and does not lose it: nothing is sent while it is muted, and after every
tick an alert that is not muted was announced since it began. -/
theorem held_back (ops : List (Op F)) (ordered : InOrder 0 ops) {before : List (Op F)} {op : Op F}
    (part : before ++ [op] <+: ops) :
    let e := Transition.run step (new : Engine F) before
    let e' := e.step op
    (∃ sent, e'.notified = e.notified ++ sent ∧ ∀ ev ∈ sent, ev.muted = false →
        ∃ c, e'.byID.lookup ev.ruleID = some c ∧ e'.muted c ev.subject ev.time = false) ∧
      ∀ rt now, op = .tick rt now → ∀ k a, e'.active.lookup k = some a →
        ∃ c, e'.byID.lookup a.ruleID = some c ∧ (e'.muted c a.subject now = false →
          ∃ ev ∈ e'.notified, ev.muted = false ∧ key ev.ruleID ev.connID ev.subject = k ∧ a.since ≤ ev.time) := by
  intro e e'
  obtain ⟨rest, rfl⟩ := part
  obtain ⟨first, -⟩ := Transition.along_append.mp ordered
  obtain ⟨first, later, -⟩ := Transition.along_append.mp first
  obtain ⟨owned, heard⟩ := run_fair (owned_new (F := F)) (t := 0) (heard_new _) first
  obtain ⟨owned', heard', sent, notified, silent⟩ := step_fair owned heard op later
  refine ⟨⟨sent, notified, fun ev member loud => ?_⟩, ?_⟩
  · obtain ⟨time, c, table, unmuted⟩ := silent ev member loud
    exact ⟨c, table, time ▸ unmuted⟩
  · rintro rt now rfl k a found
    obtain ⟨st, state, ⟨rule, conn, subject⟩, -⟩ := owned'.alerts k a found
    obtain ⟨c, table⟩ := owned'.inForce k st state
    rw [← rule] at table
    refine ⟨c, table, fun unmuted => ?_⟩
    have mark := tick_marks (e := e) rt now found table
    obtain ⟨ev, member, loud, rule', conn', subject', after⟩ := heard'.told k a found (mark.trans unmuted)
    refine ⟨ev, member, loud, ?_, after⟩
    rw [rule', conn', subject', rule, conn, subject]
    exact (owned'.named.states k st state).1.symm

end Runs

section Sample

/-- A rule that is muted until ten seconds after it fires. -/
def mutedCalls : List (Op Int) :=
  [.setRules [{ always with mutedUntil := 11000 }] (by decide) .plain 0, .observe ['c'] plain_c beat 1000, .tick .plain 12000]

theorem held_back_late : let _ := asciiTables; let _ := yes; let _ := sampleNumbers; let _ := samplePayloads
    let e := Transition.run step (new : Engine Int) (mutedCalls.take 2)
    let e' := e.step (.tick .plain 12000)
    (∃ sent, e'.notified = e.notified ++ sent ∧ ∀ ev ∈ sent, ev.muted = false →
        ∃ c, e'.byID.lookup ev.ruleID = some c ∧ e'.muted c ev.subject ev.time = false) ∧
      ∀ rt now, Op.tick .plain 12000 = Op.tick (F := Int) rt now → ∀ k a, e'.active.lookup k = some a →
        ∃ c, e'.byID.lookup a.ruleID = some c ∧ (e'.muted c a.subject now = false →
          ∃ ev ∈ e'.notified, ev.muted = false ∧ key ev.ruleID ev.connID ev.subject = k ∧ a.since ≤ ev.time) := by
  intro _ _ _ _
  exact held_back mutedCalls ⟨by decide, by decide, by decide, trivial⟩ List.prefix_rfl

end Sample
end Engine
end NatsExplorer.Alerts
