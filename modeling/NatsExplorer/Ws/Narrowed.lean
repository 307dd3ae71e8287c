import NatsExplorer.Ws.Scope

/-! A narrowed tab: what it is sent is about connections it may see, and does not depend on the
others, but for the colours of the connections, the figures of the database, and when the list of
connections and the alerts are sent. -/
namespace NatsExplorer.Ws
open Go

/-! ### The gate and the handler behind it -/

section Gate
variable [json.Recognizer] {allow : Str → Bool} {cmd : Option Command} {data : List UInt8} {live : LiveCommand}

/-- Both structs take the connection of a frame from the same keys. -/
theorem gateTarget_of_live (decoded : liveCommand data = some live) : gateTarget data = some live.connID := by
  unfold liveCommand at decoded
  unfold gateTarget
  simp only [Option.bind_eq_bind, Option.bind_eq_some_iff, Option.pure_def, Option.some.injEq] at decoded ⊢
  obtain ⟨v, parsed, type, _, connID, named, bucket, _, stream, _, domain, _, rfl⟩ := decoded
  exact ⟨v, parsed, named⟩

theorem watched_allowed (starts : watched (some allow) (frameOf cmd data) = some live) :
    live.connID = [] ∨ allow live.connID = true := by
  unfold watched at starts
  split_ifs at starts with gated
  obtain ⟨decoded, _⟩ := Option.filter_eq_some_iff.mp starts
  rw [Bool.or_eq_true, not_or, Bool.not_eq_true, Bool.not_eq_true] at gated
  have passed := gated.2
  change refused (some allow) (gateTarget data) = false at passed
  rw [gateTarget_of_live decoded] at passed
  by_cases unnamed : live.connID = []
  · exact Or.inl unnamed
  · exact Or.inr (by simpa [refused, unnamed] using passed)

end Gate

/-- The key a command's watch runs under. -/
def LiveCommand.key (cmd : LiveCommand) : Str := if cmd.type = "kv-watch".toList then cmd.kv else cmd.tail

theorem start_handleCommand {cmd : LiveCommand} {key : Str} :
    Call.start key ∈ handleCommand cmd ↔ cmd.starts = true ∧ key = cmd.key := by
  unfold handleCommand LiveCommand.starts LiveCommand.key
  split_ifs <;> simp_all

/-- What `OnMessage` starts is what is watched. -/
theorem start_iff [Tables] [Filter.Compiler] {allow : Option (Str → Bool)} {data : Frame} {key : Str} :
    Call.start key ∈ onMessage allow data ↔ ∃ cmd, watched allow data = some cmd ∧ key = cmd.key := by
  have live : data.taken = false →
      (Call.start key ∈ liveCalls allow data ↔ ∃ cmd, watched allow data = some cmd ∧ key = cmd.key) := by
    intro left
    unfold liveCalls watched
    cases gated : refused allow data.target with
    | true => simp
    | false =>
      cases decoded : data.live with
      | none => simp [left]
      | some cmd => simp [left, start_handleCommand, Option.filter_eq_some_iff, and_assoc]
  unfold onMessage
  cases given : data.cmd with
  | none => exact live (by simp [Frame.taken, given])
  | some cmd =>
    dsimp only
    by_cases focus : cmd.type = "focus".toList
    · simp [watched, Frame.taken, given, focus]
    · by_cases view : cmd.type = "view".toList
      · rw [if_neg focus, if_pos view]
        split_ifs <;> simp [watched, Frame.taken, given, view]
      · rw [if_neg focus, if_neg view]
        exact live (by simp only [Frame.taken, given, Option.any_some, focus, view, decide_false, Bool.or_self])

/-! ### What it is about -/

section Within
variable {D : Type} {allow : Str → Bool} {event sent : Event D} {s : Server D}

/-- About connections that may be seen, or about none at all. -/
def Event.Within (allow : Str → Bool) (event : Event D) : Prop :=
  ∀ connID ∈ event.about, connID = [] ∨ allow connID = true

/-- Only the events of a watch or a tail carry a connection and no scope. -/
def Event.ofWatch : Event D → Option Str
  | .liveError connID _ _ _ => some connID
  | .kvUpdate connID _ _ => some connID
  | .streamMsg connID _ _ => some connID
  | _ => none

theorem scopedFor_within (delivered : event.scopedFor (some allow) = some sent)
    (watch : ∀ connID ∈ event.ofWatch, connID = [] ∨ allow connID = true) : sent.Within allow := by
  cases event with
  | filterError error =>
    cases delivered
    exact nofun
  | connections data =>
    cases delivered
    intro connID listed
    obtain ⟨st, member, rfl⟩ := List.mem_map.mp listed
    exact Or.inr (List.mem_filter.mp member).2
  | alerts active events =>
    cases delivered
    intro connID listed
    rcases List.mem_append.mp listed with listed | listed
    · obtain ⟨a, member, rfl⟩ := List.mem_map.mp listed
      exact Or.inr (List.mem_filter.mp member).2
    · obtain ⟨ev, member, rfl⟩ := List.mem_map.mp listed
      exact Or.inr (List.mem_filter.mp member).2
  | messageBatch connID data =>
    simp only [Event.scopedFor, Event.connScope] at delivered
    split_ifs at delivered with seen
    cases delivered
    simpa [Event.Within, Event.about] using Or.inr seen
  | stats connID data =>
    simp only [Event.scopedFor, Event.connScope] at delivered
    split_ifs at delivered with seen
    cases delivered
    simpa [Event.Within, Event.about] using Or.inr seen
  | subjectTree connID data =>
    simp only [Event.scopedFor, Event.connScope] at delivered
    split_ifs at delivered with seen
    cases delivered
    simpa [Event.Within, Event.about] using Or.inr seen
  | liveError connID bucket stream error =>
    cases delivered
    simpa [Event.Within, Event.about] using watch connID rfl
  | kvUpdate connID bucket entry =>
    cases delivered
    simpa [Event.Within, Event.about] using watch connID rfl
  | streamMsg connID stream message =>
    cases delivered
    simpa [Event.Within, Event.about] using watch connID rfl

/-- What was sent, and what was started, is of connections that may be seen. -/
structure Confined (allow : Str → Bool) (s : Server D) : Prop where
  told : ∀ event ∈ s.told, event.Within allow
  started : ∀ cmd ∈ s.started, cmd.connID = [] ∨ allow cmd.connID = true

theorem Confined.send (confined : Confined allow s)
    (watch : ∀ connID ∈ event.ofWatch, connID = [] ∨ allow connID = true) :
    Confined allow (s.send (some allow) event) where
  told := by
    intro sent member
    rcases List.mem_append.mp member with before | now
    · exact confined.told sent before
    · exact scopedFor_within (Option.mem_toList.mp now) watch
  started := confined.started

theorem Confined.keep {s' : Server D} (confined : Confined allow s) (told : s'.told = s.told)
    (started : s'.started = s.started) : Confined allow s' where
  told := told ▸ confined.told
  started := started ▸ confined.started

variable [json.Recognizer] [Tables] [Filter.Compiler]

/-- The server after the reply to a filter, if there is one. -/
def Server.replied (allow : Str → Bool) (s : Server D) (reply : Option Str) : Server D :=
  reply.elim s fun error => s.send (some allow) (.filterError error)

theorem step_frame (cmd : Option Command) (data : List UInt8) : s.step (some allow) (.frame cmd data) =
    { s.replied allow (filterReply (frameOf cmd data)) with
      started := (s.replied allow (filterReply (frameOf cmd data))).started ++ (watched (some allow) (frameOf cmd data)).toList } := by
  unfold Server.step
  dsimp only
  cases filterReply (frameOf cmd data) with
  | none => rfl
  | some error => rfl

theorem Confined.step (confined : Confined allow s) (input : Input D) :
    Confined allow (s.step (some allow) input) := by
  cases input with
  | connect | disconnect | addVirtual | removeVirtual | alerted | recorded => exact confined.keep rfl rfl
  | changed connID detail =>
    unfold Server.step
    dsimp only
    split
    · exact confined
    · exact confined.keep rfl rfl
  | batch | stats | tree | notify =>
    refine confined.send fun connID named => ?_
    cases named
  | flush rt =>
    have sent : Confined allow (s.send (some allow) (.alerts (s.activeAlerts rt) s.pending)) := by
      refine confined.send fun connID named => ?_
      cases named
    exact sent.keep rfl rfl
  | heard cmd heard =>
    unfold Server.step
    dsimp only
    split_ifs with running
    · refine confined.send fun connID named => ?_
      cases heard <;> cases named <;> exact confined.started cmd running
    · exact confined
  | frame cmd data =>
    have replied : Confined allow (s.replied allow (filterReply (frameOf cmd data))) := by
      cases filterReply (frameOf cmd data) with
      | none => exact confined
      | some error =>
        refine confined.send fun connID named => ?_
        cases named
    rw [step_frame]
    refine ⟨replied.told, fun live member => ?_⟩
    rcases List.mem_append.mp member with before | now
    · exact replied.started live before
    · exact watched_allowed (Option.mem_toList.mp now)

end Within

/-! ### What it depends on -/

section Shown
variable {D : Type}

/-- An event without the database's figures; the list of connections and the alerts are told of anew
each time, and left out. -/
def Event.plain : Event D → Option (Event D)
  | .connections _ => none
  | .alerts _ _ => none
  | .stats connID data => some (.stats connID { data with db := none })
  | event => some event

/-- The alert events a client has been told of. -/
def Event.log : Event D → List Alerts.Event
  | .alerts _ events => events
  | _ => []

/-- What a narrowed tab has been shown of the server, or will be by the next push. -/
@[ext]
structure Shown (D : Type) where
  connections : Str → Option (Str × D)
  virtual : Str → Option (Str × D)
  active : Str → Option (List Alerts.Alert)
  started : List LiveCommand
  plain : List (Event D)
  log : List Alerts.Event

def Managed.uncolored (m : Managed D) : Str × D := (m.name, m.detail)

variable (allow : Str → Bool)

def Server.shown (s : Server D) : Shown D where
  connections connID := if allow connID then (s.connections.lookup connID).map Managed.uncolored else none
  virtual connID := if allow connID then (s.virtual.lookup connID).map Managed.uncolored else none
  active connID := if allow connID then s.active.lookup connID else none
  started := s.started
  plain := s.told.filterMap Event.plain
  log := s.told.flatMap Event.log ++ s.pending.filter fun ev => allow ev.connID

/-- The connection an input is of; the pushes are nobody's. -/
def Input.of : Input D → Option Str
  | .connect connID _ _ => some connID
  | .disconnect connID => some connID
  | .changed connID _ => some connID
  | .addVirtual connID _ _ => some connID
  | .removeVirtual connID => some connID
  | .alerted connID _ _ => some connID
  | .recorded connID _ => some connID
  | .batch connID _ => some connID
  | .stats connID _ => some connID
  | .tree connID _ => some connID
  | .heard cmd _ => some cmd.connID
  | .frame _ _ => none
  | .notify _ => none
  | .flush _ => none

/-- Neither of a connection the tab may not see nor a push. -/
def Input.seen (input : Input D) : Bool :=
  match input with
  | .notify _ => false
  | .flush _ => false
  | input => input.of.all fun connID => connID = [] || allow connID

/-- The server as the tab sees it: what is of a connection it may not see does nothing. -/
def Shown.step [json.Recognizer] [Tables] [Filter.Compiler] (v : Shown D) : Input D → Shown D
  | .connect connID name detail =>
    { v with connections := fun other =>
        if other = connID ∧ allow connID then some (name, detail) else v.connections other }
  | .disconnect connID => { v with connections := fun other => if other = connID then none else v.connections other }
  | .changed connID detail =>
    { v with connections := fun other =>
        if other = connID then (v.connections other).map fun m => (m.1, detail) else v.connections other }
  | .addVirtual connID name detail =>
    { v with virtual := fun other =>
        if other = connID ∧ allow connID then some (name, detail) else v.virtual other }
  | .removeVirtual connID => { v with virtual := fun other => if other = connID then none else v.virtual other }
  | .alerted connID active events =>
    { v with
      active := fun other => if other = connID ∧ allow connID then some active else v.active other
      log := v.log ++ if allow connID then events.map fun ev => { ev with connID := connID } else [] }
  | .recorded _ _ => v
  | .batch connID data => { v with plain := v.plain ++ if allow connID then [.messageBatch connID data] else [] }
  | .stats connID own => { v with plain := v.plain ++ if allow connID then [.stats connID ⟨own, none⟩] else [] }
  | .tree connID data => { v with plain := v.plain ++ if allow connID then [.subjectTree connID data] else [] }
  | .frame cmd data =>
    { v with
      started := v.started ++ (watched (some allow) (frameOf cmd data)).toList
      plain := v.plain ++ ((filterReply (frameOf cmd data)).map Event.filterError).toList }
  | .heard cmd heard => { v with plain := v.plain ++ if cmd ∈ v.started then [heard.event cmd] else [] }
  | .notify _ => v
  | .flush _ => v

variable {allow} {s t : Server D} {connID : Str}

theorem seen_insert {V W : Type} (m : Map Str V) (f : V → W) (v : V) :
    (fun other => if allow other then ((m.insert connID v).lookup other).map f else none) =
      fun other => if other = connID ∧ allow connID then some (f v)
        else if allow other then (m.lookup other).map f else none := by
  funext other
  by_cases same : other = connID
  · subst same
    cases allow other <;> simp
  · simp [same, AList.lookup_insert_ne same]

theorem seen_erase {V W : Type} (m : Map Str V) (f : V → W) :
    (fun other => if allow other then ((m.erase connID).lookup other).map f else none) =
      fun other => if other = connID then none else if allow other then (m.lookup other).map f else none := by
  funext other
  by_cases same : other = connID
  · subst same
    simp
  · simp [same, AList.lookup_erase_ne same]

theorem shown_send (event : Event D) (quiet : ∀ sent ∈ event.scopedFor (some allow), sent.log = []) :
    (s.send (some allow) event).shown allow =
      { s.shown allow with
        plain := (s.shown allow).plain ++ ((event.scopedFor (some allow)).bind Event.plain).toList } := by
  unfold Server.send Server.shown
  cases delivered : event.scopedFor (some allow) with
  | none => simp
  | some sent =>
    have shown : [sent].filterMap Event.plain = sent.plain.toList := by
      cases plain : sent.plain <;> simp [plain]
    simp [shown, quiet sent delivered]

theorem log_of_plain {event shown : Event D} (plain : event.plain = some shown) : event.log = [] := by
  cases event <;> first | rfl | cases plain

theorem shown_send_scope {event shown : Event D} (plain : event.plain = some shown) (scope : event.connScope = some connID) :
    (s.send (some allow) event).shown allow =
      { s.shown allow with plain := (s.shown allow).plain ++ if allow connID then [shown] else [] } := by
  have delivered : event.scopedFor (some allow) = if allow connID then some event else none := by
    unfold Event.scopedFor
    rw [scope]
  rw [shown_send, delivered]
  · cases allow connID <;> simp [plain]
  · rw [delivered]
    rintro sent given
    split_ifs at given
    · cases given
      exact log_of_plain plain
    · cases given

theorem shown_send_all {event : Event D} (plain : event.plain = some event) (scope : event.connScope = none)
    (whole : event.scopeFor allow = none) :
    (s.send (some allow) event).shown allow = { s.shown allow with plain := (s.shown allow).plain ++ [event] } := by
  have delivered : event.scopedFor (some allow) = some event := by
    unfold Event.scopedFor
    rw [scope]
    dsimp only
    rw [whole]
    rfl
  rw [shown_send, delivered]
  · simp [plain]
  · rw [delivered]
    rintro sent given
    cases given
    exact log_of_plain plain

theorem shown_flush (active : List Alerts.Alert) :
    ({ s.send (some allow) (.alerts active s.pending) with pending := [] } : Server D).shown allow = s.shown allow := by
  ext1 <;> simp [Server.send, Server.shown, Event.scopedFor, Event.connScope, Event.scopeFor, Event.plain, Event.log]

theorem shown_notify (rt : Runtime) : (s.send (some allow) (s.connectionsOf rt)).shown allow = s.shown allow := by
  rw [shown_send]
  · simp [Server.connectionsOf, Event.scopedFor, Event.connScope, Event.scopeFor, Event.plain]
  · rintro sent delivered
    cases delivered
    rfl

variable [json.Recognizer] [Tables] [Filter.Compiler]

theorem shown_step (input : Input D) : (s.step (some allow) input).shown allow = (s.shown allow).step allow input := by
  cases input with
  | notify rt => exact shown_notify rt
  | flush rt => exact shown_flush _
  | recorded connID db => rfl
  | connect connID name detail =>
    ext1 <;> try rfl
    exact seen_insert s.connections Managed.uncolored _
  | addVirtual connID name detail =>
    ext1 <;> try rfl
    exact seen_insert s.virtual Managed.uncolored _
  | disconnect connID =>
    ext1 <;> try rfl
    exact seen_erase s.connections Managed.uncolored
  | removeVirtual connID =>
    ext1 <;> try rfl
    exact seen_erase s.virtual Managed.uncolored
  | changed connID detail =>
    unfold Server.step
    dsimp only
    cases known : s.connections.lookup connID with
    | none =>
      ext1 <;> try rfl
      funext other
      by_cases same : other = connID
      · subst same
        simp [Server.shown, Shown.step, known]
      · simp [Server.shown, Shown.step, same]
    | some m =>
      ext1 <;> try rfl
      refine (seen_insert s.connections Managed.uncolored _).trans ?_
      funext other
      by_cases same : other = connID
      · subst same
        cases seen : allow other <;> simp [Server.shown, Shown.step, known, seen, Managed.uncolored]
      · simp [Server.shown, Shown.step, same]
  | alerted connID active events =>
    ext1 <;> try rfl
    · have inserted := @seen_insert allow connID _ _ s.active id active
      simp only [Option.map_id, id_eq] at inserted
      exact inserted
    · cases seen : allow connID <;> simp [Server.step, Server.shown, Shown.step, List.filter_map, Function.comp_def, seen]
  | batch connID data => exact shown_send_scope rfl rfl
  | stats connID own => exact shown_send_scope rfl rfl
  | tree connID data => exact shown_send_scope rfl rfl
  | frame cmd data =>
    have replied : (s.replied allow (filterReply (frameOf cmd data))).shown allow =
        { s.shown allow with
          plain := (s.shown allow).plain ++ ((filterReply (frameOf cmd data)).map Event.filterError).toList } := by
      cases filterReply (frameOf cmd data) with
      | none => simp [Server.replied]
      | some error => exact shown_send_all rfl rfl rfl
    rw [step_frame]
    have watching := congrArg (fun v : Shown D =>
      { v with started := v.started ++ (watched (some allow) (frameOf cmd data)).toList }) replied
    exact watching
  | heard cmd heard =>
    unfold Server.step
    dsimp only
    by_cases running : cmd ∈ s.started
    · rw [if_pos running]
      refine (shown_send_all ?_ ?_ ?_).trans ?_
      · cases heard <;> rfl
      · cases heard <;> rfl
      · cases heard <;> rfl
      · simp [Shown.step, Server.shown, running]
    · simp [Shown.step, Server.shown, running]

omit [json.Recognizer] [Tables] [Filter.Compiler] in
theorem refused_of_hidden {input : Input D} (hidden : input.seen allow = false) (named : input.of = some connID) :
    connID ≠ [] ∧ allow connID = false := by
  cases input <;> cases named <;> simpa [Input.seen, Input.of] using hidden

/-- What is of a connection the tab may not see shows nothing. -/
theorem shown_hidden {input : Input D} (confined : Confined allow s) (hidden : input.seen allow = false) :
    (s.step (some allow) input).shown allow = s.shown allow := by
  rw [shown_step]
  have refused (connID : Str) (named : input.of = some connID) : connID ≠ [] ∧ allow connID = false :=
    refused_of_hidden hidden named
  cases input with
  | notify rt | flush rt => rfl
  | recorded connID db => rfl
  | connect connID name detail => simp [Shown.step, (refused connID rfl).2]
  | addVirtual connID name detail => simp [Shown.step, (refused connID rfl).2]
  | disconnect connID =>
    ext1 <;> try rfl
    funext other
    by_cases same : other = connID
    · simp [Shown.step, Server.shown, same, (refused connID rfl).2]
    · simp [Shown.step, same]
  | removeVirtual connID =>
    ext1 <;> try rfl
    funext other
    by_cases same : other = connID
    · simp [Shown.step, Server.shown, same, (refused connID rfl).2]
    · simp [Shown.step, same]
  | changed connID detail =>
    ext1 <;> try rfl
    funext other
    by_cases same : other = connID
    · simp [Shown.step, Server.shown, same, (refused connID rfl).2]
    · simp [Shown.step, same]
  | alerted connID active events => simp [Shown.step, (refused connID rfl).2]
  | batch connID data | stats connID data | tree connID data => simp [Shown.step, (refused connID rfl).2]
  | frame cmd data => cases hidden
  | heard cmd heard =>
    have idle : cmd ∉ s.started := by
      intro running
      obtain ⟨named, notAllowed⟩ := refused cmd.connID rfl
      rcases confined.started cmd running with unnamed | allowed
      · exact named unnamed
      · rw [notAllowed] at allowed
        cases allowed
    simp [Shown.step, Server.shown, idle]

end Shown

/-! ### What is pushed -/

section Pushed
variable {D : Type} (allow : Str → Bool)

/-- The connections a narrowed tab is told of next, colours aside. -/
def listed (s : Server D) (rt : Runtime) : List (Str × Str × D) :=
  match (s.connectionsOf rt).scopedFor (some allow) with
  | some (.connections data) => data.map fun st => (st.id, st.name, st.detail)
  | _ => []

/-- The active alerts it is told of next. -/
def alerted (s : Server D) (rt : Runtime) : List Alerts.Alert :=
  (s.activeAlerts rt).filter fun a => allow a.connID

variable {allow} {s t : Server D}

/-- The entries that may be seen, by what is shown under each key. -/
theorem entries_perm {V W : Type} {m n : Map Str V} {f : V → W}
    (same : (fun connID => if allow connID then (m.lookup connID).map f else none) =
      fun connID => if allow connID then (n.lookup connID).map f else none) :
    ((m.entries.filter fun c => allow c.1).map fun c => (c.1, f c.2)).Perm
      ((n.entries.filter fun c => allow c.1).map fun c => (c.1, f c.2)) := by
  have nodup : ∀ m : Map Str V, ((m.entries.filter fun c => allow c.1).map fun c => (c.1, f c.2)).Nodup := by
    intro m
    have keys : (m.entries.map Sigma.fst).Nodup := m.nodupKeys
    refine List.Nodup.of_map Prod.fst ?_
    rw [List.map_map]
    exact keys.sublist (List.filter_sublist.map Sigma.fst)
  have member : ∀ (m : Map Str V) (p : Str × W), p ∈ ((m.entries.filter fun c => allow c.1).map fun c => (c.1, f c.2)) ↔
      (if allow p.1 then (m.lookup p.1).map f else none) = some p.2 := by
    rintro m ⟨k, w⟩
    rw [List.mem_map]
    constructor
    · rintro ⟨⟨k', v⟩, kept, same⟩
      cases same
      obtain ⟨listed, seen⟩ := List.mem_filter.mp kept
      have found : m.lookup k' = some v := AList.mem_lookup_iff.mpr listed
      simp only at seen
      simp [seen, found]
    · intro found
      dsimp only at found
      split_ifs at found with seen
      obtain ⟨v, known, rfl⟩ := Option.map_eq_some_iff.mp found
      exact ⟨⟨k, v⟩, List.mem_filter.mpr ⟨AList.mem_lookup_iff.mp known, seen⟩, rfl⟩
  refine (List.perm_ext_iff_of_nodup (nodup m) (nodup n)).mpr fun p => ?_
  rw [member, member]
  exact iff_of_eq (congrArg (· = some p.2) (congrFun same p.1))

theorem listed_entries (rt : Runtime) :
    (listed allow s rt).Perm (((s.connections.entries.filter fun c => allow c.1).map fun c => (c.1, c.2.uncolored)) ++
      (s.virtual.entries.filter fun c => allow c.1).map fun c => (c.1, c.2.uncolored)) := by
  have one : ∀ m : Map Str (Managed D), (((rt.range (m.entries.map fun c => Server.status c.1 c.2)).filter fun st => allow st.id).map
      fun st => (st.id, st.name, st.detail)).Perm ((m.entries.filter fun c => allow c.1).map fun c => (c.1, c.2.uncolored)) := by
    intro m
    refine (((rt.range_perm _).filter _).map _).trans (List.Perm.of_eq ?_)
    rw [List.filter_map, List.map_map]
    rfl
  have split : listed allow s rt = (((rt.range (s.connections.entries.map fun c => Server.status c.1 c.2)).filter fun st => allow st.id).map
      fun st => (st.id, st.name, st.detail)) ++ (((rt.range (s.virtual.entries.map fun c => Server.status c.1 c.2)).filter
        fun st => allow st.id).map fun st => (st.id, st.name, st.detail)) := by
    rw [← List.map_append, ← List.filter_append]
    rfl
  rw [split]
  exact (one s.connections).append (one s.virtual)

theorem listed_perm (alike : s.shown allow = t.shown allow) (rt rt' : Runtime) :
    (listed allow s rt).Perm (listed allow t rt') :=
  (listed_entries rt).trans ((((entries_perm (congrArg Shown.connections alike)).append
    (entries_perm (congrArg Shown.virtual alike)))).trans (listed_entries rt').symm)

theorem alerted_entries (rt : Runtime) :
    (alerted allow s rt).Perm (((s.active.entries.filter fun c => allow c.1).map fun c => (c.1, c.2)).flatMap
      fun c => c.2.map fun a => { a with connID := c.1 }) := by
  refine ((rt.sortSlice_perm _ _).filter _).trans (List.Perm.of_eq ?_)
  induction s.active.entries with
  | nil => rfl
  | cons c entries ih =>
    rw [List.flatMap_cons, List.filter_append, ih]
    cases seen : allow c.1 with
    | true => simp [seen, List.filter_map, Function.comp_def]
    | false => simp [seen, List.filter_map, Function.comp_def]

theorem alerted_perm (alike : s.shown allow = t.shown allow) (rt rt' : Runtime) :
    (alerted allow s rt).Perm (alerted allow t rt') := by
  have same := congrArg Shown.active alike
  have entries := @entries_perm allow _ _ s.active t.active id (by simp only [Option.map_id, id_eq]; exact same)
  exact (alerted_entries rt).trans ((entries.flatMap_right _).trans (alerted_entries rt').symm)

end Pushed

section Claim
variable {D : Type} [json.Recognizer] [Tables] [Filter.Compiler]

end Claim

/-! ### A server with two connections -/

def Server.empty : Server Unit where
  connections := ∅
  virtual := ∅
  colorIdx := 0
  db := none
  active := ∅
  pending := []
  started := []
  told := []

def onlyLab (connID : Str) : Bool := connID = "lab".toList

def openLab : List (Input Unit) := [.connect "lab".toList "lab".toList (), .notify .plain]
def openBoth : List (Input Unit) := .connect "prod".toList "prod".toList () :: openLab

@[reducible] def noJson : json.Recognizer where
  value _ := none
  foldName := id

@[reducible] def noFilters : Filter.Compiler where
  compile _ := .error []

/-- A list of alerts with nothing in it. -/
def Event.bare {D : Type} : Event D → Bool
  | .alerts active events => active.isEmpty && events.isEmpty
  | _ => false

def Event.colours : Event Unit → List Str
  | .connections data => data.map fun st => st.color
  | _ => []

end NatsExplorer.Ws
