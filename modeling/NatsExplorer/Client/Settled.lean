import NatsExplorer.Client.Pushes

/-! Once nothing is under way the tab shows the connections, the active alerts and the newest events
there are, where what was read was told in order. -/
namespace NatsExplorer.Client.Pushes
variable {C R A E : Type}

theorem exists_mem_cons {p : Call C R A E → Prop} {c : Call C R A E} {rest : Multiset (Call C R A E)} :
    (∃ x ∈ c ::ₘ rest, p x) ↔ p c ∨ ∃ x ∈ rest, p x := by
  simp [Multiset.mem_cons, or_and_right, exists_or]

namespace System
variable {s : System C R A E}

/-- The events in the order they are told: those that arrived, those on their way, and the rest. -/
def Split (s : System C R A E) (before after : List E) : Prop :=
  s.events = before ++ s.sent ++ after ∧ after.length = s.untold

theorem Split.arrived {before after : List E} (split : s.Split before after) : s.arrived = before := by
  have length : s.events.length - s.untold - s.sent.length = before.length := by
    rw [split.1, ← split.2]
    simp only [List.length_append]
    omega
  unfold System.arrived
  rw [length, split.1, List.append_assoc, List.take_left]

theorem Split.waiting {before after : List E} (split : s.Split before after) : s.waiting = after := by
  have length : s.events.length - s.untold = (before ++ s.sent).length := by
    rw [split.1, ← split.2]
    simp only [List.length_append]
    omega
  unfold System.waiting
  rw [length, split.1, List.drop_left]

theorem LogShown.keep {s' : System C R A E} {before after after' : List E} (events : s'.tab.events = s.tab.events)
    (split : s.Split before after) (split' : s'.Split before after') (shown : s.LogShown) : s'.LogShown := by
  obtain ⟨kept, enough, same⟩ := shown
  rw [split.arrived] at same
  exact ⟨kept, enough, by rw [events, same, split'.arrived]⟩

/-- What the tab shows or will show is right, or something that will put it right is under way. -/
structure Inv (s : System C R A E) : Prop where
  connections : s.lastConnections = s.connections ∨ ∃ c ∈ s.calls, c.Lists s.connections
  active : s.lastActive = s.active ∨ s.Coming s.loop s.calls
  pending : s.pending ≠ [] → s.dirty = true
  split : ∃ before after, s.Split before after
  log : s.LogShown ∨ ∃ c ∈ s.calls, c.isLoad
  one : ∀ frame ∈ s.frames, frame.events.reverse = frame.events

/-- Only the calls change, and none that mattered is lost. -/
theorem Inv.calls {calls : Multiset (Call C R A E)} (inv : s.Inv)
    (lists : (∃ c ∈ s.calls, c.Lists s.connections) → ∃ c ∈ calls, c.Lists s.connections)
    (brings : (∃ c ∈ s.calls, c.Brings s.active) → ∃ c ∈ calls, c.Brings s.active)
    (loads : (∃ c ∈ s.calls, c.isLoad) → ∃ c ∈ calls, c.isLoad)
    (took : (calls.map Call.took).sum = (s.calls.map Call.took).sum) : ({ s with calls := calls } : System C R A E).Inv := by
  have untold : ({ s with calls := calls } : System C R A E).untold = s.untold := by
    unfold System.untold
    rw [took]
  obtain ⟨before, after, split⟩ := inv.split
  have split' : ({ s with calls := calls } : System C R A E).Split before after := ⟨split.1, split.2.trans untold.symm⟩
  exact {
    connections := inv.connections.imp_right lists
    active := inv.active.imp_right fun coming => coming.imp_right fun coming => coming.imp_right brings
    pending := inv.pending
    split := ⟨before, after, split'⟩
    log := inv.log.imp (fun shown => LogShown.keep (s := s) rfl split split' shown) loads
    one := inv.one }

/-- One call goes on to another. -/
theorem Inv.turn {c c' : Call C R A E} {rest : Multiset (Call C R A E)} (inv : s.Inv) (calls : s.calls = c ::ₘ rest)
    (lists : c.Lists s.connections → c'.Lists s.connections) (brings : c.Brings s.active → c'.Brings s.active)
    (loads : c.isLoad → c'.isLoad) (took : c'.took = c.took) :
    ({ s with calls := c' ::ₘ rest } : System C R A E).Inv := by
  refine inv.calls ?_ ?_ ?_ ?_
  · rw [calls, exists_mem_cons, exists_mem_cons]
    exact Or.imp_left lists
  · rw [calls, exists_mem_cons, exists_mem_cons]
    exact Or.imp_left brings
  · rw [calls, exists_mem_cons, exists_mem_cons]
    exact Or.imp_left loads
  · rw [calls, Multiset.map_cons, Multiset.map_cons, Multiset.sum_cons, Multiset.sum_cons, took]

/-- A call that nothing depends on ends. -/
theorem Inv.ends {c : Call C R A E} {rest : Multiset (Call C R A E)} (inv : s.Inv) (calls : s.calls = c ::ₘ rest)
    (lists : ¬ c.Lists s.connections) (brings : ¬ c.Brings s.active) (loads : ¬ c.isLoad) (took : c.took = 0) :
    ({ s with calls := rest } : System C R A E).Inv := by
  refine inv.calls ?_ ?_ ?_ ?_
  · rw [calls, exists_mem_cons]
    exact fun some => some.resolve_left lists
  · rw [calls, exists_mem_cons]
    exact fun some => some.resolve_left brings
  · rw [calls, exists_mem_cons]
    exact fun some => some.resolve_left loads
  · rw [calls, Multiset.map_cons, Multiset.sum_cons, took, Nat.zero_add]

/-- Another call begins. -/
theorem Inv.begins (inv : s.Inv) (c : Call C R A E) (took : c.took = 0) :
    ({ s with calls := c ::ₘ s.calls } : System C R A E).Inv := by
  refine inv.calls ?_ ?_ ?_ ?_
  · rw [exists_mem_cons]
    exact Or.inr
  · rw [exists_mem_cons]
    exact Or.inr
  · rw [exists_mem_cons]
    exact Or.inr
  · rw [Multiset.map_cons, Multiset.sum_cons, took, Nat.zero_add]

/-- A frame with what was told is sent. -/
theorem Inv.tells {s' : System C R A E} {told : A} {pending : List E} (inv : s.Inv)
    (coming : Prop) (order : s.TellsInOrder told pending coming) (still : coming → s'.Coming s'.loop s'.calls)
    (frames : s'.frames = s.frames ++ [.alerts told pending]) (tab : s'.tab = s.tab)
    (connections : s'.connections = s.connections) (active : s'.active = s.active) (events : s'.events = s.events)
    (pendings : s'.pending = s.pending) (dirty : s'.dirty = s.dirty)
    (lists : (∃ c ∈ s.calls, c.Lists s.connections) → ∃ c ∈ s'.calls, c.Lists s.connections)
    (loads : (∃ c ∈ s.calls, c.isLoad) → ∃ c ∈ s'.calls, c.isLoad)
    (untold : s.untold = pending.length + s'.untold) : s'.Inv := by
  obtain ⟨before, after, split⟩ := inv.split
  have next := order.next
  rw [split.waiting] at next
  have parts : after = pending ++ after.drop pending.length := by
    conv_lhs => rw [← List.take_append_drop pending.length after, ← next]
  have sent : s'.sent = s.sent ++ pending := by
    unfold System.sent
    rw [frames, List.flatMap_append]
    simp [Frame.events]
  have split' : s'.Split before (after.drop pending.length) := by
    refine ⟨?_, ?_⟩
    · rw [events, sent, split.1]
      conv_lhs => rw [parts]
      simp only [List.append_assoc]
    · rw [List.length_drop, split.2, untold]
      omega
  exact {
    connections := by
      rw [connections]
      refine inv.connections.imp (fun same => ?_) lists
      unfold System.lastConnections at same ⊢
      rw [frames, tab, List.foldl_append, same]
      rfl
    active := by
      have last : s'.lastActive = told := by
        unfold System.lastActive
        rw [frames, List.foldl_append]
        rfl
      rw [last, active]
      exact order.active.imp_right still
    pending := by
      rw [pendings, dirty]
      exact inv.pending
    split := ⟨before, _, split'⟩
    log := inv.log.imp (fun shown => LogShown.keep (s := s) (congrArg Tab.events tab) split split' shown) loads
    one := by
      rw [frames]
      intro frame member
      rcases List.mem_append.mp member with old | new
      · exact inv.one frame old
      · rw [List.mem_singleton.mp new]
        exact order.one }

/-- A frame arrives: what the tab will show stays, and a log that was right goes on. -/
theorem Inv.receive {frame : Frame C A E} {frames : List (Frame C A E)} (inv : s.Inv) (arrives : s.frames = frame :: frames) :
    ({ s with frames := frames, tab := s.tab.receive frame } : System C R A E).Inv := by
  obtain ⟨before, after, split⟩ := inv.split
  have split' : ({ s with frames := frames, tab := s.tab.receive frame } : System C R A E).Split
      (before ++ frame.events) after := by
    refine ⟨?_, split.2⟩
    rw [split.1]
    unfold System.sent
    rw [arrives, List.flatMap_cons]
    simp only [List.append_assoc]
  have connections : ({ s with frames := frames, tab := s.tab.receive frame } : System C R A E).lastConnections =
      s.lastConnections := by
    unfold System.lastConnections
    rw [arrives, List.foldl_cons]
    cases frame <;> rfl
  have active : ({ s with frames := frames, tab := s.tab.receive frame } : System C R A E).lastActive = s.lastActive := by
    unfold System.lastActive
    rw [arrives, List.foldl_cons]
    cases frame <;> rfl
  refine ⟨connections ▸ inv.connections, active ▸ inv.active, inv.pending, ⟨_, after, split'⟩, ?_, ?_⟩
  · refine inv.log.imp_left fun shown => ?_
    obtain ⟨kept, enough, same⟩ := shown
    rw [split.arrived] at same
    have once : frame.events.reverse = frame.events := inv.one frame (arrives ▸ List.mem_cons_self)
    cases frame with
    | connections data =>
      refine ⟨kept, enough, ?_⟩
      rw [split'.arrived]
      change s.tab.events = (before ++ []).reverse.take kept
      rw [List.append_nil, same]
    | alerts told events =>
      by_cases none_told : events = []
      · subst none_told
        refine ⟨kept, enough, ?_⟩
        rw [split'.arrived]
        change s.tab.events = (before ++ []).reverse.take kept
        rw [List.append_nil, same]
      · have newest : (events ++ before.reverse.take kept).take logLimit =
            (before ++ events).reverse.take (min logLimit (events.length + kept)) := by
          change events.reverse = events at once
          rw [List.reverse_append, once, ← List.take_take, List.take_length_add_append]
        refine ⟨min logLimit (events.length + kept), ?_, ?_⟩
        · have room : alertsEventLimit ≤ logLimit := by decide
          omega
        · rw [split'.arrived]
          simp only [Tab.receive, Tab.apply, if_neg none_told, same, newest]
          rfl
  · exact fun later member => inv.one later (arrives ▸ List.mem_cons_of_mem _ member)

theorem step_inv {s' : System C R A E} {act : Act C R A E} (inv : s.Inv) (step : Step s act s') (order : s.InOrder act) :
    s'.Inv := by
  cases step with
  | connections data =>
    have kept := inv.begins .notify rfl
    exact ⟨Or.inr ⟨.notify, Multiset.mem_cons_self _ _, trivial⟩, kept.active, kept.pending, kept.split, kept.log, kept.one⟩
  | rules rules => exact ⟨inv.connections, inv.active, inv.pending, inv.split, inv.log, inv.one⟩
  | active told ev =>
    have kept := inv.begins (.record ev) rfl
    exact ⟨kept.connections, Or.inr (Or.inr (Or.inr ⟨.record ev, Multiset.mem_cons_self _ _, trivial⟩)), kept.pending,
      kept.split, kept.log, kept.one⟩
  | read calls => exact inv.turn calls (fun _ => rfl) nofun nofun rfl
  | @broadcast rest data calls =>
    obtain ⟨before, after, split⟩ := inv.split
    have untold : (rest.map Call.took).sum = (s.calls.map Call.took).sum := by
      rw [calls, Multiset.map_cons, Multiset.sum_cons]
      exact (Nat.zero_add _).symm
    have split' : ({ s with frames := s.frames ++ [.connections data], calls := rest } : System C R A E).Split
        before after := by
      refine ⟨split.1.trans ?_, split.2.trans ?_⟩
      · change before ++ s.sent ++ after = before ++ (s.frames ++ [Frame.connections data]).flatMap Frame.events ++ after
        rw [List.flatMap_append]
        change _ = before ++ (s.sent ++ []) ++ after
        rw [List.append_nil]
      · unfold System.untold
        rw [untold]
    have active := inv.active
    have log := inv.log
    unfold System.Coming at active
    rw [calls, exists_mem_cons] at active log
    exact {
      connections := by
        refine order.imp_left fun same => ?_
        unfold System.lastConnections
        rw [List.foldl_append]
        exact same
      active := by
        refine active.imp (fun same => ?_) fun some => some.imp_right fun some => some.imp_right fun some => some.resolve_left nofun
        unfold System.lastActive at same ⊢
        rw [List.foldl_append]
        exact same
      pending := inv.pending
      split := ⟨before, after, split'⟩
      log := log.imp (fun shown => LogShown.keep (s := s) rfl split split' shown) fun some => some.resolve_left nofun
      one := by
        intro frame member
        rcases List.mem_append.mp member with old | new
        · exact inv.one frame old
        · rw [List.mem_singleton.mp new]
          rfl }
  | @record rest ev calls =>
    obtain ⟨before, after, split⟩ := inv.split
    have split' : ({ s with events := s.events ++ ev.toList, pending := s.pending ++ ev.toList, dirty := true, calls := rest } :
        System C R A E).Split before (after ++ ev.toList) := by
      refine ⟨?_, ?_⟩
      · change s.events ++ ev.toList = before ++ s.sent ++ (after ++ ev.toList)
        rw [split.1]
        simp only [List.append_assoc]
      · have recorded : Call.took (.record ev : Call C R A E) = 0 := rfl
        rw [List.length_append, split.2]
        unfold System.untold
        rw [calls, Multiset.map_cons, Multiset.sum_cons, recorded, List.length_append]
        dsimp only
        omega
    have lists := inv.connections
    have log := inv.log
    rw [calls, exists_mem_cons] at lists log
    exact {
      connections := lists.imp_right fun some => some.resolve_left nofun
      active := Or.inr (Or.inl rfl)
      pending := fun _ => rfl
      split := ⟨before, _, split'⟩
      log := log.imp (fun shown => LogShown.keep (s := s) rfl split split' shown) fun some => some.resolve_left nofun
      one := inv.one }
  | loopTake dirty idle =>
    obtain ⟨before, after, split⟩ := inv.split
    have split' : ({ s with dirty := false, loop := some (s.active, s.pending), pending := [] } : System C R A E).Split
        before after := by
      refine ⟨split.1, split.2.trans ?_⟩
      unfold System.untold
      rw [idle]
      simp
    exact {
      connections := inv.connections
      active := Or.inr (Or.inr (Or.inl ⟨s.pending, rfl⟩))
      pending := fun some => absurd rfl some
      split := ⟨before, after, split'⟩
      log := inv.log.imp_left fun shown => LogShown.keep (s := s) rfl split split' shown
      one := inv.one }
  | loopTell took =>
    refine inv.tells _ order (fun coming => coming) rfl rfl rfl rfl rfl rfl rfl id id ?_
    unfold System.untold
    rw [took]
    dsimp only [Option.elim]
    omega
  | call ack =>
    refine inv.begins _ ?_
    cases ack <;> rfl
  | acked told calls =>
    have kept := @Inv.turn _ _ _ _ _ _ (.flush true) _ inv calls nofun nofun nofun rfl
    exact ⟨kept.connections, Or.inr (Or.inl rfl), fun _ => rfl, kept.split, kept.log, kept.one⟩
  | ackFails calls => exact inv.ends calls nofun nofun nofun rfl
  | @take rest ack calls =>
    obtain ⟨before, after, split⟩ := inv.split
    have split' : ({ s with pending := [], calls := .onChange s.active s.pending ack ::ₘ rest } : System C R A E).Split
        before after := by
      refine ⟨split.1, split.2.trans ?_⟩
      unfold System.untold
      rw [calls, Multiset.map_cons, Multiset.map_cons, Multiset.sum_cons, Multiset.sum_cons]
      simp only [Call.took, List.length_nil]
      omega
    have lists := inv.connections
    have active := inv.active
    have log := inv.log
    unfold System.Coming at active
    rw [calls, exists_mem_cons] at lists active log
    exact {
      connections := lists.imp_right fun some => exists_mem_cons.mpr (some.imp_left nofun)
      active := active.imp_right fun some => some.imp_right fun some => some.imp_right fun some =>
        exists_mem_cons.mpr (some.imp_left nofun)
      pending := fun some => absurd rfl some
      split := ⟨before, after, split'⟩
      log := log.imp (fun shown => LogShown.keep (s := s) rfl split split' shown) fun some => exists_mem_cons.mpr (some.imp_left nofun)
      one := inv.one }
  | @tell rest told pending ack calls =>
    have more : ∀ {p : Call C R A E → Prop}, (∃ c ∈ rest, p c) → ∃ c ∈ (if ack then .list ::ₘ rest else rest), p c := by
      rintro p ⟨c, member, holds⟩
      split_ifs
      · exact ⟨c, Multiset.mem_cons_of_mem member, holds⟩
      · exact ⟨c, member, holds⟩
    refine inv.tells _ order ?_ rfl rfl rfl rfl rfl rfl rfl ?_ ?_ ?_
    · exact fun coming => coming.imp_right fun coming => coming.imp_right more
    · rw [calls, exists_mem_cons]
      exact fun some => more (some.resolve_left nofun)
    · rw [calls, exists_mem_cons]
      exact fun some => more (some.resolve_left nofun)
    · have took : ((if ack then .list ::ₘ rest else rest).map Call.took).sum = (rest.map Call.took).sum := by
        split_ifs
        · rw [Multiset.map_cons, Multiset.sum_cons]
          exact Nat.zero_add _
        · rfl
      have length : Call.took (.onChange told pending ack : Call C R A E) = pending.length := rfl
      unfold System.untold
      rw [calls, Multiset.map_cons, Multiset.sum_cons, length]
      dsimp only
      rw [took]
      omega
  | list calls => exact inv.turn calls nofun nofun nofun rfl
  | answered calls =>
    have kept := inv.ends calls nofun nofun nofun rfl
    exact ⟨kept.connections, order, kept.pending, kept.split, kept.log, kept.one⟩
  | load => exact inv.begins _ rfl
  | @loadRules rest active events calls =>
    refine inv.turn calls nofun (fun brings => ?_) (fun _ => trivial) rfl
    cases active <;> exact brings
  | loadActive calls => exact inv.turn calls nofun (fun _ => rfl) (fun _ => trivial) rfl
  | @loadEvents rest rules active calls =>
    refine inv.turn calls nofun (fun brings => ?_) (fun _ => trivial) rfl
    cases active <;> exact brings
  | @loaded rest rules told events calls =>
    obtain ⟨before, after, split⟩ := inv.split
    have untold : (rest.map Call.took).sum = (s.calls.map Call.took).sum := by
      rw [calls, Multiset.map_cons, Multiset.sum_cons]
      exact (Nat.zero_add _).symm
    have split' : ({ s with
        tab := { s.tab with rules := rules, active := told, events := events }
        calls := rest } : System C R A E).Split before after := by
      refine ⟨split.1, split.2.trans ?_⟩
      unfold System.untold
      rw [untold]
    have lists := inv.connections
    rw [calls, exists_mem_cons] at lists
    exact {
      connections := lists.imp_right fun some => some.resolve_left nofun
      active := order.1
      pending := inv.pending
      split := ⟨before, after, split'⟩
      log := Or.inl ⟨alertsEventLimit, le_refl _, by rw [split'.arrived, ← split.arrived]; exact order.2⟩
      one := inv.one }
  | @loadFails rest rules told events calls =>
    obtain ⟨before, after, split⟩ := inv.split
    have untold : (rest.map Call.took).sum = (s.calls.map Call.took).sum := by
      rw [calls, Multiset.map_cons, Multiset.sum_cons]
      exact (Nat.zero_add _).symm
    have split' : ({ s with calls := rest } : System C R A E).Split before after := by
      refine ⟨split.1, split.2.trans ?_⟩
      unfold System.untold
      rw [untold]
    have lists := inv.connections
    rw [calls, exists_mem_cons] at lists
    exact {
      connections := lists.imp_right fun some => some.resolve_left nofun
      active := order.1
      pending := inv.pending
      split := ⟨before, after, split'⟩
      log := order.2.imp_left fun shown => LogShown.keep (s := s) rfl split split' shown
      one := inv.one }
  | receive arrives => exact inv.receive arrives

/-- A tab just opened, or one that shows what there is, before anything of it is told anew. -/
structure Opened (s : System C R A E) : Prop where
  connections : s.tab.connections = s.connections ∨ .notify ∈ s.calls
  alerts : s.tab.active = s.active ∧ (∃ kept, alertsEventLimit ≤ kept ∧ s.tab.events = s.events.reverse.take kept) ∨
    .load none none none ∈ s.calls
  calls : ∀ c ∈ s.calls, c = .notify ∨ c = .load none none none
  pending : s.pending = []
  loop : s.loop = none
  frames : s.frames = []

theorem Opened.inv (opened : s.Opened) : s.Inv := by
  have none_taken : (s.calls.map Call.took).sum = 0 := by
    refine Multiset.sum_eq_zero fun n listed => ?_
    obtain ⟨c, member, rfl⟩ := Multiset.mem_map.mp listed
    rcases opened.calls c member with rfl | rfl <;> rfl
  have untold : s.untold = 0 := by
    unfold System.untold
    rw [opened.pending, opened.loop, none_taken]
    rfl
  have split : s.Split s.events [] := by
    refine ⟨?_, untold.symm⟩
    unfold System.sent
    rw [opened.frames]
    simp
  exact {
    connections := by
      refine opened.connections.imp (fun same => ?_) fun waiting => ⟨.notify, waiting, trivial⟩
      unfold System.lastConnections
      rw [opened.frames]
      exact same
    active := by
      refine opened.alerts.imp (fun same => ?_) fun loading => Or.inr (Or.inr ⟨.load none none none, loading, trivial⟩)
      unfold System.lastActive
      rw [opened.frames]
      exact same.1
    pending := fun some => absurd opened.pending some
    split := ⟨_, _, split⟩
    log := by
      refine opened.alerts.imp (fun same => ?_) fun loading => ⟨.load none none none, loading, trivial⟩
      obtain ⟨kept, enough, newest⟩ := same.2
      exact ⟨kept, enough, by rw [split.arrived]; exact newest⟩
    one := by
      rw [opened.frames]
      exact nofun }

theorem Inv.shown (inv : s.Inv) (quiet : s.Quiet) : s.Shown := by
  have idle : ∀ {p : Call C R A E → Prop}, ¬ ∃ c ∈ s.calls, p c := by
    rw [quiet.calls]
    rintro p ⟨c, member, _⟩
    exact absurd member (Multiset.notMem_zero c)
  have nothing : s.pending = [] := by
    by_contra some
    exact absurd (inv.pending some) (by simp [quiet.dirty])
  obtain ⟨before, after, split⟩ := inv.split
  have all : s.events = before := by
    have untold : s.untold = 0 := by
      unfold System.untold
      rw [nothing, quiet.loop, quiet.calls]
      rfl
    have none_left : after = [] := List.eq_nil_of_length_eq_zero (split.2.trans untold)
    have sent : s.sent = [] := by
      unfold System.sent
      rw [quiet.frames]
      rfl
    rw [split.1, sent, none_left]
    simp
  obtain ⟨kept, enough, log⟩ := inv.log.resolve_right idle
  rw [split.arrived, ← all] at log
  exact {
    connections := by
      have last := inv.connections.resolve_right idle
      unfold System.lastConnections at last
      rwa [quiet.frames] at last
    active := by
      have settled : ¬ s.Coming s.loop s.calls := by
        rintro (dirty | ⟨_, told⟩ | some)
        · rw [quiet.dirty] at dirty
          cases dirty
        · rw [quiet.loop] at told
          cases told
        · exact idle some
      have last := inv.active.resolve_right settled
      unfold System.lastActive at last
      rwa [quiet.frames] at last
    newest := by rw [log, List.take_take, Nat.min_eq_left enough]
    events := log ▸ List.take_prefix kept _ }

/-- Nothing happened yet, and the tab shows it. -/
def fresh : System Nat Unit Nat Nat where
  connections := 0
  rules := ()
  active := 0
  events := []
  pending := []
  dirty := false
  loop := none
  calls := 0
  frames := []
  tab := ⟨0, (), 0, []⟩

theorem fresh_opened : fresh.Opened where
  connections := Or.inl rfl
  alerts := Or.inl ⟨rfl, alertsEventLimit, le_refl _, rfl⟩
  calls _ member := absurd member (Multiset.notMem_zero _)
  pending := rfl
  loop := rfl
  frames := rfl

end System
end NatsExplorer.Client.Pushes
