import NatsExplorer.Subscription.Faithful

/-! The send buffer of one connected tab (`internal/ws/hub.go`): producers never
wait for it, the write pump drains it. -/
namespace NatsExplorer.Ws

def sendBuffer : Nat := 512

structure Client (F : Type) where
  send : List F

variable {F : Type}

def newClient : Client F where
  send := []

/-- Never waits: a frame that meets a full buffer is gone. -/
def sendToClient (c : Client F) (frame : F) : Client F :=
  if c.send.length < sendBuffer then { c with send := c.send ++ [frame] } else c

/-- One turn of the write pump: the frame it wrote, if there was one. -/
def writePump (c : Client F) : Client F × Option F :=
  match c.send with
  | [] => (c, none)
  | frame :: rest => ({ c with send := rest }, some frame)

theorem sendToClient_room {c : Client F} {frame : F} (room : c.send.length < sendBuffer) :
    (sendToClient c frame).send = c.send ++ [frame] := by
  rw [sendToClient, if_pos room]

theorem sendToClient_send (c : Client F) (frame : F) :
    (sendToClient c frame).send = c.send ∨ (sendToClient c frame).send = c.send ++ [frame] := by
  unfold sendToClient
  split
  · exact Or.inr rfl
  · exact Or.inl rfl

end NatsExplorer.Ws

/-! The feed of a tab behind the hub's send buffer. The manager counts a delta as
sent when it hands it over; the tab has it only once the write pump got to it,
and never when the buffer was full. -/
namespace NatsExplorer.Subscription
open Go Ws

/-- What waits in the buffer: tree updates of this connection among other frames. -/
inductive Frame (R : Type) where
  | tree (up : TreeUpdate R)
  | other

def Tab.receiveFrame {R : Type} (tab : Tab R) : Frame R → Tab R
  | .tree up => tab.receive (some up)
  | .other => tab

structure SlowFeed (R : Type) where
  manager : Manager R
  client : Client (Frame R)
  tab : Tab R

/-- What happens in the server, a frame of another kind, and the write pump. -/
inductive SlowEvent (R : Type) where
  | server (e : Event R)
  | other
  | drain

namespace SlowFeed
variable {R : Type} [Zero R] [Add R] [Tables] [Filter.Compiler]

def start : SlowFeed R where
  manager := .newManager
  client := newClient
  tab _ := none

def step (f : SlowFeed R) : SlowEvent R → SlowFeed R
  | .server e =>
    let (m, up) := f.manager.step e
    { f with
      manager := m
      client := match up with
        | some up => sendToClient f.client (.tree up)
        | none => f.client }
  | .other => { f with client := sendToClient f.client .other }
  | .drain =>
    let (client, frame) := writePump f.client
    { f with
      client := client
      tab := match frame with
        | some frame => f.tab.receiveFrame frame
        | none => f.tab }

def run (events : List (SlowEvent R)) : SlowFeed R := Transition.run step start events

/-- What the tab will have once the buffer is empty. -/
def pending (f : SlowFeed R) : Tab R := f.client.send.foldl Tab.receiveFrame f.tab

end SlowFeed

section Quiet
variable {R : Type} [Add R] [Tables] {m : Manager R}

/-- A tick that finds nothing to tell the tab: no changed node is visible, and a
changed view shows what the tab was sent with nothing changed in it. -/
structure Quiet (m : Manager R) : Prop where
  part : m.view.needFull = false
  same : m.view.dirty = false → ∀ n ∈ m.tree.dirty, m.view.visible m.tree n = false
  shown : m.view.dirty = true → ∀ s, s ∈ m.view.sent ↔ m.view.Shown m.tree s
  unchanged : m.view.dirty = true → ∀ n ∈ m.tree.dirty, (m.tree.heap n).subject ∉ m.view.sent

/-- A tick whose update, if there is one, finds room in the buffer. -/
def Room (f : SlowFeed R) : Prop :=
  f.client.send.length < sendBuffer ∨ f.manager.view.loaded = false ∨ Quiet f.manager

theorem quiet_update (rt : Runtime) (sound : Sound m) (quiet : Quiet m) :
    (m.emitTree rt).2 = none := by
  have refreshed := m.tree.refresh_spec rt
  have linked := refreshed.linked sound.linked
  cases loaded : m.view.loaded with
  | false => exact absurd ((sound.early loaded).symm.trans quiet.part) (by simp)
  | true =>
    cases change : m.view.dirty with
    | false =>
      have idle := ClientView.dirtyDelta_idle (m.tree.refresh rt).dirty fun n listed => by
        rw [ClientView.visible_refreshed refreshed]
        exact quiet.same change n ((refreshed.dirty n).mp listed)
      simp only [Manager.emitTree, ClientView.update_by_dirty rt _ _ loaded quiet.part change, idle,
        List.length_nil, ↓reduceIte]
    | true =>
      have kept := ClientView.renewed_part quiet.part
      have unchanged : ∀ n ∈ (m.tree.refresh rt).dirty,
          ((m.tree.refresh rt).heap n).subject ∉ m.view.renewed.sent := by
        intro n listed
        obtain ⟨_, _, _, heap⟩ := refreshed.heap n
        rw [kept, heap]
        exact quiet.unchanged change n ((refreshed.dirty n).mp listed)
      obtain ⟨entries, removed⟩ := ClientView.viewDelta_idle rt linked (fun s => by
        rw [kept]
        exact (quiet.shown change s).trans (ClientView.Shown.refreshed refreshed).symm) unchanged
      simp only [Manager.emitTree, ClientView.update_by_view rt _ _ loaded (Or.inr change),
        quiet.part, entries, removed, List.length_nil, Bool.not_false, and_self, ↓reduceIte]

end Quiet

section Delivery
variable {R : Type} [Zero R] [Add R] [Tables] [Filter.Compiler] {f : SlowFeed R}

/-- Every tick finds room in the buffer for what it has to say. -/
def Heard (f : SlowFeed R) (e : SlowEvent R) : Prop :=
  ∀ rt, e = .server (.tick rt) → Room f ∧ Ordered rt f.manager ∧ Upheld f.manager

theorem step_sound (e : SlowEvent R) (sound : Sound f.manager) : Sound (f.step e).manager := by
  cases e with
  | server e => exact sound.step e
  | other => exact sound
  | drain => exact sound

omit [Zero R] [Add R] [Tables] [Filter.Compiler] in
theorem receiveFrame_other (frames : List (Frame R)) (tab : Tab R) :
    (frames ++ [Frame.other]).foldl Tab.receiveFrame tab = frames.foldl Tab.receiveFrame tab := by
  rw [List.foldl_append]
  rfl

/-- Frames of other kinds and the write pump leave what is pending. -/
theorem step_pending (e : SlowEvent R) (aside : e = .other ∨ e = .drain) :
    (f.step e).pending = f.pending ∧ (f.step e).manager = f.manager := by
  rcases aside with rfl | rfl
  · refine ⟨?_, rfl⟩
    unfold SlowFeed.pending
    rcases sendToClient_send f.client .other with same | more
    · exact congrArg (List.foldl _ f.tab) same
    · exact (congrArg (List.foldl _ f.tab) more).trans (receiveFrame_other _ _)
  · refine ⟨?_, rfl⟩
    simp only [SlowFeed.pending, SlowFeed.step, writePump]
    cases waiting : f.client.send with
    | nil => simp only [waiting]
    | cons frame rest => rfl

/-- What a heard step sends reaches the buffer. -/
theorem heard_pending (e : Event R) (sound : Sound f.manager) (heard : Heard f (.server e)) :
    (f.step (.server e)).pending = f.pending.receive (f.manager.step e).2 := by
  have room : (f.manager.step e).2 = none ∨ f.client.send.length < sendBuffer := by
    cases e with
    | tick rt =>
      rcases (heard rt rfl).1 with room | unloaded | quiet
      · exact Or.inr room
      · exact Or.inl (by simp [Manager.step, Manager.emitTree, ClientView.update, unloaded])
      · exact Or.inl (quiet_update rt sound quiet)
    | forget gone =>
      refine Or.inl ?_
      simp only [Manager.step]
      split <;> rfl
    | observe => exact Or.inl rfl
    | forgetAll => exact Or.inl rfl
    | setView => exact Or.inl rfl
  unfold SlowFeed.pending SlowFeed.step
  cases up : (f.manager.step e).2 with
  | none => simp only [up]; rfl
  | some up' =>
    have enough : f.client.send.length < sendBuffer := room.resolve_left (by simp [up])
    simp only [up, sendToClient_room enough, List.foldl_append]
    rfl

theorem step_consistent (e : SlowEvent R) (consistent : Consistent f.manager f.pending)
    (heard : Heard f e) : Consistent (f.step e).manager (f.step e).pending := by
  cases e with
  | other =>
    obtain ⟨same, _⟩ := step_pending (f := f) .other (Or.inl rfl)
    exact same ▸ consistent
  | drain =>
    obtain ⟨same, _⟩ := step_pending (f := f) .drain (Or.inr rfl)
    exact same ▸ consistent
  | server e =>
    rw [heard_pending e consistent.sound heard]
    exact consistent.step e fun rt same => (heard rt (by rw [same])).2

theorem run_aside (tail : List (SlowEvent R)) (f : SlowFeed R)
    (aside : ∀ e ∈ tail, e = .other ∨ e = .drain) :
    (Transition.run SlowFeed.step f tail).pending = f.pending ∧
      (Transition.run SlowFeed.step f tail).manager = f.manager := by
  induction tail generalizing f with
  | nil => exact ⟨rfl, rfl⟩
  | cons e rest ih =>
    obtain ⟨pending, manager⟩ := step_pending (f := f) e (aside e List.mem_cons_self)
    obtain ⟨pending', manager'⟩ := ih (f.step e) fun e' member =>
      aside e' (List.mem_cons_of_mem _ member)
    exact ⟨pending'.trans pending, manager'.trans manager⟩

theorem run_sound (events : List (SlowEvent R)) : Sound (SlowFeed.run events).manager :=
  Transition.always (P := fun f : SlowFeed R => Sound f.manager)
    (fun _ e sound => step_sound e sound) start_sound

theorem slow_run_loaded (events : List (SlowEvent R)) (f : SlowFeed R)
    (loaded : f.manager.view.loaded = true ∨ ∃ view, .server (.setView view) ∈ events) :
    (Transition.run SlowFeed.step f events).manager.view.loaded = true := by
  induction events generalizing f with
  | nil => exact loaded.resolve_right (by simp)
  | cons e rest ih =>
    refine ih (f.step e) ?_
    rcases loaded with loaded | ⟨view, member⟩
    · cases e with
      | server e => exact Or.inl (step_loaded e (Or.inl loaded))
      | other => exact Or.inl loaded
      | drain => exact Or.inl loaded
    · rcases List.mem_cons.mp member with rfl | member
      · exact Or.inl (step_loaded _ (Or.inr ⟨view, rfl⟩))
      · exact Or.inr ⟨view, member⟩

/-- From a state in which the tab is to be told from scratch on, whatever was
lost before: where every tick is heard, a tab whose buffer has drained after a
tick mirrors the view. -/
theorem slow_tab_mirrors (before events tail : List (SlowEvent R)) (rt rt' : Runtime)
    (full : (SlowFeed.run before).manager.view.needFull = true)
    (loaded : ∃ view, .server (.setView view) ∈ before ++ events)
    (heard : Transition.Along SlowFeed.step Heard (SlowFeed.run before)
      (events ++ [.server (.tick rt)]))
    (aside : ∀ e ∈ tail, e = .other ∨ e = .drain)
    (drained : (SlowFeed.run (before ++ events ++ [.server (.tick rt)] ++ tail)).client.send = []) :
    (SlowFeed.run (before ++ events ++ [.server (.tick rt)] ++ tail)).tab =
      (SlowFeed.run (before ++ events ++ [.server (.tick rt)] ++ tail)).manager.picture rt' := by
  let g := SlowFeed.run (before ++ events)
  have reached : Transition.run SlowFeed.step (SlowFeed.run before) events = g :=
    Transition.run_append.symm
  obtain ⟨along, last, _⟩ := Transition.along_append.mp heard
  rw [reached] at last
  have consistent : Consistent g.manager g.pending := by
    rw [← reached]
    exact Transition.invariant (P := fun f : SlowFeed R => Consistent f.manager f.pending)
      (fun f e _ consistent heard => step_consistent e consistent heard)
      ((run_sound before).consistent full _) along
  obtain ⟨_, ordered, upheld⟩ := last rt rfl
  obtain ⟨after, mirrors⟩ := consistent.tick rt ordered upheld
  have ticked : (g.step (.server (.tick rt))).pending = g.pending.receive (g.manager.emitTree rt).2 :=
    heard_pending (.tick rt) consistent.sound last
  have final : SlowFeed.run (before ++ events ++ [.server (.tick rt)] ++ tail) =
      Transition.run SlowFeed.step (g.step (.server (.tick rt))) tail := by
    rw [SlowFeed.run, Transition.run_append, Transition.run_append]
    rfl
  obtain ⟨pending, manager⟩ := run_aside tail (g.step (.server (.tick rt))) aside
  rw [← final] at pending manager
  have emptied : (SlowFeed.run (before ++ events ++ [.server (.tick rt)] ++ tail)).pending =
      (SlowFeed.run (before ++ events ++ [.server (.tick rt)] ++ tail)).tab := by
    rw [SlowFeed.pending, drained]
    rfl
  rw [← emptied, pending, manager, ticked]
  exact (mirrors (slow_run_loaded (before ++ events) .start (Or.inr loaded))).picture
    after.sound.linked rt'

/-- Frames of other kinds fill a buffer that has room for them. -/
theorem run_others (n : Nat) (f : SlowFeed R) (room : f.client.send.length + n ≤ sendBuffer) :
    Transition.run SlowFeed.step f (List.replicate n .other) =
      { f with client := { send := f.client.send ++ List.replicate n .other } } := by
  induction n generalizing f with
  | zero => simp [Transition.run]
  | succ n ih =>
    have here : (f.step .other).client.send = f.client.send ++ [.other] :=
      sendToClient_room (by omega)
    have rest := ih (f.step .other) (by
      rw [here, List.length_append, List.length_singleton]
      omega)
    rw [here, List.append_assoc] at rest
    exact rest

/-- A full buffer swallows what a step has to say. -/
theorem full_step (e : Event R) (full : f.client.send.length = sendBuffer) :
    f.step (.server e) = { f with manager := (f.manager.step e).1 } := by
  unfold SlowFeed.step
  cases up : (f.manager.step e).2 with
  | none => simp only [up]
  | some up' => simp only [up, sendToClient, full, lt_irrefl, ↓reduceIte]

theorem run_drains (frames rest : List (Frame R)) (f : SlowFeed R)
    (waiting : f.client.send = frames ++ rest) :
    Transition.run SlowFeed.step f (List.replicate frames.length .drain) =
      { f with client := { send := rest }, tab := frames.foldl Tab.receiveFrame f.tab } := by
  induction frames generalizing f with
  | nil =>
    obtain ⟨manager, ⟨send⟩, tab⟩ := f
    cases waiting
    rfl
  | cons frame frames ih =>
    have here : f.step .drain =
        { f with client := { send := frames ++ rest }, tab := f.tab.receiveFrame frame } := by
      simp only [SlowFeed.step, writePump, waiting, List.cons_append]
    have later := ih (f.step .drain) (by rw [here])
    rw [here] at later
    exact (congrArg (fun g => Transition.run SlowFeed.step g _) here).trans later

omit [Zero R] [Add R] [Tables] [Filter.Compiler] in
theorem receive_others (n : Nat) (tab : Tab R) :
    (List.replicate n Frame.other).foldl Tab.receiveFrame tab = tab := by
  induction n with
  | zero => rfl
  | succ n ih => exact ih

theorem run_full (lost : List (Event R)) (f : SlowFeed R)
    (full : f.client.send.length = sendBuffer) :
    Transition.run SlowFeed.step f (lost.map .server) =
      { f with manager := lost.foldl (fun m e => (m.step e).1) f.manager } := by
  induction lost generalizing f with
  | nil => rfl
  | cons e rest ih =>
    have here := full_step e full
    have later := ih (f.step (.server e)) (by rw [here]; exact full)
    rw [here] at later
    exact (congrArg (fun g => Transition.run SlowFeed.step g _) here).trans later

/-- What the server has to say between a full buffer and its draining is lost. -/
theorem lost_between (lost : List (Event R)) (f : SlowFeed R) (idle : f.client.send = []) :
    Transition.run SlowFeed.step f (List.replicate sendBuffer .other ++ lost.map .server ++
      List.replicate sendBuffer .drain) =
      { f with manager := lost.foldl (fun m e => (m.step e).1) f.manager } := by
  obtain ⟨manager, ⟨send⟩, tab⟩ := f
  cases idle
  rw [Transition.run_append, Transition.run_append, run_others sendBuffer _ (by simp),
    run_full lost _ (by simp)]
  have drained := run_drains (List.replicate sendBuffer Frame.other) []
    ({ manager := lost.foldl (fun m e => (m.step e).1) manager
       client := { send := [] ++ List.replicate sendBuffer .other }
       tab := tab } : SlowFeed R) (by simp)
  rw [List.length_replicate, receive_others] at drained
  exact drained

end Delivery

section
attribute [local instance] asciiTables onlyOne

def opened : List (SlowEvent Nat) :=
  [.server (.setView (openView "")), .server (observed "a" '1' 1), .server (.tick .plain), .drain]

theorem slow_tab_mirrors_opened :
    (SlowFeed.run ([] ++ opened ++ [.server (.tick .plain)] ++ [.drain])).tab =
      (SlowFeed.run ([] ++ opened ++ [.server (.tick .plain)] ++ [.drain])).manager.picture .plain := by
  refine slow_tab_mirrors [] opened [.drain] .plain .plain rfl ⟨openView "", List.mem_cons_self⟩ ?_
    (by simp) rfl
  refine ⟨nofun, nofun, ?_, nofun, ?_, trivial⟩
  · rintro _ ⟨⟩
    exact ⟨Or.inl (by decide), fun _ part => absurd part (by decide),
      fun _ part => absurd part (by decide)⟩
  · rintro _ ⟨⟩
    exact ⟨Or.inl (by decide), fun _ _ dirty => absurd dirty (by decide),
      fun _ _ _ prg => absurd prg (by decide)⟩

/-- The update that brings `b` meets a full buffer; the tab is told of `a` later on. -/
def lostRun : List (SlowEvent Nat) :=
  opened ++ (List.replicate sendBuffer .other ++ [observed "b" '1' 1, .tick .plain].map .server ++
    List.replicate sendBuffer .drain) ++
    [.server (observed "a" '1' 2), .server (.tick .plain), .drain]

theorem slow_tab_lost : (SlowFeed.run lostRun).client.send.length = 0 ∧
    (SlowFeed.run lostRun).tab "b".toList ≠
      (SlowFeed.run lostRun).manager.picture .plain "b".toList := by
  have idle : (SlowFeed.run opened).client.send = [] := by rfl
  have after := lost_between [observed "b" '1' 1, .tick .plain] (SlowFeed.run opened) idle
  rw [SlowFeed.run] at after ⊢
  rw [lostRun, Transition.run_append, Transition.run_append, after]
  decide

end
end NatsExplorer.Subscription
