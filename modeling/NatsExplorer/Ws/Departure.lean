import NatsExplorer.Ws.Tab

/-! Whether a tab leaves something behind. Whoever unregisters it cleans up once, and the
reader may still be inside of `OnMessage`: what it makes after the clean-up stays. -/
namespace NatsExplorer.Ws
open Go Subscription Subscription.Clients

/-- `StopAll` is still ahead. -/
def Removal.stops : Removal → Bool
  | .unregister => false
  | .close present => present
  | .stopAll => true
  | .forget => false

/-- What `OnDisconnect` does under `subMu` is still ahead. -/
def Removal.forgets : Removal → Bool
  | .unregister => false
  | .close present => present
  | .stopAll => true
  | .forget => true

def Phase.Ahead (part : Removal → Bool) : Phase → Prop
  | .removing next => part next = true
  | _ => False

/-- `hub.remove` is past its first lock, if not over. -/
def Phase.Unregistered : Phase → Prop
  | .removing .unregister => False
  | .removing _ => True
  | .ended => True
  | _ => False

namespace Tab
variable {s s' : Tab} {p : Pump} {phase : Phase} {part : Removal → Bool}

/-- A part of the clean-up is done, and will not be done again. -/
def Past (s : Tab) (part : Removal → Bool) : Prop :=
  s.registered = false ∧ ∀ p, ¬ (s.phase p).Ahead part

/-- The server's own maps and its running managers know nothing of the tab. -/
structure Forgotten (s : Tab) : Prop where
  focus : s.clientFocus = none
  view : s.clientView = none
  clients : ∀ m, (s.heap m).running = true → (s.heap m).client = none

end Tab

/-- Nothing is made that the clean-up is already past. -/
def Call.InTime (s : Tab) : Call → Prop
  | .focus _ => ¬ s.Past Removal.forgets
  | .view _ => ¬ s.Past Removal.forgets
  | .setView m _ => s.Past Removal.forgets → (s.heap m).running = false
  | .start _ => ¬ s.Past Removal.stops
  | .stop _ => True

namespace Tab
variable {s s' : Tab} {p : Pump} {phase : Phase} {part : Removal → Bool}

/-- The steps the clean-up does not miss: calls in time, `subManagers` with every running
manager that has the tab when they are told to forget it, and no manager started after
that which still has it. -/
def InTime (s : Tab) : Act → Prop
  | .handle _ => ∀ c calls, s.phase .reader = .handling (c :: calls) → c.InTime s
  | .remove p => s.phase p = .removing .forget → ∀ m, (s.heap m).running = true →
      (s.heap m).client ≠ none → m ∈ s.subManagers.values
  | .manager m .start => s.Past Removal.forgets → (s.heap m).client = none
  | _ => True

/-- As long as the tab is in the hub its calls come in time. -/
theorem inTime_registered (there : s.registered = true) (rt : Runtime) : s.InTime (.handle rt) := by
  have ahead {part} : ¬ s.Past part := fun past => Bool.noConfusion (there.symm.trans past.1)
  intro c _ _
  cases c with
  | setView => exact fun past => absurd past ahead
  | stop => trivial
  | _ => exact ahead

structure Inv (s : Tab) : Prop where
  stopped : s.Past Removal.stops → s.watchers = none
  forgotten : s.Past Removal.forgets → s.Forgotten
  unregistered : ∀ p, (s.phase p).Unregistered → s.registered = false

theorem Past.before (past : (s.goto p phase).Past part)
    (ahead : (s.phase p).Ahead part → phase.Ahead part) : s.Past part := by
  refine ⟨past.1, fun p' still => ?_⟩
  have gone := past.2 p'
  by_cases same : p' = p
  · subst same
    rw [goto_self] at gone
    exact gone (ahead still)
  · rw [goto_other same] at gone
    exact gone still

theorem Forgotten.goto (forgotten : s.Forgotten) : (s.goto p phase).Forgotten where
  focus := forgotten.focus
  view := forgotten.view
  clients := forgotten.clients

theorem goto_unregistered (all : ∀ p, (s.phase p).Unregistered → s.registered = false)
    (here : phase.Unregistered → s.registered = false) (p' : Pump)
    (at_ : ((s.goto p phase).phase p').Unregistered) : s.registered = false := by
  by_cases same : p' = p
  · subst same
    rw [goto_self] at at_
    exact here at_
  · rw [goto_other same] at at_
    exact all p' at_

/-- A pump gets on, and nothing else changes. -/
theorem Inv.goto (inv : s.Inv) (stops : (s.phase p).Ahead Removal.stops → phase.Ahead Removal.stops)
    (forgets : (s.phase p).Ahead Removal.forgets → phase.Ahead Removal.forgets)
    (unregistered : phase.Unregistered → s.registered = false) : (s.goto p phase).Inv where
  stopped past := inv.stopped (past.before stops)
  forgotten past := (inv.forgotten (past.before forgets)).goto
  unregistered := goto_unregistered inv.unregistered unregistered

/-- A pump that has not come to `hub.remove`. -/
theorem Inv.turn (inv : s.Inv) {now : Phase} (at_ : s.phase p = now) (busy : ∀ next, now ≠ .removing next)
    (still : ¬ phase.Unregistered) : (s.goto p phase).Inv := by
  have none {part} : ¬ (s.phase p).Ahead part := by
    rw [at_]
    intro ahead
    cases now with
    | removing next => exact busy next rfl
    | _ => exact ahead
  exact inv.goto (fun ahead => absurd ahead none) (fun ahead => absurd ahead none) fun past => absurd past still

/-- A step of nobody's pump, or under a lock inside of `OnMessage`. -/
theorem Inv.keep (inv : s.Inv) (registered : s'.registered = s.registered) (phases : s'.phase = s.phase)
    (watchers : s.Past Removal.stops → s.watchers = none → s'.watchers = none)
    (forgotten : s.Past Removal.forgets → s.Forgotten → s'.Forgotten) : s'.Inv := by
  have past {part} (past' : s'.Past part) : s.Past part :=
    ⟨registered ▸ past'.1, phases ▸ past'.2⟩
  exact {
    stopped := fun past' => watchers (past past') (inv.stopped (past past'))
    forgotten := fun past' => forgotten (past past') (inv.forgotten (past past'))
    unregistered := fun p at_ => registered ▸ inv.unregistered p (phases ▸ at_) }

/-- One manager changes. -/
theorem Forgotten.update (forgotten : s.Forgotten) {m : Ref} {f : Manager → Manager}
    (gone : (f (s.heap m)).running = true → (f (s.heap m)).client = none) : (s.update m f).Forgotten where
  focus := forgotten.focus
  view := forgotten.view
  clients m' running := by
    by_cases same : m' = m
    · subst same
      simp only [Tab.update, Function.update_self] at running ⊢
      exact gone running
    · simp only [Tab.update, Function.update_of_ne same] at running ⊢
      exact forgotten.clients m' running

theorem Forgotten.step (forgotten : s.Forgotten) {m : Ref} {e : Event}
    (started : e = .start → (s.heap m).client = none) : (s.update m fun m => m.step e).Forgotten := by
  refine forgotten.update fun running => Manager.step_gone ?_ e
  by_cases starts : e = .start
  · exact started starts
  · exact forgotten.clients m (Manager.step_running starts running)

section Step
variable [Tables] [Filter.Compiler]

/-- A manager that is new has the tab only from the server's maps. -/
theorem Forgotten.addManager (forgotten : s.Forgotten) (connID : Str) : (s.addManager connID).Forgotten where
  focus := forgotten.focus
  view := forgotten.view
  clients m running := by
    simp only [Tab.addManager, forgotten.focus, forgotten.view] at running ⊢
    by_cases same : m = s.next
    · subst same
      rw [Function.update_self]
      rfl
    · rw [Function.update_of_ne same] at running ⊢
      exact forgotten.clients m running

theorem call_phase (s : Tab) (rt : Runtime) (c : Call) : (s.call rt c).1.phase = s.phase := by
  cases c <;> rfl

theorem Inv.call (inv : s.Inv) (rt : Runtime) {c : Call} (inTime : c.InTime s) : (s.call rt c).1.Inv := by
  cases c with
  | focus subjects => exact inv.keep rfl rfl (fun _ none => none) fun past _ => absurd past inTime
  | view view => exact inv.keep rfl rfl (fun _ none => none) fun past _ => absurd past inTime
  | setView m view =>
    refine inv.keep rfl rfl (fun _ none => none) fun past forgotten => ?_
    refine forgotten.update (f := fun m => m.setView view) fun running => ?_
    cases (inTime past).symm.trans running
  | start key => exact inv.keep rfl rfl (fun past _ => absurd past inTime) fun _ ⟨focus, view, clients⟩ => ⟨focus, view, clients⟩
  | stop key =>
    refine inv.keep rfl rfl (fun _ none => ?_) fun _ ⟨focus, view, clients⟩ => ⟨focus, view, clients⟩
    simp only [Tab.call, Tab.stop, none, Option.map_none]

omit [Tables] [Filter.Compiler] in
theorem forget_forgotten (s : Tab) (known : ∀ m, (s.heap m).running = true → (s.heap m).client ≠ none →
    m ∈ s.subManagers.values) : (s.remove .forget).1.Forgotten where
  focus := rfl
  view := rfl
  clients m running := by
    simp only [remove, each] at running ⊢
    split_ifs at running ⊢ with listed
    · rfl
    · by_contra still
      exact listed (known m running still)

omit [Tables] [Filter.Compiler] in
theorem Inv.remove (inv : s.Inv) {r : Removal} (at_ : s.phase p = .removing r)
    (known : r = .forget → ∀ m, (s.heap m).running = true → (s.heap m).client ≠ none →
      m ∈ s.subManagers.values) : ((s.remove r).1.goto p (s.remove r).2).Inv := by
  have later (past : (Phase.removing r).Unregistered) : s.registered = false :=
    inv.unregistered p (at_ ▸ past)
  cases r with
  | unregister =>
    cases there : s.registered with
    | false =>
      -- the other pump was here before, and this one only closes
      have same : { s with registered := false } = s := by rw [← there]
      rw [Tab.remove, there, same]
      refine inv.goto (fun ahead => ?_) (fun ahead => ?_) fun _ => there
      · rw [at_] at ahead
        cases ahead
      · rw [at_] at ahead
        cases ahead
    | true =>
      -- all of the clean-up is ahead of this pump
      rw [Tab.remove, there]
      exact {
        stopped := fun past => absurd (goto_self ▸ rfl) (past.2 p)
        forgotten := fun past => absurd (goto_self ▸ rfl) (past.2 p)
        unregistered := fun _ _ => rfl }
  | close present =>
    have closed : { s with closed := true }.Inv :=
      inv.keep rfl rfl (fun _ none => none) fun _ ⟨focus, view, clients⟩ => ⟨focus, view, clients⟩
    refine closed.goto (fun ahead => ?_) (fun ahead => ?_) fun _ => later trivial
    · rw [at_] at ahead
      rw [show present = true from ahead]
      rfl
    · rw [at_] at ahead
      rw [show present = true from ahead]
      rfl
  | stopAll =>
    exact {
      stopped := fun _ => rfl
      forgotten := fun past => absurd (goto_self ▸ rfl) (past.2 p)
      unregistered := goto_unregistered inv.unregistered fun _ => later trivial }
  | forget =>
    refine {
      stopped := fun past => inv.stopped (Past.before (s := s) past fun ahead => ?_)
      forgotten := fun _ => (forget_forgotten s (known rfl)).goto
      unregistered := goto_unregistered inv.unregistered fun _ => later trivial }
    rw [at_] at ahead
    cases ahead

theorem step_inv {act : Act} (inv : s.Inv) (step : Step s act s') (inTime : s.InTime act) : s'.Inv := by
  cases step with
  | receive at_ => exact inv.turn at_ (by nofun) id
  | handle at_ => exact (inv.call _ (inTime _ _ at_)).turn ((congrFun (call_phase ..) _).trans at_) (by nofun) id
  | handled at_ => exact inv.turn at_ (by nofun) id
  | readFails at_ => exact inv.turn at_ (by nofun) id
  | writeFails at_ => exact inv.turn at_ (by nofun) id
  | done at_ _ => exact inv.turn at_ (by nofun) id
  | remove at_ => exact inv.remove at_ fun forget => inTime (forget ▸ at_)
  | watchEnds =>
    refine inv.keep rfl rfl (fun _ none => ?_) fun _ ⟨focus, view, clients⟩ => ⟨focus, view, clients⟩
    simp only [Tab.watchEnds, none, Option.map_none]
  | watchElsewhere =>
    exact inv.keep rfl rfl (fun _ none => none) fun _ ⟨focus, view, clients⟩ => ⟨focus, view, clients⟩
  | addManager => exact inv.keep rfl rfl (fun _ none => none) fun _ forgotten => forgotten.addManager _
  | takeManager =>
    exact inv.keep rfl rfl (fun _ none => none) fun _ ⟨focus, view, clients⟩ => ⟨focus, view, clients⟩
  | takeManagers =>
    exact inv.keep rfl rfl (fun _ none => none) fun _ ⟨focus, view, clients⟩ => ⟨focus, view, clients⟩
  | manager =>
    refine inv.keep rfl rfl (fun _ none => none) fun past forgotten => forgotten.step fun starts => ?_
    subst starts
    exact inTime past

omit [Tables] [Filter.Compiler] in
theorem Added.inv (added : s.Added) : s.Inv where
  stopped past := Bool.noConfusion (added.registered.symm.trans past.1)
  forgotten past := Bool.noConfusion (added.registered.symm.trans past.1)
  unregistered p past := by
    rw [added.phase p] at past
    exact past.elim

omit [Tables] [Filter.Compiler] in
theorem Inv.gone (inv : s.Inv) (ended : ∀ p, s.phase p = .ended) : s.Gone := by
  have past {part} : s.Past part := by
    refine ⟨inv.unregistered .reader ?_, fun p ahead => ?_⟩
    · rw [ended]
      trivial
    · rw [ended] at ahead
      exact ahead
  have forgotten := inv.forgotten past
  exact {
    watchers := inv.stopped past
    focus := forgotten.focus
    view := forgotten.view
    clients := forgotten.clients
    hot := fun m running => Manager.process_gone (forgotten.clients m running) }

/-- A tab that went away leaves nothing behind where no step misses its clean-up. -/
theorem gone_ended {added : Tab} {acts : List Act} (new : added.Added)
    (run : Transition.Reaches (fun s act s' => Step s act s' ∧ s.InTime act) added acts s)
    (ended : ∀ p, s.phase p = .ended) : s.Gone := by
  have inv : s.Inv := run.invariant (fun inv ⟨step, inTime⟩ => step_inv inv step inTime) new.inv
  exact inv.gone ended

end Step

section Sample

/-- The first tab of a server. -/
def first : Tab where
  registered := true
  closed := false
  clientFocus := none
  clientView := none
  watchers := none
  seq := 0
  subManagers := ∅
  heap _ := .newManager
  next := 0
  phase _ := .waiting

theorem first_added : first.Added where
  registered := rfl
  phase _ := rfl
  gone := { watchers := rfl, focus := rfl, view := rfl, clients _ _ := rfl, hot _ _ _ := rfl }

def looksAt : Frame where
  cmd := some { type := "focus".toList, subject := [], subjects := [['a']], view :=
    { all := false, paths := [], filter := [], expr := [], noPreview := false } }
  target := some []
  live := some { type := "focus".toList, connID := [], bucket := [], stream := [] }

@[reducible] def noExpressions : Filter.Compiler where
  compile _ := .error "no expressions".toList

/-- A tab that looks at a subject of a running manager, and closes. -/
theorem gone_closed : ∃ s : Tab, (s.heap 0).running = true ∧ s.Gone := by
  let _ := asciiTables
  let _ := noExpressions
  have start : Transition.Reaches (fun s act s' => Step s act s' ∧ s.InTime act) first [] first := .refl _
  have run := start
    |>.next ⟨@Step.addManager _ _ _ ['c'], trivial⟩
    |>.next ⟨@Step.receive _ _ _ none looksAt rfl, trivial⟩
    |>.next ⟨@Step.handle _ _ _ .plain (.focus [['a']]) [] rfl, inTime_registered rfl _⟩
    |>.next ⟨.handled rfl, trivial⟩
    |>.next ⟨.readFails rfl, trivial⟩
    |>.next ⟨.remove (p := .reader) rfl, nofun⟩
    |>.next ⟨.remove (p := .reader) rfl, nofun⟩
    |>.next ⟨.remove (p := .reader) rfl, nofun⟩
    |>.next ⟨.remove (p := .reader) rfl, fun _ m running _ => ?_⟩
    |>.next ⟨.done rfl rfl, trivial⟩
    |>.next ⟨.remove (p := .writer) rfl, nofun⟩
    |>.next ⟨.remove (p := .writer) rfl, nofun⟩
  · exact ⟨_, rfl, gone_ended first_added run fun p => by cases p <;> rfl⟩
  · cases m with
    | zero => exact List.mem_singleton.mpr rfl
    | succ m => cases running

/-- A write fails while the reader is in `OnMessage`: the focus is set after the clean-up. -/
theorem focus_left_behind : ¬ ∀ (_ : Tables) (_ : Filter.Compiler) (added : Tab) (acts : List Act) (s : Tab),
    added.Added → Transition.Reaches Step added acts s → (∀ p, s.phase p = .ended) → s.Gone := by
  intro claim
  let _ := asciiTables
  let _ := noExpressions
  have start : Transition.Reaches Step first [] first := .refl _
  have run := start
    |>.next (@Step.receive _ _ _ none looksAt rfl)
    |>.next (.writeFails rfl)
    |>.next (.remove (p := .writer) rfl)
    |>.next (.remove (p := .writer) rfl)
    |>.next (.remove (p := .writer) rfl)
    |>.next (.remove (p := .writer) rfl)
    |>.next (@Step.handle _ _ _ .plain (.focus [['a']]) [] rfl)
    |>.next (.handled rfl)
    |>.next (.readFails rfl)
    |>.next (.remove (p := .reader) rfl)
    |>.next (.remove (p := .reader) rfl)
  have gone := claim asciiTables noExpressions _ _ _ first_added run fun p => by cases p <;> rfl
  cases gone.focus

end Sample
end Tab
end NatsExplorer.Ws
