import NatsExplorer.Library.Transition
import NatsExplorer.Subscription.Update

/-! One tab's feed over whole runs: messages are observed, subjects forgotten,
views set, and ticks (`emitTree`) send the tab what changed. -/
namespace NatsExplorer.Subscription
open Go

/-- The part of a manager one tab's feed depends on. -/
structure Manager (R : Type) where
  tree : Tree R
  view : ClientView

inductive Event (R : Type) where
  | observe (subject : Str) (count : Nat) (rate : R) (last : Option Record)
  | forget (gone : List Str)
  | forgetAll
  | setView (view : View)
  | tick (rt : Runtime)

namespace Manager
variable {R : Type} [Zero R] [Add R] [Tables] [Filter.Compiler]

def newManager : Manager R where
  tree := .newTree
  view := .newClientView

omit [Filter.Compiler] in
/-- Refreshes the aggregates and sends the tab the part of the change it can see. -/
def emitTree (rt : Runtime) (m : Manager R) : Manager R × Option (TreeUpdate R) :=
  let tree := m.tree.refresh rt
  let (view, up) := m.view.update rt tree tree.dirty
  ({ tree := tree.clearDirty, view := view }, up)

def step (m : Manager R) : Event R → Manager R × Option (TreeUpdate R)
  | .observe subject count rate last =>
    ({ m with tree := m.tree.observe subject count rate last }, none)
  | .forget gone =>
    if gone.length = 0 then (m, none)
    else ({ tree := gone.foldl Tree.remove m.tree, view := { m.view with dirty := true } }, none)
  | .forgetAll => ({ tree := .newTree, view := { m.view with needFull := true } }, none)
  | .setView view => ({ m with view := m.view.set view }, none)
  | .tick rt => m.emitTree rt

end Manager

/-- A manager and the browser tab that folds what it is sent. -/
structure Feed (R : Type) where
  manager : Manager R
  tab : Tab R

namespace Feed
variable {R : Type} [Zero R] [Add R] [Tables] [Filter.Compiler]

def start : Feed R where
  manager := .newManager
  tab _ := none

def step (f : Feed R) (e : Event R) : Feed R :=
  let (m, up) := f.manager.step e
  { manager := m, tab := f.tab.receive up }

def run (events : List (Event R)) : Feed R := Transition.run step start events

end Feed

/-- What a tab is to have: `{ s -> entryOf(tree.nodes[s]) | s in collect(tree) }`. -/
def Manager.picture {R : Type} [Tables] (rt : Runtime) (m : Manager R) : Tab R := fun s =>
  if s ∈ m.view.collect rt m.tree then
    (m.tree.nodes.lookup s).map fun n => entryOf (m.tree.heap n) !m.view.noPreview
  else none

section Invariant
variable {R : Type} [Tables]

/-- Whatever happens: a view is not loaded before it is set. -/
structure Sound (m : Manager R) : Prop where
  linked : m.tree.Linked
  marked : m.tree.Marked
  early : m.view.loaded = false → m.view.needFull = true

/-- What a tab has between two steps. -/
structure Consistent (m : Manager R) (tab : Tab R) : Prop where
  sound : Sound m
  synced : m.view.needFull = false → m.view.Synced m.tree tab
  settled : m.view.needFull = false → m.view.dirty = false → m.view.Settled m.tree

/-- A tick that recomputes a changed view puts the removed nodes of a subject
before the node that has it now. -/
def Ordered (rt : Runtime) (m : Manager R) : Prop :=
  m.view.loaded = true → m.view.needFull = false → m.view.dirty = true →
    m.view.LastWord m.tree (m.tree.deepestFirst rt)

/-- A tick under an unchanged view finds the expression satisfied by what the
tab already has. -/
def Upheld (m : Manager R) : Prop :=
  m.view.loaded = true → m.view.needFull = false → m.view.dirty = false → m.view.Upheld m.tree

end Invariant

section Settling
variable {R : Type} [Tables] {t t' : Tree R} {v : ClientView} {tab : Tab R}

/-- Without an expression a node stands for itself by its subject alone. -/
theorem ClientView.Own.by_subject {s : Str} {r : Ref} (prg : v.prg = none)
    (same : (t'.heap r).subject = (t.heap r).subject) (own : v.Own t s r) : v.Own t' s r := by
  unfold ClientView.Own ClientView.matchesNode at own ⊢
  rwa [prg, same] at *

theorem ClientView.Synced.shrunk (synced : v.Synced t tab) (shrunk : t.Shrunk t') : v.Synced t' tab where
  domain := synced.domain
  current sent live clean := by
    obtain ⟨old, same⟩ := shrunk.clean live clean
    rw [same] at clean ⊢
    exact synced.current sent old clean

theorem ClientView.Settled.grown (settled : v.Settled t) (linked : t.Linked) (linked' : t'.Linked)
    (grew : t.Grew t') : v.Settled t' := by
  refine ⟨fun {s} sent => ?_, fun {s r} live own => ?_, settled.closed, fun {r} listed => ?_⟩
  · obtain ⟨d, r, live, below, why⟩ := settled.shown sent
    have live' := grew.keep live
    refine ⟨d, r, live', below, ?_⟩
    cases prg : v.prg with
    | none =>
      have own : v.Own t d r := why.resolve_right (by simp [prg])
      exact Or.inl (own.by_subject prg ((linked'.subject live').trans (linked.subject live).symm))
    | some prg' =>
      cases flag : (t'.heap r).dirty with
      | true => exact Or.inr ⟨rfl, rfl⟩
      | false =>
        obtain ⟨_, same⟩ := grew.clean live' flag
        rw [same] at flag
        have own : v.Own t d r := why.resolve_right (by simp [flag])
        unfold ClientView.Own at own ⊢
        exact Or.inl (same ▸ own)
  · cases flag : (t'.heap r).dirty with
    | true => exact Or.inr rfl
    | false =>
      obtain ⟨old, same⟩ := grew.clean live flag
      unfold ClientView.Own at own
      rw [same] at own flag
      exact Or.inl ((settled.own old own).resolve_right (by simp [flag]))
  · rcases grew.listedFrom listed with listed | live
    · obtain ⟨s, live⟩ := settled.listed listed
      exact ⟨s, grew.keep live⟩
    · exact live

theorem ClientView.Own.refreshed {s : Str} {r : Ref} (refreshed : t.Refreshed t') :
    v.Own t' s r ↔ v.Own t s r := by
  obtain ⟨_, _, _, heap⟩ := refreshed.heap r
  unfold ClientView.Own
  rw [heap]
  rfl

theorem ClientView.Shown.refreshed {s : Str} (refreshed : t.Refreshed t') :
    v.Shown t' s ↔ v.Shown t s := by
  simp only [ClientView.Shown, refreshed.live, ClientView.Own.refreshed refreshed]

theorem ClientView.visible_refreshed (refreshed : t.Refreshed t') (n : Ref) :
    v.visible t' n = v.visible t n := by
  have above : ∀ fuel p, v.expandedAbove t' fuel p = v.expandedAbove t fuel p := by
    intro fuel
    induction fuel with
    | zero => exact fun p => by cases p <;> rfl
    | succ fuel ih =>
      intro p
      cases p with
      | none => rfl
      | some p =>
        obtain ⟨_, _, _, heap⟩ := refreshed.heap p
        simp only [ClientView.expandedAbove, heap, ih]
  obtain ⟨_, _, _, heap⟩ := refreshed.heap n
  simp only [ClientView.visible, ClientView.visibleByExpansion, heap, above]
  rfl

theorem ClientView.Own.cleared {s : Str} {r : Ref} (cleared : t.Cleared t') :
    v.Own t' s r ↔ v.Own t s r := by
  unfold ClientView.Own
  rw [cleared.heap]
  rfl

theorem ClientView.Shown.cleared {s : Str} (cleared : t.Cleared t') :
    v.Shown t' s ↔ v.Shown t s := by
  simp only [ClientView.Shown, cleared.live, ClientView.Own.cleared cleared]

theorem ClientView.Mirrors.cleared (cleared : t.Cleared t') (mirrors : v.Mirrors t tab) :
    v.Mirrors t' tab := by
  refine fun s => ⟨fun r live shown => ?_, fun hidden => ?_⟩
  · rw [cleared.heap]
    exact (mirrors s).1 r (cleared.live.mp live) ((ClientView.Shown.cleared cleared).mp shown)
  · exact (mirrors s).2 fun shown => hidden ((ClientView.Shown.cleared cleared).mpr shown)

theorem ClientView.Upheld.refreshed (refreshed : t.Refreshed t') (upheld : v.Upheld t) :
    v.Upheld t' := by
  intro prg r listed sent
  have before := upheld prg r ((refreshed.dirty r).mp listed)
  obtain ⟨_, _, _, heap⟩ := refreshed.heap r
  rw [heap] at sent ⊢
  exact before sent

theorem ClientView.LastWord.refreshed {order : List Ref} (refreshed : t.Refreshed t')
    (last : v.LastWord t order) : v.LastWord t' order := by
  refine last.imp fun {a b} word live sent shown => ?_
  obtain ⟨_, _, _, heap⟩ := refreshed.heap b
  rw [heap] at live sent shown
  exact word (refreshed.live.mp live) sent ((ClientView.Shown.refreshed refreshed).mp shown)

/-- A tab that mirrors what was just sent is up to date once the flags are gone. -/
theorem ClientView.Mirrors.synced (mirrors : v.Mirrors t tab) (linked : t.Linked)
    (sent : ∀ s, s ∈ v.sent ↔ v.Shown t s) : v.Synced t tab where
  domain s := by
    rw [sent]
    by_cases shown : v.Shown t s
    · obtain ⟨r, live⟩ := shown.live linked
      simp only [(mirrors s).1 r live shown, Option.isSome_some, shown]
    · simp only [(mirrors s).2 shown, Option.isSome_none, shown, Bool.false_eq_true]
  current member live _ := (mirrors _).1 _ live ((sent _).mp member)

theorem ClientView.settled_of_sent (sent : ∀ s, s ∈ v.sent ↔ v.Shown t s) (none : t.dirty = []) :
    v.Settled t where
  shown {s} member := by
    obtain ⟨d, r, live, below, own⟩ := (sent s).mp member
    exact ⟨d, r, live, below, Or.inl own⟩
  own {s r} live own := Or.inl ((sent s).mpr ⟨s, r, live, .refl s, own⟩)
  closed {s p} member under := (sent p).mpr (((sent s).mp member).above under)
  listed member := by
    rw [none] at member
    cases member

/-- Where the flags are gone and the sent subjects are those shown, the tab is
the picture `collect` gives. -/
theorem ClientView.Mirrors.picture {m : Manager R} (mirrors : m.view.Mirrors m.tree tab)
    (linked : m.tree.Linked) (rt : Runtime) : tab = m.picture rt := by
  funext s
  unfold Manager.picture
  split
  · rename_i here
    have shown := (ClientView.mem_collect rt linked).mp here
    obtain ⟨r, live⟩ := shown.live linked
    rw [(mirrors s).1 r live shown, show m.tree.nodes.lookup s = some r from live, Option.map_some]
  · rename_i absent
    exact (mirrors s).2 fun shown => absent ((ClientView.mem_collect rt linked).mpr shown)

end Settling

section Steps
variable {R : Type} [Add R] [Tables] {m : Manager R} {tab : Tab R}

theorem Sound.tick (rt : Runtime) (sound : Sound m) : Sound (m.emitTree rt).1 := by
  have refreshed := m.tree.refresh_spec rt
  have cleared := (m.tree.refresh rt).clearDirty_spec
  refine ⟨cleared.linked (refreshed.linked sound.linked),
    cleared.marked (refreshed.marked sound.marked), fun unloaded => ?_⟩
  cases loaded : m.view.loaded with
  | false =>
    simp only [Manager.emitTree, ClientView.update, loaded, Bool.not_false, ↓reduceIte]
    exact sound.early loaded
  | true =>
    obtain ⟨_, _, _, same⟩ :=
      ClientView.update_view rt m.view (m.tree.refresh rt) (m.tree.refresh rt).dirty
    simp only [Manager.emitTree, same, loaded, Bool.true_eq_false] at unloaded

/-- After a tick the tab mirrors the view. -/
theorem Consistent.tick (rt : Runtime) (consistent : Consistent m tab) (ordered : Ordered rt m)
    (upheld : Upheld m) : Consistent (m.emitTree rt).1 (tab.receive (m.emitTree rt).2) ∧
      (m.view.loaded = true → (m.emitTree rt).1.view.Mirrors (m.emitTree rt).1.tree
        (tab.receive (m.emitTree rt).2)) := by
  obtain ⟨sound, synced, settled⟩ := consistent
  have after := sound.tick rt
  have refreshed := m.tree.refresh_spec rt
  have cleared := (m.tree.refresh rt).clearDirty_spec
  have linked := refreshed.linked sound.linked
  have marked := refreshed.marked sound.marked
  have grew := refreshed.grew sound.linked sound.marked
  cases loaded : m.view.loaded with
  | false =>
    have same : m.emitTree rt = ({ m with tree := (m.tree.refresh rt).clearDirty }, none) := by
      simp [Manager.emitTree, ClientView.update, loaded]
    have full : ∀ part : m.view.needFull = false, False := fun part =>
      absurd ((sound.early loaded).symm.trans part) (by simp)
    rw [same] at after ⊢
    exact ⟨⟨after, fun part => (full part).elim, fun part => (full part).elim⟩, by simp⟩
  | true =>
    have updated : ClientView.Updated m.view (m.tree.refresh rt) tab
        (m.view.update rt (m.tree.refresh rt) (m.tree.refresh rt).dirty) := by
      by_cases change : m.view.needFull = true ∨ m.view.dirty = true
      · refine ClientView.update_changed rt linked marked loaded change
          (fun part => (synced part).shrunk grew.shrunk) fun part => ?_
        rw [m.tree.refresh_dirty rt]
        exact (ordered loaded part (change.resolve_left (by simp [part]))).refreshed refreshed
      · simp only [not_or, Bool.not_eq_true] at change
        exact ClientView.update_settled rt linked marked loaded change.1 change.2
          ((synced change.1).shrunk grew.shrunk)
          ((settled change.1 change.2).grown sound.linked linked grew)
          ((upheld loaded change.1 change.2).refreshed refreshed)
    obtain ⟨view, sent, mirrors⟩ := updated
    unfold Manager.emitTree at after ⊢
    dsimp only at after ⊢
    generalize m.view.update rt (m.tree.refresh rt) (m.tree.refresh rt).dirty = result
      at view sent mirrors after ⊢
    obtain ⟨v, up⟩ := result
    dsimp only at view sent mirrors after ⊢
    have shown : ∀ s, s ∈ v.sent ↔ v.Shown (m.tree.refresh rt).clearDirty s := by
      intro s
      rw [sent, ClientView.Shown.cleared cleared, view]
      exact Iff.rfl
    have final := mirrors.cleared cleared
    exact ⟨⟨after, fun _ => final.synced after.linked shown,
      fun _ _ => ClientView.settled_of_sent shown cleared.dirty⟩, fun _ => final⟩

end Steps

section Runs
variable {R : Type} [Zero R] [Add R] [Tables] [Filter.Compiler] {m : Manager R} {tab : Tab R}
  {f : Feed R}

theorem Sound.step (e : Event R) (sound : Sound m) : Sound (m.step e).1 := by
  obtain ⟨linked, marked, early⟩ := sound
  cases e with
  | observe subject count rate last =>
    obtain ⟨linked', marked', _⟩ := Tree.observe_spec subject count rate last linked marked
    exact ⟨linked', marked', early⟩
  | forget gone =>
    simp only [Manager.step]
    split
    · exact ⟨linked, marked, early⟩
    · obtain ⟨linked', marked', _⟩ := Tree.remove_all_spec gone linked marked
      exact ⟨linked', marked', early⟩
  | forgetAll => exact ⟨Tree.newTree_linked, Tree.newTree_marked, fun _ => rfl⟩
  | setView view =>
    obtain ⟨_, _, _, _, _, _, same, _⟩ := ClientView.set_view m.view view
    exact ⟨linked, marked, fun unloaded => by simp [Manager.step, same] at unloaded⟩
  | tick rt => exact Sound.tick rt ⟨linked, marked, early⟩

theorem Consistent.step (e : Event R) (consistent : Consistent m tab)
    (ok : ∀ rt, e = .tick rt → Ordered rt m ∧ Upheld m) :
    Consistent (m.step e).1 (tab.receive (m.step e).2) := by
  have after := consistent.sound.step e
  obtain ⟨sound, synced, settled⟩ := consistent
  cases e with
  | observe subject count rate last =>
    obtain ⟨linked, _, grew⟩ :=
      Tree.observe_spec subject count rate last sound.linked sound.marked
    exact ⟨after, fun part => (synced part).shrunk grew.shrunk,
      fun part same => (settled part same).grown sound.linked linked grew⟩
  | forget gone =>
    simp only [Manager.step] at after ⊢
    split
    · exact ⟨sound, synced, settled⟩
    · rename_i some
      rw [if_neg some] at after
      obtain ⟨_, _, shrunk⟩ := Tree.remove_all_spec gone sound.linked sound.marked
      have kept : m.view.needFull = false → m.view.Synced _ tab := fun part =>
        (synced part).shrunk shrunk
      exact ⟨after, fun part => ⟨(kept part).domain, (kept part).current⟩, fun _ same => by cases same⟩
  | forgetAll => exact ⟨after, fun part => (by cases part), fun part => (by cases part)⟩
  | setView view =>
    obtain ⟨_, _, _, _, _, _, same, part, _⟩ := ClientView.set_view m.view view
    simp only [Manager.step, same] at after ⊢
    refine ⟨after, fun whole => ?_, by simp⟩
    obtain ⟨before, preview⟩ := part whole
    have kept := synced before
    refine ⟨kept.domain, fun sent live clean => ?_⟩
    refine (kept.current sent live clean).trans ?_
    dsimp only
    rw [preview]
  | tick rt =>
    obtain ⟨ordered, upheld⟩ := ok rt rfl
    exact (Consistent.tick rt ⟨sound, synced, settled⟩ ordered upheld).1

omit [Add R] [Tables] [Filter.Compiler] in
theorem start_sound : Sound (Manager.newManager : Manager R) where
  linked := Tree.newTree_linked
  marked := Tree.newTree_marked
  early _ := rfl

omit [Zero R] [Add R] [Filter.Compiler] in
/-- A tab that is to be told from scratch may have anything. -/
theorem Sound.consistent (sound : Sound m) (full : m.view.needFull = true) (tab : Tab R) :
    Consistent m tab where
  sound := sound
  synced part := absurd (full.symm.trans part) (by simp)
  settled part := absurd (full.symm.trans part) (by simp)

/-- A condition on the ticks of a run. -/
def AtTicks (ok : Runtime → Manager R → Prop) (f : Feed R) (e : Event R) : Prop :=
  ∀ rt, e = .tick rt → ok rt f.manager

theorem step_loaded (e : Event R) (loaded : m.view.loaded = true ∨ ∃ view, e = .setView view) :
    (m.step e).1.view.loaded = true := by
  cases e with
  | observe => exact loaded.resolve_right (by simp)
  | forget gone =>
    simp only [Manager.step]
    split <;> exact loaded.resolve_right (by simp)
  | forgetAll => exact loaded.resolve_right (by simp)
  | setView view =>
    obtain ⟨_, _, _, _, _, _, same, _⟩ := ClientView.set_view m.view view
    simp only [Manager.step, same]
  | tick rt =>
    obtain ⟨_, _, _, same⟩ :=
      ClientView.update_view rt m.view (m.tree.refresh rt) (m.tree.refresh rt).dirty
    have before : m.view.loaded = true := loaded.resolve_right (by simp)
    simp only [Manager.step, Manager.emitTree, same, before]

theorem run_loaded (events : List (Event R)) (f : Feed R)
    (loaded : f.manager.view.loaded = true ∨ ∃ view, .setView view ∈ events) :
    (Transition.run Feed.step f events).manager.view.loaded = true := by
  induction events generalizing f with
  | nil => exact loaded.resolve_right (by simp)
  | cons e rest ih =>
    refine ih (f.step e) ?_
    rcases loaded with loaded | ⟨view, member⟩
    · exact Or.inl (step_loaded e (Or.inl loaded))
    · rcases List.mem_cons.mp member with rfl | member
      · exact Or.inl (step_loaded _ (Or.inr ⟨view, rfl⟩))
      · exact Or.inr ⟨view, member⟩

/-- Every tick after the first view leaves the picture on the tab. -/
theorem run_mirrors (events : List (Event R)) (rt rt' : Runtime)
    (loaded : ∃ view, .setView view ∈ events)
    (ok : Transition.Along Feed.step (AtTicks fun rt m => Ordered rt m ∧ Upheld m) Feed.start
      (events ++ [.tick rt])) :
    (Feed.run (events ++ [.tick rt])).tab = (Feed.run (events ++ [.tick rt])).manager.picture rt' := by
  obtain ⟨before, last, _⟩ := Transition.along_append.mp ok
  have consistent : Consistent (Feed.run events).manager (Feed.run events).tab :=
    Transition.invariant (fun f e _ consistent ok => Consistent.step e consistent ok)
      (start_sound.consistent rfl _) before
  obtain ⟨ordered, upheld⟩ := last rt rfl
  obtain ⟨after, mirrors⟩ := consistent.tick rt ordered upheld
  have final : Feed.run (events ++ [.tick rt]) = (Feed.run events).step (.tick rt) :=
    Transition.run_append
  rw [final]
  exact (mirrors (run_loaded events Feed.start (Or.inr loaded))).picture after.sound.linked rt'

end Runs
end NatsExplorer.Subscription
