import NatsExplorer.Subscription.Feed

/-! When a feed is a faithful mirror: without an expression, where no tick of a
changed view lets a removed node have the last word; with one, where what a tab
has keeps satisfying it. -/
namespace NatsExplorer.Subscription
open Go

section
variable {R : Type} [Zero R] [Add R] [Tables] [Filter.Compiler]

theorem step_plain (f : Feed R) (e : Event R)
    (plain : ∀ view, e = .setView view → strings.trimSpace view.expr = [])
    (bare : f.manager.view.prg = none) : (f.step e).manager.view.prg = none := by
  cases e with
  | observe => exact bare
  | forget gone =>
    simp only [Feed.step, Manager.step]
    split <;> exact bare
  | forgetAll => exact bare
  | setView view =>
    obtain ⟨_, _, _, _, _, _, same, _, cleared⟩ := ClientView.set_view f.manager.view view
    simp only [Feed.step, Manager.step, same, cleared (plain view rfl)]
  | tick rt =>
    obtain ⟨_, _, _, same⟩ := ClientView.update_view rt f.manager.view (f.manager.tree.refresh rt)
      (f.manager.tree.refresh rt).dirty
    simp only [Feed.step, Manager.step, Manager.emitTree, same, bare]

/-- Without expressions the tab mirrors the view after every tick, whatever the
order of maps, as long as the ticks are `Ordered`. -/
theorem plain_feed_mirrors (events : List (Event R)) (rt rt' : Runtime)
    (plain : ∀ view, .setView view ∈ events → strings.trimSpace view.expr = [])
    (loaded : ∃ view, .setView view ∈ events)
    (ordered : Transition.Along Feed.step (AtTicks Ordered) Feed.start (events ++ [.tick rt])) :
    (Feed.run (events ++ [.tick rt])).tab =
      (Feed.run (events ++ [.tick rt])).manager.picture rt' := by
  refine run_mirrors events rt rt' loaded ?_
  have along := ordered.keeping (P := fun f => f.manager.view.prg = none) (fun f e member bare =>
    step_plain f e (fun view same => plain view (by simpa [same] using member)) bare) rfl
  refine along.mono fun f e _ ⟨bare, ok⟩ rt same => ⟨ok rt same, ?_⟩
  exact fun _ _ _ prg => by simp [bare] at prg

/-- Where nothing is forgotten, every listed node is in the tree. -/
structure Kept (m : Manager R) : Prop where
  sound : Sound m
  listed : ∀ r ∈ m.tree.dirty, ∃ s, m.tree.Live s r

theorem step_kept (m : Manager R) (e : Event R) (remembers : ∀ gone, e ≠ .forget gone)
    (kept : Kept m) : Kept (m.step e).1 := by
  refine ⟨kept.sound.step e, fun r member => ?_⟩
  cases e with
  | observe subject count rate last =>
    obtain ⟨_, _, grew⟩ :=
      Tree.observe_spec subject count rate last kept.sound.linked kept.sound.marked
    rcases grew.listedFrom member with old | live
    · obtain ⟨s, live⟩ := kept.listed r old
      exact ⟨s, grew.keep live⟩
    · exact live
  | forget gone => exact absurd rfl (remembers gone)
  | forgetAll => cases member
  | setView view => exact kept.listed r member
  | tick rt =>
    change r ∈ (m.tree.refresh rt).clearDirty.dirty at member
    rw [(m.tree.refresh rt).clearDirty_spec.dirty] at member
    cases member

omit [Zero R] [Add R] [Filter.Compiler] in
theorem Kept.ordered {m : Manager R} (kept : Kept m) (rt : Runtime) : Ordered rt m := by
  intro _ _ _
  refine List.pairwise_of_forall_mem_list fun a _ b member live _ _ => ?_
  obtain ⟨s, liveB⟩ := kept.listed b ((Tree.mem_deepestFirst rt _).mp member)
  rw [kept.sound.linked.subject liveB] at live
  exact live.unique liveB

/-- With expressions it does so as long as nothing is forgotten and every tick
is `Upheld`. -/
theorem expr_feed_mirrors (events : List (Event R)) (rt rt' : Runtime)
    (remembers : ∀ gone, .forget gone ∉ events) (loaded : ∃ view, .setView view ∈ events)
    (upheld : Transition.Along Feed.step (AtTicks fun _ => Upheld) Feed.start
      (events ++ [.tick rt])) :
    (Feed.run (events ++ [.tick rt])).tab =
      (Feed.run (events ++ [.tick rt])).manager.picture rt' := by
  refine run_mirrors events rt rt' loaded ?_
  have start : Kept (Feed.start : Feed R).manager := ⟨start_sound, fun r member => by cases member⟩
  have along := upheld.keeping (P := fun f => Kept f.manager) (fun f e member kept =>
    step_kept f.manager e (fun gone same => remembers gone (by simpa [same] using member)) kept) start
  exact along.mono fun f e _ ⟨kept, ok⟩ rt same => ⟨kept.ordered rt, ok rt same⟩

end

/-- An expression library that knows `raw == "1"` only, for concrete runs. -/
@[reducible] def onlyOne : Filter.Compiler where
  compile expr :=
    if expr = "raw == \"1\"".toList then .ok {
      onRecord := fun r => decide (r.data = .text ['1'])
      onMessage := fun m => decide (m.payload = ['1']) }
    else .error "undeclared reference".toList

def openView (expr : String) : View :=
  { all := true, paths := [], filter := [], expr := expr.toList, noPreview := false }

def observed (subject : String) (payload : Char) (count : Nat) : Event Nat :=
  .observe subject.toList count 0 (some {
    subject := subject.toList
    data := .text [payload]
    timestamp := count
    sequence := count })

section
attribute [local instance] asciiTables onlyOne

def removalRun : List (Event Nat) := [
  .setView (openView ""), observed "a" '1' 1, .tick .plain, .forget ["a".toList]]

theorem plain_feed_mirrors_removal :
    (Feed.run (removalRun ++ [.tick .plain])).tab =
      (Feed.run (removalRun ++ [.tick .plain])).manager.picture .plain := by
  refine plain_feed_mirrors removalRun .plain .plain ?_ ⟨openView "", by simp [removalRun]⟩ ?_
  · intro view member
    simp only [removalRun, observed, List.mem_cons, List.not_mem_nil, reduceCtorEq,
      Event.setView.injEq, or_false] at member
    subst member
    decide
  · refine ⟨nofun, nofun, ?_, nofun, ?_, trivial⟩
    · rintro _ ⟨⟩ _ part
      exact absurd part (by decide)
    · rintro _ ⟨⟩ _ _ _
      have none : (Feed.run removalRun).manager.tree.deepestFirst .plain = [] := by decide
      exact none ▸ List.Pairwise.nil

/-- Forgetting `a.b` marks `a`, which is then removed too and comes back before
the tick; a sort that turns the two nodes of `a` around sends the old one last. -/
def staleRun : List (Event Nat) := [
  .setView (openView ""), observed "a" '1' 1, observed "a.b" '1' 1, .tick .plain,
  .forget ["a.b".toList, "a".toList], observed "a" '1' 1]

theorem plain_feed_stale : (Feed.run (staleRun ++ [.tick .turned])).tab "a".toList ≠
    (Feed.run (staleRun ++ [.tick .turned])).manager.picture .plain "a".toList := by
  decide

def steadyRun : List (Event Nat) := [
  .setView (openView "raw == \"1\""), observed "a" '1' 1, .tick .plain, observed "a" '1' 2]

theorem expr_feed_mirrors_steady :
    (Feed.run (steadyRun ++ [.tick .plain])).tab =
      (Feed.run (steadyRun ++ [.tick .plain])).manager.picture .plain := by
  refine expr_feed_mirrors steadyRun .plain .plain ?_ ⟨openView _, List.mem_cons_self⟩ ?_
  · simp [steadyRun, observed]
  · refine ⟨nofun, nofun, ?_, nofun, ?_, trivial⟩
    · rintro _ ⟨⟩ _ part
      exact absurd part (by decide)
    · rintro _ ⟨⟩ _ _ _ _ r listed _
      have only : ∀ r ∈ (Feed.run steadyRun).manager.tree.dirty,
        (Feed.run steadyRun).manager.view.matchesNode
          ((Feed.run steadyRun).manager.tree.heap r) = true := by decide
      exact only r listed

/-- The newest message of `a` stops satisfying the expression. -/
def unmatchedRun : List (Event Nat) := [
  .setView (openView "raw == \"1\""), observed "a" '1' 1, .tick .plain, observed "a" '2' 2]

/-- The branch `a` is there for the sake of `a.b` only. -/
def branchRun : List (Event Nat) := [
  .setView (openView "raw == \"1\""), observed "a.b" '1' 1, .tick .plain, observed "a.b" '1' 2]

theorem expr_feed_stale :
    (Feed.run (unmatchedRun ++ [.tick .plain])).tab "a".toList ≠
      (Feed.run (unmatchedRun ++ [.tick .plain])).manager.picture .plain "a".toList ∧
    (Feed.run (branchRun ++ [.tick .plain])).tab "a".toList ≠
      (Feed.run (branchRun ++ [.tick .plain])).manager.picture .plain "a".toList := by
  decide

end
end NatsExplorer.Subscription
