import NatsExplorer.Client.Contributions
import NatsExplorer.Message
import Mathlib.Data.List.Dedup

/-! The feed worker (`client/src/worker/feedCore.ts`). It drops the trees of the connections the last list had and this
one has not; a tree that came for a connection no list has named yet is none of these. -/
namespace NatsExplorer.Client
open Go

/-- Newest live messages kept while the main thread is busy. -/
def maxPending : Nat := 10000

structure FeedCore (N : Type) where
  model : TreeModel N
  knownConns : List Str
  pending : List NatsMessage
  treeScheduled : Bool
  feedScheduled : Bool

/-- A decoded event; a connections list by the ids in it. -/
inductive WsServerEvent (N : Type) where
  | subjectTree (connId : Str) (full : Bool) (data : List (SubjectEntry N)) (removed : List Str)
  | messageBatch (connId : Str) (data : List NatsMessage)
  | connections (ids : List Str)
  | other

namespace FeedCore
variable {N : Type} [AddCommMonoid N] [LinearOrder N]

omit [LinearOrder N] in
def new : FeedCore N where
  model := .new
  knownConns := []
  pending := []
  treeScheduled := false
  feedScheduled := false

omit [AddCommMonoid N] [LinearOrder N] in
def scheduleTree (f : FeedCore N) : FeedCore N := { f with treeScheduled := true }

omit [AddCommMonoid N] [LinearOrder N] in
def queueFeed (f : FeedCore N) (connId : Str) (msgs : List NatsMessage) : FeedCore N :=
  let pending := f.pending ++ msgs.map fun m => { m with connID := connId }
  { f with pending := pending.drop (pending.length - maxPending), feedScheduled := true }

omit [AddCommMonoid N] [LinearOrder N] in
theorem queueFeed_tree (f : FeedCore N) (connId : Str) (msgs : List NatsMessage) :
    (f.queueFeed connId msgs).model = f.model ∧ (f.queueFeed connId msgs).knownConns = f.knownConns := by
  rw [queueFeed]
  exact ⟨rfl, rfl⟩

def dropAll (m : TreeModel N) (ids : List Str) : Option (TreeModel N) := ids.foldlM TreeModel.dropConnection m

/-- What the worker does: an event, a reset after the socket dropped, and the two posts it schedules. -/
inductive Act (N : Type) where
  | event (msg : WsServerEvent N)
  | reset
  | layoutTree
  | flushFeed

variable (le : Str → Str → Prop) [DecidableRel le]

def handleEvent (f : FeedCore N) : WsServerEvent N → Option (FeedCore N)
  | .subjectTree connId full data removed => do
    let model ← f.model.apply le connId full data removed
    some { f with model := model }.scheduleTree
  | .messageBatch connId data => some (f.queueFeed connId data)
  | .connections ids => do
    -- Trees of connections that vanished go with them.
    let model ← dropAll f.model (f.knownConns.filter fun id => id ∉ ids)
    some { f with model := model, knownConns := ids.dedup }.scheduleTree
  | .other => some f

def step (f : FeedCore N) : Act N → Option (FeedCore N)
  | .event msg => f.handleEvent le msg
  | .reset => do
    let model ← dropAll f.model f.knownConns
    some { f with model := model, knownConns := [], pending := [] }.scheduleTree
  | .layoutTree => some { f with treeScheduled := false }
  | .flushFeed => some { f with feedScheduled := false, pending := [] }

end FeedCore

namespace TreeModel
variable {N : Type} [AddCommMonoid N] [LinearOrder N] {le : Str → Str → Prop} {m : TreeModel N} {c : Str}

/-- Every connection that has an entry meets `P`. -/
def Of (m : TreeModel N) (P : Str → Prop) : Prop := ∀ c s, m.held c s ≠ none → P c

/-- A tree in order, of connections that meet `P`. -/
structure Kept (le : Str → Str → Prop) (P : Str → Prop) (m : TreeModel N) : Prop where
  linked : Linked le m
  leafy : LeafyBut m none
  of : m.Of P

variable {P Q : Str → Prop}

omit [AddCommMonoid N] [LinearOrder N] in
theorem Of.less {m' : TreeModel N} (of : m.Of P) (less : Less m m') : m'.Of P :=
  fun c s some => of c s fun none => some (less.gone none)

theorem Kept.mono (kept : Kept le P m) (weaker : ∀ c, P c → Q c) : Kept le Q m :=
  { kept with of := fun c s some => weaker c (kept.of c s some) }

/-- Whatever hangs where, dropping a connection leaves none of it. -/
theorem Kept.drop (kept : Kept le P m) (c : Str) : ∃ m', m.dropConnection c = some m' ∧ Kept le (fun d => P d ∧ d ≠ c) m' := by
  obtain ⟨m', ran, pruned, gone⟩ := dropConnection_spec (K := fun _ _ => False) (fun _ _ _ none _ => none) kept.linked kept.leafy
    (fun _ _ => False.elim) fun _ => id
  refine ⟨m', ran, pruned.linked, pruned.leafy, fun d s some => ⟨kept.of.less pruned.less d s some, ?_⟩⟩
  rintro rfl
  exact some (gone s)

theorem Kept.dropAll (kept : Kept le P m) (ids : List Str) :
    ∃ m', FeedCore.dropAll m ids = some m' ∧ Kept le (fun d => P d ∧ d ∉ ids) m' := by
  induction ids generalizing m P with
  | nil => exact ⟨m, rfl, kept.mono fun c holds => ⟨holds, List.not_mem_nil⟩⟩
  | cons c ids ih =>
    obtain ⟨m₁, first, kept₁⟩ := kept.drop c
    obtain ⟨m₂, rest, kept₂⟩ := ih kept₁
    refine ⟨m₂, ?_, kept₂.mono fun d holds => ⟨holds.1.1, ?_⟩⟩
    · rw [FeedCore.dropAll, List.foldlM_cons, first]
      exact rest
    · rw [List.mem_cons, not_or]
      exact ⟨holds.1.2, holds.2⟩

theorem Kept.removals (kept : Kept le P m) (c : Str) (removed : List Str) :
    ∃ m', removed.foldlM (fun m s => m.removeEntry m.height c s) m = some m' ∧ Kept le P m' := by
  obtain ⟨m', ran, pruned, -⟩ := removals_spec (K := fun _ _ => False) (c := c) (fun _ _ _ none _ => none) kept.linked kept.leafy
    (fun _ _ => False.elim) removed fun _ _ => id
  exact ⟨m', ran, pruned.linked, pruned.leafy, kept.of.less pruned.less⟩

/-- An update brings entries of its own connection. -/
theorem Kept.apply [DecidableRel le] [Std.Total le] [IsTrans Str le] (kept : Kept le P m) (c : Str) (full : Bool)
    (entries : List (SubjectEntry N)) (removed : List Str) :
    ∃ m', m.apply le c full entries removed = some m' ∧ Kept le (fun d => P d ∨ (d = c ∧ entries ≠ [])) m' := by
  obtain ⟨m₁, first, kept₁⟩ : ∃ m₁, (if full then m.dropConnection c else some m) = some m₁ ∧ Kept le P m₁ := by
    cases full with
    | false => exact ⟨m, rfl, kept⟩
    | true =>
      obtain ⟨m₁, ran, kept₁⟩ := kept.drop c
      exact ⟨m₁, ran, kept₁.mono fun _ => And.left⟩
  obtain ⟨m₂, second, kept₂⟩ := kept₁.removals c removed
  obtain ⟨linked, leafy, held⟩ := entries_spec kept₂.linked kept₂.leafy c entries
  refine ⟨_, ?_, linked, leafy, fun d s some => ?_⟩
  · unfold TreeModel.apply
    cases full with
    | false =>
      obtain rfl : m = m₁ := Option.some.inj first
      simp [second]
    | true =>
      have dropped : m.dropConnection c = some m₁ := first
      simp [dropped, second]
  · rw [held] at some
    by_cases own : d = c
    · rcases List.eq_nil_or_concat entries with none | ⟨_, _, several⟩
      · rw [if_pos own, none, ← own] at some
        exact Or.inl (kept₂.of d s some)
      · exact Or.inr ⟨own, by rw [several]; simp⟩
    · rw [if_neg own] at some
      exact Or.inl (kept₂.of d s some)

theorem new_kept : Kept le P (TreeModel.new : TreeModel N) :=
  have shows : Shows le (fun _ _ => none) (TreeModel.new : TreeModel N) := new_shows
  ⟨shows.linked, shows.leafy, fun _ _ some => absurd rfl some⟩

/-- A tree of no connection is empty. -/
theorem Kept.empty (kept : Kept le (fun _ => False) m) : m.nodes = [] ∧ m.roots = [] := by
  have nodes : m.nodes = [] := by
    by_contra some
    obtain ⟨s, member⟩ := List.exists_mem_of_ne_nil _ some
    have rooted : ∀ c, Call.Rooted (m.held c) := fun c s t held => (kept.of c s held).elim
    obtain ⟨c, listed⟩ := List.exists_mem_of_ne_nil _ (LeafyBut.inhabited kept.linked kept.leafy rooted s member)
    refine kept.of c s ?_
    rw [held, if_pos member]
    exact ((m.heap s).byConn.mem_keys c).mp listed
  refine ⟨nodes, List.eq_nil_iff_forall_not_mem.mpr fun t root => ?_⟩
  have := (kept.linked.roots.mp root).2
  rw [nodes] at this
  exact List.not_mem_nil this

end TreeModel

namespace FeedCore
variable {N : Type} [AddCommMonoid N] [LinearOrder N] {le : Str → Str → Prop}

/-- What the events say of the connections: those of the last list, and those that have sent entries since and are not
on it. -/
structure Lists where
  known : List Str
  waiting : List Str

namespace Lists

omit [AddCommMonoid N] [LinearOrder N] in
def next (l : Lists) : Act N → Lists
  | .event (.subjectTree connId _ data _) =>
    if data ≠ [] ∧ connId ∉ l.known then { l with waiting := connId :: l.waiting } else l
  | .event (.connections ids) => ⟨ids, []⟩
  | .reset => ⟨[], []⟩
  | _ => l

/-- The next list names whoever has sent entries without being on the last one, and no reset comes before it. -/
def Announced (l : Lists) : Act N → Prop
  | .event (.connections ids) => ∀ c ∈ l.waiting, c ∈ ids
  | .reset => l.waiting = []
  | _ => True

end Lists

/-- The tree has entries of connections of the last list and of those that wait for the next. -/
structure Holds (le : Str → Str → Prop) (l : Lists) (f : FeedCore N) : Prop where
  known : ∀ c, c ∈ f.knownConns ↔ c ∈ l.known
  kept : TreeModel.Kept le (fun c => c ∈ l.known ∨ c ∈ l.waiting) f.model

/-- After a connections list the tree is of the connections in it, and after a reset there is none. -/
def Clean (act : Act N) (f : FeedCore N) : Prop :=
  match act with
  | .event (.connections ids) => ∀ c s, f.model.held c s ≠ none → c ∈ ids
  | .reset => f.model.nodes = [] ∧ f.model.roots = []
  | _ => True

variable [DecidableRel le] [Std.Total le] [IsTrans Str le]

theorem Holds.step {l : Lists} {f : FeedCore N} (holds : Holds le l f) (act : Act N) (announced : l.Announced act) :
    ∃ f', f.step le act = some f' ∧ Holds le (l.next act) f' ∧ Clean act f' := by
  cases act with
  | layoutTree => exact ⟨_, rfl, ⟨holds.known, holds.kept⟩, trivial⟩
  | flushFeed => exact ⟨_, rfl, ⟨holds.known, holds.kept⟩, trivial⟩
  | reset =>
    obtain ⟨m', ran, kept⟩ := holds.kept.dropAll f.knownConns
    have none : TreeModel.Kept le (fun _ => False) m' := kept.mono fun c ⟨here, gone⟩ => by
      rw [holds.known] at gone
      rw [show l.waiting = [] from announced] at here
      exact here.elim gone List.not_mem_nil
    refine ⟨{ f with model := m', knownConns := [], pending := [] }.scheduleTree, ?_, ⟨fun _ => Iff.rfl, ?_⟩, ?_⟩
    · rw [FeedCore.step, ran]
      rfl
    · exact none.mono fun _ => False.elim
    · exact none.empty
  | event msg =>
    cases msg with
    | other => exact ⟨f, rfl, holds, trivial⟩
    | messageBatch connId data =>
      obtain ⟨model, known⟩ := f.queueFeed_tree connId data
      refine ⟨f.queueFeed connId data, rfl, ⟨fun c => ?_, ?_⟩, trivial⟩
      · rw [known]
        exact holds.known c
      · rw [model]
        exact holds.kept
    | subjectTree connId full data removed =>
      obtain ⟨m', ran, kept⟩ := holds.kept.apply connId full data removed
      refine ⟨{ f with model := m' }.scheduleTree, ?_, ⟨?_, kept.mono fun c here => ?_⟩, trivial⟩
      · rw [FeedCore.step, handleEvent, ran]
        rfl
      · simp only [Lists.next]
        split <;> exact holds.known
      · simp only [Lists.next]
        split
        · next unlisted =>
          rcases here with (known | waiting) | ⟨rfl, -⟩
          · exact Or.inl known
          · exact Or.inr (List.mem_cons_of_mem _ waiting)
          · exact Or.inr List.mem_cons_self
        · next listed =>
          rcases here with here | ⟨rfl, some⟩
          · exact here
          · exact Or.inl (not_not.mp fun out => listed ⟨some, out⟩)
    | connections ids =>
      obtain ⟨m', ran, kept⟩ := holds.kept.dropAll (f.knownConns.filter fun id => id ∉ ids)
      have listed : TreeModel.Kept le (· ∈ ids) m' := kept.mono fun c ⟨here, stays⟩ => by
        rcases here with known | waiting
        · by_contra out
          exact stays (List.mem_filter.mpr ⟨(holds.known c).mpr known, decide_eq_true out⟩)
        · exact announced c waiting
      refine ⟨{ f with model := m', knownConns := ids.dedup }.scheduleTree, ?_,
        ⟨fun c => List.mem_dedup, ?_⟩, ?_⟩
      · rw [FeedCore.step, handleEvent, ran]
        rfl
      · exact listed.mono fun _ => Or.inl
      · exact listed.of

omit [DecidableRel le] [Std.Total le] [IsTrans Str le] in
theorem new_holds : Holds le ⟨[], []⟩ (FeedCore.new : FeedCore N) := ⟨fun _ => Iff.rfl, TreeModel.new_kept⟩

/-- In a run in which every connection that sends entries before it is listed is on the next list, no list and no reset
leaves a tree behind. -/
theorem feed_no_ghosts (acts : List (Act N)) (announced : Transition.Along Lists.next Lists.Announced ⟨[], []⟩ acts) :
    ∀ before act, before ++ [act] <+: acts → ∃ f f', before.foldlM (FeedCore.step le) FeedCore.new = some f ∧
      f.step le act = some f' ∧ Clean act f' := by
  rintro before act ⟨rest, rfl⟩
  obtain ⟨along, -⟩ := Transition.along_append.mp announced
  obtain ⟨first, last⟩ := Transition.along_append.mp along
  have steps (l : Lists) (f : FeedCore N) (act : Act N) (holds : Holds le l f) (announced : l.Announced act) :
      ∃ f', f.step le act = some f' ∧ Holds le (l.next act) f' := by
    obtain ⟨f', moved, still, -⟩ := holds.step act announced
    exact ⟨f', moved, still⟩
  obtain ⟨f, ran, holds⟩ := first.follows steps new_holds
  obtain ⟨f', moved, -, clean⟩ := holds.step act last.1
  exact ⟨f, f', ran, moved, clean⟩

/-- An update that comes before the list that should have named its connection, and that list. -/
def unannounced : List (Act Nat) :=
  [.event (.subjectTree "lab".toList true [TreeModel.counted "a"] []), .event (.connections [])]

/-- The tree of `lab` stays, though the list is empty. -/
theorem feed_ghost : ¬ ∀ (acts before : List (Act Nat)) (act : Act Nat), before ++ [act] <+: acts →
    ∃ f f', before.foldlM (FeedCore.step fun a b => a ≤ b) FeedCore.new = some f ∧ f.step (fun a b => a ≤ b) act = some f' ∧
      Clean act f' := by
  intro claim
  obtain ⟨f, f', ran, moved, clean⟩ := claim unannounced [unannounced[0]] unannounced[1] (List.prefix_refl _)
  have computed : (([unannounced[0]].foldlM (FeedCore.step fun a b => a ≤ b) FeedCore.new).bind fun f =>
      (f.step (fun a b => a ≤ b) unannounced[1]).map fun f => (f.model.held "lab".toList "a".toList).isSome) = some true := by
    decide +kernel
  rw [ran, Option.bind_some, moved, Option.map_some, Option.some.injEq] at computed
  have some : f'.model.held "lab".toList "a".toList ≠ none := fun none => by
    rw [none] at computed
    cases computed
  exact List.not_mem_nil (clean "lab".toList "a".toList some)

/-- A tree before its list, a second connection, a list without the first, and the end of the socket. -/
def session : List (Act Nat) :=
  [.event (.subjectTree "lab".toList true [TreeModel.counted "a"] []), .event (.connections ["lab".toList, "prod".toList]),
    .event (.subjectTree "prod".toList true [TreeModel.counted "a", TreeModel.counted "a.b"] []), .event (.connections ["prod".toList]),
    .event (.subjectTree "lab".toList false [] ["a".toList]), .reset]

theorem feed_no_ghosts_session : Transition.Along Lists.next Lists.Announced ⟨[], []⟩ session ∧
    ∀ before act, before ++ [act] <+: session → ∃ f f', before.foldlM (FeedCore.step fun a b => a ≤ b) FeedCore.new = some f ∧
      f.step (fun a b => a ≤ b) act = some f' ∧ Clean act f' :=
  have announced : Transition.Along Lists.next Lists.Announced ⟨[], []⟩ session := by
    refine ⟨trivial, ?_, trivial, ?_, trivial, ?_, trivial⟩
    · intro c member
      exact List.mem_cons.mpr (Or.inl (List.mem_singleton.mp member))
    · intro c member
      exact absurd member List.not_mem_nil
    · exact rfl
  ⟨announced, feed_no_ghosts session announced⟩

end FeedCore
end NatsExplorer.Client
