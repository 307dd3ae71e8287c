import NatsExplorer.Client.LiveView
import NatsExplorer.Library.Transition

/-! The feed, the history answers and the older pages of one watched subject
(`client/src/lib/feed.ts` on top of `Manager.process`), in any order. A message is
on its way in the feed before the history has it, and an answer may overtake it. -/
namespace NatsExplorer.Client
open Go

/-- Recorded messages on the watched subject that everything still in the feed
comes after. -/
structure Settled (log feed : List NatsMessage) (subject : Str) (msgs : List NatsMessage) : Prop where
  ordered : msgs.Pairwise Before
  logged : ∀ m ∈ msgs, m ∈ log
  exact : ∀ m ∈ msgs, m.subject = subject
  ahead : ∀ m ∈ msgs, ∀ later ∈ feed, Before m later

namespace Settled
variable {log feed log' feed' msgs more : List NatsMessage} {subject : Str}

theorem sublist (settled : Settled log feed subject msgs) (part : more.Sublist msgs) :
    Settled log feed subject more where
  ordered := settled.ordered.sublist part
  logged m member := settled.logged m (part.subset member)
  exact m member := settled.exact m (part.subset member)
  ahead m member := settled.ahead m (part.subset member)

/-- What is sent later does not disturb it. -/
theorem transfer (settled : Settled log feed subject msgs) (logged : ∀ m ∈ log, m ∈ log')
    (later : ∀ m ∈ feed', m ∈ feed ∨ ∀ old ∈ log, Before old m) : Settled log' feed' subject msgs where
  ordered := settled.ordered
  logged m member := logged m (settled.logged m member)
  exact := settled.exact
  ahead m member new fed := by
    rcases later new fed with old | after
    · exact settled.ahead m member new old
    · exact after m (settled.logged m member)

/-- Of two recorded messages one is before the other. -/
theorem comparable (order : log.Pairwise Before) {a b : NatsMessage} (first : a ∈ log)
    (second : b ∈ log) (other : a ≠ b) : Before a b ∨ Before b a := by
  have : Std.Symm fun a b => Before a b ∨ Before b a := ⟨fun _ _ => Or.symm⟩
  have either : log.Pairwise fun a b => Before a b ∨ Before b a := order.imp Or.inl
  exact either.forall first second other

theorem merge (order : log.Pairwise Before) (left : Settled log feed subject msgs)
    (right : Settled log feed subject more) (apart : ∀ m ∈ more, m ∉ msgs) :
    Settled log feed subject (sort byArrival (msgs ++ more)) := by
  have mem {m : NatsMessage} (member : m ∈ sort byArrival (msgs ++ more)) : m ∈ msgs ∨ m ∈ more :=
    List.mem_append.mp ((sort_perm _ _).mem_iff.mp member)
  have distinct {l : List NatsMessage} (ordered : l.Pairwise Before) : l.Nodup :=
    ordered.imp Before.ne
  have nodup : (sort byArrival (msgs ++ more)).Nodup := by
    rw [(sort_perm _ _).nodup_iff, List.nodup_append]
    refine ⟨distinct left.ordered, distinct right.ordered, fun a here b there same => ?_⟩
    exact apart b there (same ▸ here)
  have logged : ∀ m ∈ sort byArrival (msgs ++ more), m ∈ log := fun m member =>
    (mem member).elim (left.logged m) (right.logged m)
  refine ⟨?_, logged, fun m member => ?_, fun m member => ?_⟩
  · refine List.Pairwise.imp_of_mem ?_ ((sort_sorted (msgs ++ more)).and nodup)
    rintro a b first second ⟨le, other⟩
    exact (comparable order (logged a first) (logged b second) other).resolve_right (byArrival_le.mp le)
  · exact (mem member).elim (left.exact m) (right.exact m)
  · exact (mem member).elim (left.ahead m) (right.ahead m)

/-- An answer joins what the view holds. -/
theorem applyHistory {v : LiveView} {res : HistoryResponse} (order : log.Pairwise Before)
    (view : Settled log feed subject v.messages) (answer : Settled log feed subject res.messages)
    (replace : Bool) : Settled log feed subject (v.applyHistory res replace).messages := by
  cases replace with
  | true =>
    simp only [LiveView.applyHistory, if_true]
    exact answer.sublist (newest_sublist _ _)
  | false =>
    simp only [LiveView.applyHistory, Bool.false_eq_true, if_false]
    refine sublist ?_ (newest_sublist _ _)
    split
    · exact answer
    · exact answer.merge order (view.sublist (unseen_sublist _ _)) fun m member => (mem_unseen member).2

theorem prependOlder {v : LiveView} (order : log.Pairwise Before)
    (view : Settled log feed subject v.messages) (page : Settled log feed subject msgs)
    (atOldest : Bool) : Settled log feed subject (v.prependOlder msgs atOldest).messages := by
  simp only [LiveView.prependOlder]
  refine sublist ?_ (newest_sublist _ _)
  split
  · exact view
  · exact (page.sublist (unseen_sublist _ _)).merge order view fun m held new => (mem_unseen new).2 held

/-- A batch of the feed joins what the view holds. -/
theorem ingestFeed {v : LiveView} (order : (msgs ++ feed').Pairwise Before) (part : ∀ m ∈ msgs, m ∈ log)
    (view : Settled log (msgs ++ feed') v.subject v.messages) :
    Settled log feed' v.subject (v.ingestFeed msgs).messages := by
  obtain ⟨taken, _, later⟩ := List.pairwise_append.mp order
  have old : Settled log feed' v.subject v.messages :=
    view.transfer (fun _ => id) fun m fed => Or.inl (List.mem_append_right _ fed)
  simp only [LiveView.ingestFeed]
  split
  · exact old
  · refine sublist ?_ (newest_sublist _ _)
    refine ⟨?_, fun m member => ?_, fun m member => ?_, fun m member => ?_⟩
    · rw [List.pairwise_append]
      refine ⟨view.ordered, taken.sublist List.filter_sublist, fun a here b there => ?_⟩
      exact view.ahead a here b (List.mem_append_left _ (List.mem_of_mem_filter there))
    · rcases List.mem_append.mp member with here | new
      · exact view.logged m here
      · exact part m (List.mem_of_mem_filter new)
    · rcases List.mem_append.mp member with here | new
      · exact view.exact m here
      · exact of_decide_eq_true (List.mem_filter.mp new).2
    · rcases List.mem_append.mp member with here | new
      · exact old.ahead m here
      · exact later m (List.mem_of_mem_filter new)

end Settled

/-- One connection of the server and a tab that watches a subject of it. -/
structure Session where
  connID : Str
  /-- Sequences count per connection. -/
  lastSequence : Nat
  /-- Sent to the tab and not taken up by `ingestFeed`. -/
  feed : List NatsMessage
  /-- In the feed, and not in the history yet. -/
  storing : List NatsMessage
  history : List NatsMessage
  answers : List (HistoryResponse × Bool)
  pages : List (List NatsMessage × Bool)
  view : LiveView

namespace Session

inductive Op where
  | process (m : NatsMessage)
  | store
  | deliver (n : Nat)
  | ask (keep : NatsMessage → Bool) (limit branchLimit : Nat) (replace : Bool)
  | apply (i : Nat)
  | askOlder (keep : NatsMessage → Bool) (limit : Nat) (atOldest : Bool)
  | prepend (i : Nat)

/-- What the history answers: the newest messages that pass the filter. -/
def answer (s : Session) (keep : NatsMessage → Bool) (limit branchLimit : Nat) : HistoryResponse where
  messages := newest limit ((s.history.filter s.view.exact).filter keep)
  branch := ((s.history.filter s.view.below).filter keep).reverse.take branchLimit

/-- The page before the oldest message the tab holds. -/
def older (s : Session) (cursor : NatsMessage) (keep : NatsMessage → Bool) (limit : Nat) :
    List NatsMessage :=
  newest limit ((s.history.filter s.view.exact).filter fun m => byArrival m cursor < 0 && keep m)

def step (s : Session) : Op → Session
  | .process m =>
    let m := { m with connID := s.connID, sequence := s.lastSequence + 1 }
    { s with
      lastSequence := m.sequence
      feed := if s.view.exact m || s.view.below m then s.feed ++ [m] else s.feed
      storing := s.storing ++ [m] }
  | .store =>
    match s.storing with
    | [] => s
    | m :: rest => { s with storing := rest, history := s.history ++ [m] }
  | .deliver n => { s with feed := s.feed.drop n, view := s.view.ingestFeed (s.feed.take n) }
  | .ask keep limit branchLimit replace =>
    { s with answers := s.answers ++ [(s.answer keep limit branchLimit, replace)] }
  | .apply i =>
    match s.answers[i]? with
    | none => s
    | some (res, replace) =>
      { s with answers := s.answers.eraseIdx i, view := s.view.applyHistory res replace }
  | .askOlder keep limit atOldest =>
    match s.view.messages.head? with
    | none => s
    | some cursor => { s with pages := s.pages ++ [(s.older cursor keep limit, atOldest)] }
  | .prepend i =>
    match s.pages[i]? with
    | none => s
    | some (msgs, atOldest) =>
      { s with pages := s.pages.eraseIdx i, view := s.view.prependOlder msgs atOldest }

/-- Everything recorded so far, in order. -/
def log (s : Session) : List NatsMessage := s.history ++ s.storing

/-- A tab that starts watching. -/
structure Opened (s : Session) : Prop where
  feed : s.feed = []
  storing : s.storing = []
  answers : s.answers = []
  pages : s.pages = []
  view : s.view.messages = []
  recorded : s.history.Pairwise Before
  conn : ∀ m ∈ s.history, m.connID = s.connID
  sequence : ∀ m ∈ s.history, m.sequence ≤ s.lastSequence

/-- The clock does not go back, and no answer is applied while one of its messages
is still on its way in the feed. -/
def InTime (s : Session) : Op → Prop
  | .process m => ∀ old ∈ s.log, old.timestamp ≤ m.timestamp
  | .apply i => ∀ res replace, s.answers[i]? = some (res, replace) → ∀ m ∈ res.messages, m ∉ s.feed
  | _ => True

structure Ordered (s : Session) : Prop where
  log : s.log.Pairwise Before
  conn : ∀ m ∈ s.log, m.connID = s.connID
  sequence : ∀ m ∈ s.log, m.sequence ≤ s.lastSequence
  feed : s.feed <:+ s.log.filter fun m => s.view.exact m || s.view.below m
  answers : ∀ a ∈ s.answers, a.1.messages.Sublist (s.log.filter s.view.exact)
  pages : ∀ p ∈ s.pages, Settled s.log s.feed s.view.subject p.1
  view : Settled s.log s.feed s.view.subject s.view.messages

variable {s t : Session} {msgs : List NatsMessage}

theorem applyHistory_subject (v : LiveView) (res : HistoryResponse) (replace : Bool) :
    (v.applyHistory res replace).subject = v.subject := by
  simp only [LiveView.applyHistory]

namespace Ordered

/-- A watched message that the feed no longer has is before all it has. -/
theorem settles (order : s.Ordered) (part : msgs.Sublist (s.log.filter s.view.exact))
    (taken : ∀ m ∈ msgs, m ∉ s.feed) : Settled s.log s.feed s.view.subject msgs := by
  have member {m : NatsMessage} (here : m ∈ msgs) : m ∈ s.log ∧ s.view.exact m = true :=
    List.mem_filter.mp (part.subset here)
  refine ⟨(order.log.sublist List.filter_sublist).sublist part, fun m here => (member here).1,
    fun m here => of_decide_eq_true (member here).2, fun m here later fed => ?_⟩
  obtain ⟨earlier, split⟩ := order.feed
  have ordered : (earlier ++ s.feed).Pairwise Before := split ▸ order.log.sublist List.filter_sublist
  have listed : m ∈ earlier ++ s.feed := by
    rw [split]
    exact List.mem_filter.mpr ⟨(member here).1, by rw [(member here).2, Bool.true_or]⟩
  have before := (List.mem_append.mp listed).resolve_right (taken m here)
  exact (List.pairwise_append.mp ordered).2.2 m before later fed

end Ordered

theorem watched_same (subject : t.view.subject = s.view.subject) :
    t.view.exact = s.view.exact ∧ t.view.below = s.view.below := by
  constructor <;> funext m <;> simp only [LiveView.exact, LiveView.below, subject]

namespace Ordered

theorem process (order : s.Ordered) (m : NatsMessage) (time : s.InTime (.process m)) :
    (s.step (.process m)).Ordered := by
  have logs : (s.step (.process m)).log =
      s.log ++ [{ m with connID := s.connID, sequence := s.lastSequence + 1 }] :=
    (List.append_assoc ..).symm
  generalize made : { m with connID := s.connID, sequence := s.lastSequence + 1 } = new at logs
  have after : ∀ old ∈ s.log, Before old new := by
    intro old member
    have clock := time old member
    have count := order.sequence old member
    subst made
    rw [before_iff]
    simp only
    omega
  have mem {x : NatsMessage} (member : x ∈ (s.step (.process m)).log) : x ∈ s.log ∨ x = new := by
    rwa [logs, List.mem_append, List.mem_singleton] at member
  have kept {l : List NatsMessage} (settled : Settled s.log s.feed s.view.subject l) :
      Settled (s.step (.process m)).log (s.step (.process m)).feed s.view.subject l := by
    refine settled.transfer (fun old member => ?_) fun x fed => ?_
    · rw [logs]
      exact List.mem_append_left _ member
    · simp only [step, made] at fed
      split at fed
      · rcases List.mem_append.mp fed with old | here
        · exact Or.inl old
        · exact Or.inr (List.mem_singleton.mp here ▸ after)
      · exact Or.inl fed
  refine ⟨?_, ?_, ?_, ?_, ?_, fun p member => kept (order.pages p member), kept order.view⟩
  · rw [logs, List.pairwise_append]
    refine ⟨order.log, List.pairwise_singleton _ _, fun old member x here => ?_⟩
    exact List.mem_singleton.mp here ▸ after old member
  · intro x member
    rcases mem member with old | rfl
    · exact order.conn x old
    · exact made ▸ rfl
  · intro x member
    rcases mem member with old | rfl
    · exact (order.sequence x old).trans (Nat.le_succ _)
    · exact made ▸ le_refl _
  · obtain ⟨earlier, split⟩ := order.feed
    rw [logs, List.filter_append]
    simp only [step, made]
    by_cases wanted : (s.view.exact new || s.view.below new) = true
    · refine ⟨earlier, ?_⟩
      rw [if_pos wanted, ← List.append_assoc, split, List.filter_cons_of_pos (by exact wanted)]
      rfl
    · refine ⟨earlier, ?_⟩
      rw [if_neg wanted, split, List.filter_cons_of_neg (by exact wanted)]
      exact (List.append_nil _).symm
  · intro a member
    rw [logs, List.filter_append]
    exact (order.answers a member).trans (List.sublist_append_left _ _)

/-- A step that records nothing. -/
theorem unrecorded (order : s.Ordered) (log : t.log = s.log) (conn : t.connID = s.connID)
    (sequence : t.lastSequence = s.lastSequence) (subject : t.view.subject = s.view.subject)
    (feed : t.feed <:+ s.feed)
    (answers : ∀ a ∈ t.answers, a.1.messages.Sublist (s.log.filter s.view.exact))
    (pages : ∀ p ∈ t.pages, Settled s.log s.feed s.view.subject p.1)
    (view : Settled s.log t.feed s.view.subject t.view.messages) : t.Ordered := by
  obtain ⟨exact, below⟩ := watched_same subject
  refine ⟨log ▸ order.log, ?_, ?_, ?_, ?_, fun p member => ?_, ?_⟩
  · rw [log, conn]
    exact order.conn
  · rw [log, sequence]
    exact order.sequence
  · rw [log, exact, below]
    exact feed.trans order.feed
  · rw [log, exact]
    exact answers
  · rw [log, subject]
    exact (pages p member).transfer (fun _ => id) fun m fed => Or.inl (feed.subset fed)
  · rw [log, subject]
    exact view

theorem store (order : s.Ordered) : (s.step .store).Ordered := by
  simp only [step]
  cases storing : s.storing with
  | nil => exact order
  | cons m rest =>
    have log : Session.log { s with storing := rest, history := s.history ++ [m] } = s.log := by
      simp only [Session.log, storing, List.append_assoc, List.singleton_append]
    exact order.unrecorded log rfl rfl rfl List.suffix_rfl order.answers order.pages order.view

theorem deliver (order : s.Ordered) (n : Nat) : (s.step (.deliver n)).Ordered := by
  have split : s.feed.take n ++ s.feed.drop n = s.feed := List.take_append_drop n s.feed
  have feed : s.feed.Pairwise Before :=
    (order.log.sublist List.filter_sublist).sublist order.feed.sublist
  have part : ∀ m ∈ s.feed.take n, m ∈ s.log := fun m member =>
    List.mem_of_mem_filter (order.feed.subset (List.mem_of_mem_take member))
  refine order.unrecorded rfl rfl rfl rfl (List.drop_suffix _ _) order.answers order.pages ?_
  exact Settled.ingestFeed (split.symm ▸ feed) part (split.symm ▸ order.view)

theorem ask (order : s.Ordered) (keep : NatsMessage → Bool) (limit branchLimit : Nat)
    (replace : Bool) : (s.step (.ask keep limit branchLimit replace)).Ordered := by
  refine order.unrecorded rfl rfl rfl rfl List.suffix_rfl (fun a member => ?_) order.pages order.view
  rcases List.mem_append.mp member with old | new
  · exact order.answers a old
  · rw [List.mem_singleton.mp new]
    refine (newest_sublist _ _).trans (List.filter_sublist.trans ?_)
    exact (List.sublist_append_left _ _).filter _

theorem apply (order : s.Ordered) {i : Nat} (time : s.InTime (.apply i)) :
    (s.step (.apply i)).Ordered := by
  simp only [step]
  cases found : s.answers[i]? with
  | none => exact order
  | some answer =>
    obtain ⟨res, replace⟩ := answer
    have settled := order.settles (order.answers _ (List.mem_of_getElem? found)) (time res replace found)
    exact order.unrecorded rfl rfl rfl (applyHistory_subject _ _ _) List.suffix_rfl
      (fun a member => order.answers a (List.mem_of_mem_eraseIdx member)) order.pages
      (order.view.applyHistory order.log settled replace)

/-- The feed has delivered what is older than a message of the view. -/
theorem older_settled (order : s.Ordered) {cursor : NatsMessage} (held : cursor ∈ s.view.messages)
    (keep : NatsMessage → Bool) (limit : Nat) :
    Settled s.log s.feed s.view.subject (s.older cursor keep limit) := by
  have part : (s.older cursor keep limit).Sublist
      ((s.history.filter s.view.exact).filter fun m => byArrival m cursor < 0 && keep m) :=
    newest_sublist _ _
  have whole : (s.history.filter s.view.exact).Sublist (s.log.filter s.view.exact) :=
    (List.sublist_append_left _ _).filter _
  refine order.settles (part.trans (List.filter_sublist.trans whole)) fun m member fed => ?_
  have passed := (List.mem_filter.mp (part.subset member)).2
  rw [Bool.and_eq_true, decide_eq_true_eq] at passed
  have before : Before m cursor := passed.1
  exact Before.irrefl m (before.trans (order.view.ahead cursor held m fed))

theorem askOlder (order : s.Ordered) (keep : NatsMessage → Bool) (limit : Nat) (atOldest : Bool) :
    (s.step (.askOlder keep limit atOldest)).Ordered := by
  simp only [step]
  cases head : s.view.messages.head? with
  | none => exact order
  | some cursor =>
    refine order.unrecorded rfl rfl rfl rfl List.suffix_rfl order.answers (fun p member => ?_) order.view
    rcases List.mem_append.mp member with old | new
    · exact order.pages p old
    · rw [List.mem_singleton.mp new]
      exact order.older_settled (List.mem_of_head? head) keep limit

theorem prepend (order : s.Ordered) (i : Nat) : (s.step (.prepend i)).Ordered := by
  simp only [step]
  cases found : s.pages[i]? with
  | none => exact order
  | some page =>
    obtain ⟨msgs, atOldest⟩ := page
    have settled := order.pages _ (List.mem_of_getElem? found)
    exact order.unrecorded rfl rfl rfl rfl List.suffix_rfl order.answers
      (fun p member => order.pages p (List.mem_of_mem_eraseIdx member))
      (order.view.prependOlder order.log settled atOldest)

theorem step (order : s.Ordered) {op : Op} (time : s.InTime op) : (s.step op).Ordered := by
  cases op with
  | process m => exact order.process m time
  | store => exact order.store
  | deliver n => exact order.deliver n
  | ask keep limit branchLimit replace => exact order.ask keep limit branchLimit replace
  | apply i => exact order.apply time
  | askOlder keep limit atOldest => exact order.askOlder keep limit atOldest
  | prepend i => exact order.prepend i

end Ordered

theorem Opened.ordered (opened : s.Opened) : s.Ordered := by
  have log : s.log = s.history := by rw [Session.log, opened.storing, List.append_nil]
  refine ⟨log ▸ opened.recorded, log ▸ opened.conn, log ▸ opened.sequence, ?_, ?_, ?_, ?_⟩
  · rw [opened.feed]
    exact List.nil_suffix
  · simp [opened.answers]
  · simp [opened.pages]
  · rw [opened.view]
    exact ⟨.nil, by simp, by simp, by simp⟩

def sampleSession : Session where
  connID := ['c']
  lastSequence := 0
  feed := []
  storing := []
  history := []
  answers := []
  pages := []
  view := emptyView ['s']

def sampleMessage : NatsMessage where
  subject := ['s']
  payload := ['x']
  payloadType := .string
  headers := []
  timestamp := 1
  reply := []
  size := 1
  sequence := 0
  connID := []

theorem sampleSession_opened : sampleSession.Opened where
  feed := rfl
  storing := rfl
  answers := rfl
  pages := rfl
  view := rfl
  recorded := .nil
  conn _ member := absurd member List.not_mem_nil
  sequence _ member := absurd member List.not_mem_nil

end Session
end NatsExplorer.Client
