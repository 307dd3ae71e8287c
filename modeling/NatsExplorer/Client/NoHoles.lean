import NatsExplorer.Client.Viewing
import NatsExplorer.Client.FeedOrder
import Mathlib.Data.List.Perm.Basic

/-! When a view has no holes. A message that is held is followed in the list by every newer one but those
still in the feed; what is cut off is the front of the list, so this stays. -/
namespace NatsExplorer.Client
open Go
variable {log feed batch l l' msgs res : List NatsMessage} {m r c : NatsMessage} {n : Nat}

section Newest

theorem newest_suffix (n : Nat) (l : List NatsMessage) : newest n l <:+ l := List.drop_suffix _ _

theorem newest_all (fits : l.length ≤ n) : newest n l = l := by
  unfold newest
  rw [Nat.sub_eq_zero_of_le fits, List.drop_zero]

theorem length_newest (n : Nat) (l : List NatsMessage) : (newest n l).length = min n l.length := by
  unfold newest
  rw [List.length_drop]
  omega

/-- What is lost made room. -/
theorem newest_or (member : r ∈ l) : r ∈ newest n l ∨ (newest n l).length = n := by
  rw [length_newest]
  by_cases fits : l.length ≤ n
  · exact Or.inl (by rwa [newest_all fits])
  · exact Or.inr (Nat.min_eq_left (by omega))

theorem getLast_newest (some : 0 < n) (last : m ∈ l.getLast?) : m ∈ newest n l := by
  obtain ⟨rest, rfl⟩ := List.getLast?_eq_some_iff.mp last
  unfold newest
  rw [List.drop_append_of_le_length (by rw [List.length_append, List.length_singleton]; omega)]
  exact List.mem_append_right _ (List.mem_singleton_self _)

/-- Of a sorted list that has enough newer than a message, the newest are newer. -/
theorem newest_newer (sorted : l.Pairwise fun a b => byArrival a b ≤ 0) (enough : n ≤ l.countP (byArrival r · < 0))
    (member : m ∈ newest n l) : Before r m := by
  by_contra older
  obtain ⟨front, split⟩ := newest_suffix n l
  have none : front.countP (byArrival r · < 0) = 0 := by
    refine List.countP_eq_zero.mpr fun x lost newer => older ?_
    rw [← split] at sorted
    have order := byArrival_le.mp ((List.pairwise_append.mp sorted).2.2 x lost m member)
    have newer : byArrival r x < 0 := of_decide_eq_true newer
    change Before r x at newer
    rw [before_iff] at *
    omega
  have missed : (newest n l).countP (byArrival r · < 0) ≠ (newest n l).length := fun all =>
    older (show byArrival r m < 0 from of_decide_eq_true (List.countP_eq_length.mp all m member))
  have some := List.countP_le_length (p := (byArrival r · < 0)) (l := newest n l)
  have short := length_newest n l
  have total := congrArg (List.countP (byArrival r · < 0)) split
  rw [List.countP_append, none] at total
  omega

/-- In a sorted list nothing newer than what is left is cut off. -/
theorem newest_later (sorted : l.Pairwise fun a b => byArrival a b ≤ 0) (left : m ∈ newest n l) (member : r ∈ l)
    (after : Before m r) : r ∈ newest n l := by
  obtain ⟨front, split⟩ := newest_suffix n l
  rw [← split] at sorted member
  rcases List.mem_append.mp member with lost | kept
  · exact absurd after (byArrival_le.mp ((List.pairwise_append.mp sorted).2.2 r lost m left))
  · exact kept

theorem newest_top (order : log.Pairwise Before) (known : ∀ m ∈ l, m ∈ log) (sorted : l.Pairwise fun a b => byArrival a b ≤ 0)
    (some : 0 < n) (member : r ∈ l) (top : ∀ m ∈ log, ¬ Before r m) : r ∈ newest n l := by
  rcases newest_or (n := n) member with kept | full
  · exact kept
  · obtain ⟨m, left⟩ := List.exists_mem_of_length_pos (full ▸ some)
    have here := known m ((newest_sublist n l).subset left)
    by_cases same : r = m
    · exact same ▸ left
    · rcases Settled.comparable order (known r member) here same with after | before
      · exact absurd after (top m here)
      · exact newest_later sorted left member before

end Newest

/-- A held message is followed by every newer one but those in the feed. -/
def Follows (log feed l : List NatsMessage) : Prop :=
  ∀ p m q, l = p ++ m :: q → ∀ r ∈ log, Before m r → r ∈ q ∨ r ∈ feed

namespace Follows

theorem suffix (follows : Follows log feed l) (part : l' <:+ l) : Follows log feed l' := by
  obtain ⟨front, rfl⟩ := part
  rintro p m q rfl
  exact follows (front ++ p) m q (by rw [List.append_assoc])

theorem mem (follows : Follows log feed l) (member : m ∈ l) (known : r ∈ log) (newer : Before m r) : r ∈ l ∨ r ∈ feed := by
  obtain ⟨p, q, rfl⟩ := List.append_of_mem member
  exact (follows p m q rfl r known newer).imp_left fun there => List.mem_append_right _ (List.mem_cons_of_mem _ there)

theorem of_sorted (sorted : l.Pairwise fun a b => byArrival a b ≤ 0)
    (newer : ∀ m ∈ l, ∀ r ∈ log, Before m r → r ∈ l ∨ r ∈ feed) : Follows log feed l := by
  rintro p m q rfl r known after
  refine (newer m (by simp) r known after).imp_left fun there => ?_
  rcases List.mem_append.mp there with before | here
  · have order := (List.pairwise_append.mp sorted).2.2 r before m List.mem_cons_self
    exact absurd after (byArrival_le.mp order)
  · rcases List.mem_cons.mp here with rfl | later
    · exact absurd after (Before.irrefl r)
    · exact later

/-- What comes later in the log is newer. -/
theorem later {p q : List NatsMessage} (order : (p ++ m :: q).Pairwise Before) (known : r ∈ p ++ m :: q) (after : Before m r) :
    r ∈ q := by
  rcases List.mem_append.mp known with before | here
  · have back := (List.pairwise_append.mp order).2.2 r before m List.mem_cons_self
    exact absurd (after.trans back) (Before.irrefl m)
  · rcases List.mem_cons.mp here with rfl | later
    · exact absurd after (Before.irrefl r)
    · exact later

theorem ingest {past : List NatsMessage} {e : NatsMessage → Bool} (order : (past ++ (batch ++ feed).filter e).Pairwise Before)
    (exact : ∀ m ∈ past, e m) (follows : Follows (past ++ (batch ++ feed).filter e) (batch ++ feed) l) :
    Follows (past ++ (batch ++ feed).filter e) feed (l ++ batch.filter e) := by
  intro p m q split r known after
  have matching : e r = true := (List.mem_append.mp known).elim (exact r) fun coming => (List.mem_filter.mp coming).2
  have fromBatch (front : List NatsMessage) (isBatch : batch.filter e = front ++ m :: q) : r ∈ q ∨ r ∈ feed := by
    rw [List.filter_append, isBatch] at order known
    have order' : ((past ++ front) ++ m :: (q ++ feed.filter e)).Pairwise Before := by simpa using order
    have known' : r ∈ (past ++ front) ++ m :: (q ++ feed.filter e) := by simpa using known
    exact (List.mem_append.mp (later order' known' after)).imp_right List.mem_of_mem_filter
  rcases List.append_eq_append_iff.mp split with ⟨front, -, isBatch⟩ | ⟨rest, isHeld, isRest⟩
  · exact fromBatch front isBatch
  · cases rest with
    | nil => exact fromBatch [] isRest.symm
    | cons m' rest =>
      obtain ⟨rfl, rfl⟩ := List.cons.inj isRest
      rcases follows p m rest isHeld r known after with held | coming
      · exact Or.inl (List.mem_append_left _ held)
      · rcases List.mem_append.mp coming with now | later
        · exact Or.inl (List.mem_append_right _ (List.mem_filter.mpr ⟨now, matching⟩))
        · exact Or.inr later

end Follows

/-- No two messages of the log have one key. -/
def Keyed (log : List NatsMessage) : Prop := ∀ a ∈ log, ∀ b ∈ log, messageKey a = messageKey b → a = b

theorem mem_unseen_iff (keyed : Keyed log) (seen : ∀ m ∈ l, m ∈ log) (known : ∀ m ∈ msgs, m ∈ log) :
    m ∈ unseen l msgs ↔ m ∈ msgs ∧ m ∉ l := by
  refine ⟨mem_unseen, fun ⟨member, new⟩ => List.mem_filter.mpr ⟨member, decide_eq_true fun old => ?_⟩⟩
  obtain ⟨m', held, same⟩ := List.mem_map.mp old
  exact new (keyed m' (seen m' held) m (known m member) same ▸ held)

/-- What a view holds of the log, where `new` is what came in through the feed. -/
structure Held (log new feed : List NatsMessage) (v : LiveView) : Prop where
  held : ∀ m ∈ v.messages, m ∈ log
  follows : Follows log feed v.messages
  page : maxSubjectMessages ≤ v.cap
  ceiling : v.cap ≤ maxLoadedMessages
  fits : v.messages.length ≤ v.cap
  newest : ∀ m ∈ new.getLast?, m ∉ feed → m ∈ v.messages
  oldest : v.atOldest = true → (∀ r ∈ log, r ∈ v.messages ∨ r ∈ feed) ∨ maxLoadedMessages ≤ v.messages.length

/-- An answer: the newest of what was in the history. -/
structure Answered (log msgs : List NatsMessage) : Prop where
  known : ∀ m ∈ msgs, m ∈ log
  ordered : msgs.Pairwise Before
  size : msgs.length ≤ maxSubjectMessages
  newer : ∀ m ∈ msgs, ∀ r ∈ log, Before m r → r ∈ msgs ∨ ∀ m' ∈ msgs, Before m' r

/-- The messages before a cursor, the newest first of them at least. -/
structure Paged (log : List NatsMessage) (c : NatsMessage) (msgs : List NatsMessage) (more : Bool) : Prop where
  cursor : c ∈ log
  known : ∀ m ∈ msgs, m ∈ log
  before : ∀ m ∈ msgs, Before m c
  newer : ∀ m ∈ msgs, ∀ r ∈ log, Before m r → Before r c → r ∈ msgs
  all : more = false → ∀ r ∈ log, Before r c → r ∈ msgs

/-- What is newer than an answer and came in is held, unless a page of messages is. -/
def Kept (log feed l res : List NatsMessage) : Prop :=
  ∀ r ∈ log, r ∉ feed → (∀ m ∈ res, Before m r) → r ∈ l ∨ maxSubjectMessages ≤ l.length

variable {new log' new' feed' : List NatsMessage} {v : LiveView}

section Sending

theorem Held.send (held : Held log new feed v) (grows : ∀ m ∈ log, m ∈ log') (fed : ∀ m ∈ feed, m ∈ feed')
    (coming : ∀ r ∈ log', r ∈ log ∨ r ∈ feed') (last : ∀ m ∈ new'.getLast?, m ∈ new.getLast? ∨ m ∈ feed') :
    Held log' new' feed' v where
  held := fun m member => grows m (held.held m member)
  follows := fun p m q split r known after => by
    rcases coming r known with old | new
    · exact (held.follows p m q split r old after).imp_right (fed r)
    · exact Or.inr new
  page := held.page
  ceiling := held.ceiling
  fits := held.fits
  newest := fun m isLast absent => (last m isLast).elim
    (fun old => held.newest m old fun there => absent (fed m there)) fun there => absurd there absent
  oldest := fun atOldest => (held.oldest atOldest).imp_left fun all r known => by
    rcases coming r known with old | new
    · exact (all r old).imp_right (fed r)
    · exact Or.inr new

theorem Kept.send (kept : Kept log feed l res) (fed : ∀ m ∈ feed, m ∈ feed') (coming : ∀ r ∈ log', r ∈ log ∨ r ∈ feed') :
    Kept log' feed' l res := fun r known absent after =>
  kept r ((coming r known).resolve_right absent) (fun there => absent (fed r there)) after

theorem Answered.send (answered : Answered log msgs) (grows : ∀ m ∈ log, m ∈ log')
    (later : ∀ r ∈ log', r ∈ log ∨ ∀ old ∈ log, Before old r) : Answered log' msgs where
  known := fun m member => grows m (answered.known m member)
  ordered := answered.ordered
  size := answered.size
  newer := fun m member r known after => (later r known).elim (fun old => answered.newer m member r old after)
    fun new => Or.inr fun m' member' => new m' (answered.known m' member')

theorem Paged.send {more : Bool} (paged : Paged log c msgs more) (grows : ∀ m ∈ log, m ∈ log')
    (later : ∀ r ∈ log', r ∈ log ∨ ∀ old ∈ log, Before old r) : Paged log' c msgs more where
  cursor := grows c paged.cursor
  known := fun m member => grows m (paged.known m member)
  before := paged.before
  newer := fun m member r known after before => (later r known).elim (fun old => paged.newer m member r old after before)
    fun new => absurd ((new c paged.cursor).trans before) (Before.irrefl c)
  all := fun whole r known before => (later r known).elim (fun old => paged.all whole r old before)
    fun new => absurd ((new c paged.cursor).trans before) (Before.irrefl c)

end Sending

section Ingesting

theorem LiveView.ingestFeed_messages (fits : v.messages.length ≤ v.cap) :
    (v.ingestFeed batch).messages = newest v.cap (v.messages ++ batch.filter v.exact) := by
  show (if batch.filter v.exact = [] then v.messages else newest v.cap (v.messages ++ batch.filter v.exact)) = _
  split
  · next none =>
    rw [none, List.append_nil, newest_all fits]
  · rfl

theorem Held.ingest {past done : List NatsMessage} (held : Held log new (batch ++ feed) v)
    (isLog : log = past ++ (batch ++ feed).filter v.exact) (isNew : new = done ++ (batch ++ feed).filter v.exact)
    (order : log.Pairwise Before) (exact : ∀ m ∈ log, v.exact m) (part : ∀ m ∈ new, m ∈ log)
    (fitting : v.atOldest = true →
      v.messages.length + (batch.filter v.exact).length ≤ v.cap ∨ maxLoadedMessages ≤ v.cap) :
    Held log new feed (v.ingestFeed batch) := by
  have messages : (v.ingestFeed batch).messages =
      NatsExplorer.Client.newest v.cap (v.messages ++ batch.filter v.exact) := LiveView.ingestFeed_messages held.fits
  have came (m : NatsMessage) (known : m ∈ log) (absent : m ∉ feed) (there : m ∈ batch ++ feed) : m ∈ batch.filter v.exact :=
    List.mem_filter.mpr ⟨(List.mem_append.mp there).resolve_right absent, exact m known⟩
  refine {
    held := fun m member => ?_
    follows := ?_
    page := held.page
    ceiling := held.ceiling
    fits := ?_
    newest := fun m isLast absent => ?_
    oldest := fun atOldest => ?_ }
  · rw [messages] at member
    rcases List.mem_append.mp ((newest_sublist _ _).subset member) with old | new
    · exact held.held m old
    · rw [isLog, List.filter_append]
      exact List.mem_append_right _ (List.mem_append_left _ new)
  · rw [messages]
    have follows := held.follows
    subst isLog
    exact (follows.ingest order fun m member => exact m (List.mem_append_left _ member)).suffix (newest_suffix _ _)
  · rw [messages, length_newest]
    exact Nat.min_le_left _ _
  · rw [messages]
    have mine := part m (List.mem_of_mem_getLast? isLast)
    have nothing : feed.filter v.exact = [] := by
      by_contra some
      rw [isNew, List.filter_append, ← List.append_assoc, List.getLast?_append_of_ne_nil _ some] at isLast
      exact absent (List.mem_of_mem_filter (List.mem_of_mem_getLast? isLast))
    rw [isNew, List.filter_append, nothing, List.append_nil] at isLast
    by_cases none : batch.filter v.exact = []
    · rw [none, List.append_nil, newest_all held.fits]
      refine held.newest m (by rwa [isNew, List.filter_append, nothing, List.append_nil]) fun there => ?_
      exact absurd (came m mine absent there) (by rw [none]; exact List.not_mem_nil)
    · rw [List.getLast?_append_of_ne_nil _ none] at isLast
      refine getLast_newest (Nat.lt_of_lt_of_le (by decide) held.page) ?_
      rwa [List.getLast?_append_of_ne_nil _ none]
  · rw [messages, length_newest, List.length_append]
    by_cases room : v.messages.length + (batch.filter v.exact).length ≤ v.cap
    · refine (held.oldest atOldest).imp (fun all r known => ?_) fun many => by omega
      rw [newest_all (by rwa [List.length_append])]
      by_cases later : r ∈ feed
      · exact Or.inr later
      · exact Or.inl (List.mem_append.mpr ((all r known).imp_right (came r known later)))
    · exact Or.inr (by have full := (fitting atOldest).resolve_left room; omega)

theorem Kept.ingest (kept : Kept log (batch ++ feed) v.messages res) (fits : v.messages.length ≤ v.cap)
    (page : maxSubjectMessages ≤ v.cap) (exact : ∀ m ∈ log, v.exact m) : Kept log feed (v.ingestFeed batch).messages res := by
  rw [LiveView.ingestFeed_messages fits]
  intro r known absent after
  have came : r ∈ v.messages ++ batch.filter v.exact ∨ maxSubjectMessages ≤ (v.messages ++ batch.filter v.exact).length := by
    by_cases now : r ∈ batch
    · exact Or.inl (List.mem_append_right _ (List.mem_filter.mpr ⟨now, exact r known⟩))
    · refine (kept r known (fun there => (List.mem_append.mp there).elim now absent) after).imp (List.mem_append_left _) ?_
      rw [List.length_append]
      omega
  rcases came with held | many
  · exact (newest_or held).imp_right fun full => by rwa [full]
  · right
    rw [length_newest]
    exact Nat.le_min.mpr ⟨page, many⟩

end Ingesting

section Applying

/-- The list that `applyHistory` cuts. -/
theorem applyHistory_messages {answer : HistoryResponse} (keyed : Keyed log) (held : ∀ m ∈ v.messages, m ∈ log)
    (answered : Answered log answer.messages) :
    ∃ joined, (v.applyHistory answer false).messages = newest maxSubjectMessages joined ∧
      (joined.Pairwise fun a b => byArrival a b ≤ 0) ∧ (∀ m, m ∈ joined ↔ m ∈ answer.messages ∨ m ∈ v.messages) ∧
      ∀ r, (∀ m ∈ answer.messages, Before m r) → (∀ m ∈ v.messages, Before r m) →
        v.messages.length ≤ joined.countP (byArrival r · < 0) := by
  have extra (m : NatsMessage) : m ∈ unseen answer.messages v.messages ↔ m ∈ v.messages ∧ m ∉ answer.messages :=
    mem_unseen_iff keyed answered.known held
  refine ⟨if unseen answer.messages v.messages = [] then answer.messages
    else sort byArrival (answer.messages ++ unseen answer.messages v.messages), ?_, ?_, fun m => ?_, fun r older newer => ?_⟩
  · simp only [LiveView.applyHistory, Bool.false_eq_true, if_false]
  · split
    · exact answered.ordered.imp fun {a b} before => byArrival_le.mpr fun after => Before.irrefl a (before.trans after)
    · exact sort_sorted _
  · split
    · next none =>
      refine (or_iff_left_of_imp fun held => ?_).symm
      by_contra new
      exact absurd ((extra m).mpr ⟨held, new⟩) (by rw [none]; exact List.not_mem_nil)
    · rw [(sort_perm _ _).mem_iff, List.mem_append, extra]
      tauto
  · have all : unseen answer.messages v.messages = v.messages := by
      refine List.filter_eq_self.mpr fun m member => (List.mem_filter.mp ((extra m).mpr ⟨member, fun there => ?_⟩)).2
      exact Before.irrefl r ((newer m member).trans (older m there))
    have count : v.messages.countP (byArrival r · < 0) = v.messages.length :=
      List.countP_eq_length.mpr fun m member => decide_eq_true (newer m member)
    rw [all]
    split
    · next none => simp [none]
    · rw [(sort_perm _ _).countP_eq, List.countP_append, count]
      exact Nat.le_add_left _ _

/-- Everything held is newer than a message that came in and is not. -/
theorem Held.newer_than (held : Held log new feed v) (order : log.Pairwise Before) (known : r ∈ log) (absent : r ∉ feed)
    (lost : r ∉ v.messages) : ∀ m ∈ v.messages, Before r m := by
  intro m member
  have other : r ≠ m := fun same => lost (same ▸ member)
  refine (Settled.comparable order known (held.held m member) other).resolve_right fun before => ?_
  exact (held.follows.mem member known before).elim lost absent

theorem Held.apply {answer : HistoryResponse} (held : Held log new feed v) (order : log.Pairwise Before) (keyed : Keyed log)
    (answered : Answered log answer.messages) (kept : Kept log feed v.messages answer.messages)
    (top : ∀ m ∈ new.getLast?, ∀ r ∈ log, ¬ Before m r) : Held log new feed (v.applyHistory answer false) := by
  obtain ⟨joined, messages, sorted, members, count⟩ := applyHistory_messages keyed held.held answered
  have known : ∀ m ∈ joined, m ∈ log := fun m member => ((members m).mp member).elim (answered.known m) (held.held m)
  refine {
    held := fun m member => known m ((newest_sublist _ _).subset (messages ▸ member))
    follows := ?_
    page := Nat.le_refl _
    ceiling := (by decide : maxSubjectMessages ≤ maxLoadedMessages)
    fits := ?_
    newest := fun m isLast absent => ?_
    oldest := nofun }
  · rw [messages]
    refine .of_sorted (sorted.sublist (newest_sublist _ _)) fun m member r here after => ?_
    by_cases joins : r ∈ joined
    · exact Or.inl (newest_later sorted member joins after)
    by_contra missing
    obtain ⟨-, absent⟩ := not_or.mp missing
    have lost : r ∉ v.messages := fun there => joins ((members r).mpr (Or.inr there))
    have newer := held.newer_than order here absent lost
    -- What came in after the answer and is lost made room for a page of newer messages.
    have fromAnswer : m ∈ answer.messages := ((members m).mp ((newest_sublist _ _).subset member)).resolve_right fun there =>
      Before.irrefl m (after.trans (newer m there))
    have older : ∀ m' ∈ answer.messages, Before m' r := (answered.newer m fromAnswer r here after).resolve_left fun there =>
      joins ((members r).mpr (Or.inl there))
    have many := (kept r here absent older).resolve_left lost
    exact Before.irrefl m (after.trans (newest_newer sorted (many.trans (count r older newer)) member))
  · rw [messages, length_newest]
    exact Nat.min_le_left _ _
  · rw [messages]
    have member := (members m).mpr (Or.inr (held.newest m isLast absent))
    exact newest_top order known sorted (by decide) member (top m isLast)

theorem Held.replace {answer : HistoryResponse} (held : Held log new feed v) (order : log.Pairwise Before)
    (answered : Answered log answer.messages) (kept : Kept log feed v.messages answer.messages)
    (top : ∀ m ∈ new.getLast?, ∀ r ∈ log, ¬ Before m r)
    (fitting : ∀ m ∈ v.messages, m ∈ answer.messages ∨ ∃ r ∈ answer.messages, Before m r) :
    Held log new feed (v.applyHistory answer true) := by
  have messages : (v.applyHistory answer true).messages = answer.messages := by
    simp only [LiveView.applyHistory, if_true]
    exact newest_all answered.size
  refine {
    held := fun m member => answered.known m (messages ▸ member)
    follows := ?_
    page := Nat.le_refl _
    ceiling := (by decide : maxSubjectMessages ≤ maxLoadedMessages)
    fits := by rw [messages]; exact answered.size
    newest := fun m isLast absent => ?_
    oldest := fun atOldest => Bool.noConfusion atOldest }
  · rw [messages]
    refine .of_sorted (answered.ordered.imp fun {a b} before => byArrival_le.mpr fun after =>
      Before.irrefl a (before.trans after)) fun m member r here after => ?_
    rcases answered.newer m member r here after with there | older
    · exact Or.inl there
    by_contra missing
    obtain ⟨-, absent⟩ := not_or.mp missing
    -- The view has nothing newer than the answer.
    have none : ∀ m' ∈ v.messages, ¬ Before r m' ∧ r ≠ m' := by
      intro m' held'
      rcases fitting m' held' with there | ⟨m'', there, before⟩
      · exact ⟨fun before => Before.irrefl r (before.trans (older m' there)), (older m' there).ne.symm⟩
      · exact ⟨fun after => Before.irrefl r ((after.trans before).trans (older m'' there)),
          fun same => Before.irrefl r (same ▸ before |>.trans (older m'' there))⟩
    have lost : r ∉ v.messages := fun there => (none r there).2 rfl
    have many := (kept r here absent older).resolve_left lost
    obtain ⟨m', held'⟩ := List.exists_mem_of_length_pos (Nat.lt_of_lt_of_le (by decide) many)
    exact (none m' held').1 (held.newer_than order here absent lost m' held')
  · rw [messages]
    rcases fitting m (held.newest m isLast absent) with there | ⟨r, there, after⟩
    · exact there
    · exact absurd after (top m isLast r (answered.known r there))

end Applying

section Prepending
variable {more : Bool}

/-- The list that `prependOlder` cuts, and its new cap. -/
theorem prependOlder_messages (held : Held log new feed v) (keyed : Keyed log) (paged : Paged log c msgs more) :
    ∃ joined, (v.prependOlder msgs (!more)).messages = newest (v.prependOlder msgs (!more)).cap joined ∧
      (joined = v.messages ∨ joined.Pairwise fun a b => byArrival a b ≤ 0) ∧
      (∀ m, m ∈ joined ↔ m ∈ msgs ∨ m ∈ v.messages) ∧ v.messages.length ≤ joined.length ∧
      (v.prependOlder msgs (!more)).cap = min maxLoadedMessages (max v.cap (joined.length + maxSubjectMessages)) ∧
      (v.prependOlder msgs (!more)).atOldest = (!more || maxLoadedMessages ≤ joined.length) := by
  refine ⟨if unseen v.messages msgs = [] then v.messages else sort byArrival (unseen v.messages msgs ++ v.messages),
    rfl, ?_, fun m => ?_, ?_, rfl, rfl⟩
  · split
    · exact Or.inl rfl
    · exact Or.inr (sort_sorted _)
  · have older : m ∈ unseen v.messages msgs ↔ m ∈ msgs ∧ m ∉ v.messages := mem_unseen_iff keyed held.held paged.known
    split
    · next none =>
      refine (or_iff_right_of_imp fun there => ?_).symm
      by_contra new
      exact absurd (older.mpr ⟨there, new⟩) (by rw [none]; exact List.not_mem_nil)
    · rw [(sort_perm _ _).mem_iff, List.mem_append, older]
      tauto
  · split
    · exact Nat.le_refl _
    · rw [(sort_perm _ _).length_eq, List.length_append]
      exact Nat.le_add_left _ _

theorem Held.prepend (held : Held log new feed v) (order : log.Pairwise Before) (keyed : Keyed log)
    (paged : Paged log c msgs more) (top : ∀ m ∈ new.getLast?, ∀ r ∈ log, ¬ Before m r)
    (coming : c ∈ feed → ∀ r ∈ log, Before c r → r ∈ feed) (fitting : c ∈ v.messages ∨ c ∈ feed) :
    Held log new feed (v.prependOlder msgs (!more)) := by
  obtain ⟨joined, messages, sorted, members, longer, cap, atOldest⟩ := prependOlder_messages held keyed paged
  have known : ∀ m ∈ joined, m ∈ log := fun m member => ((members m).mp member).elim (paged.known m) (held.held m)
  have room : v.cap ≤ (v.prependOlder msgs (!more)).cap := by
    rw [cap]
    exact Nat.le_min.mpr ⟨held.ceiling, Nat.le_max_left _ _⟩
  have positive : 0 < (v.prependOlder msgs (!more)).cap :=
    Nat.lt_of_lt_of_le (by decide) (held.page.trans room)
  -- From the cursor on, everything is held or still in the feed.
  have beyond (r : NatsMessage) (here : r ∈ log) (after : ¬ Before r c) : r ∈ v.messages ∨ r ∈ feed := by
    by_cases same : r = c
    · exact same ▸ fitting
    · have newer := (Settled.comparable order here paged.cursor same).resolve_left after
      rcases fitting with there | there
      · exact held.follows.mem there here newer
      · exact Or.inr (coming there r here newer)
  have follows : Follows log feed joined := by
    rcases sorted with same | sorted
    · exact same ▸ held.follows
    refine .of_sorted sorted fun m member r here after => ?_
    rcases (members m).mp member with older | old
    · by_cases before : Before r c
      · exact Or.inl ((members r).mpr (Or.inl (paged.newer m older r here after before)))
      · exact (beyond r here before).imp_left fun there => (members r).mpr (Or.inr there)
    · exact (held.follows.mem old here after).imp_left fun there => (members r).mpr (Or.inr there)
  refine {
    held := fun m member => known m ((newest_sublist _ _).subset (messages ▸ member))
    follows := by rw [messages]; exact follows.suffix (newest_suffix _ _)
    page := held.page.trans room
    ceiling := by rw [cap]; exact Nat.min_le_left _ _
    fits := by rw [messages, length_newest]; exact Nat.min_le_left _ _
    newest := fun m isLast absent => ?_
    oldest := fun oldest => ?_ }
  · rw [messages]
    have old := held.newest m isLast absent
    rcases sorted with same | sorted
    · rw [same, newest_all (held.fits.trans room)]
      exact old
    · exact newest_top order known sorted positive ((members m).mpr (Or.inr old)) (top m isLast)
  · rw [atOldest] at oldest
    rw [messages, length_newest]
    by_cases all : joined.length ≤ (v.prependOlder msgs (!more)).cap
    · rw [newest_all all]
      by_cases last : more = false
      · refine Or.inl fun r here => ?_
        by_cases before : Before r c
        · exact Or.inl ((members r).mpr (Or.inl (paged.all last r here before)))
        · exact (beyond r here before).imp_left fun there => (members r).mpr (Or.inr there)
      · have many : maxLoadedMessages ≤ joined.length := by simpa [last] using oldest
        exact Or.inr (Nat.le_min.mpr ⟨many.trans all, many⟩)
    · right
      omega

theorem Kept.prepend (kept : Kept log feed v.messages res) (held : Held log new feed v) (keyed : Keyed log)
    (paged : Paged log c msgs more) : Kept log feed (v.prependOlder msgs (!more)).messages res := by
  obtain ⟨joined, messages, -, members, longer, cap, -⟩ := prependOlder_messages held keyed paged
  have page := held.page
  have ceiling := held.ceiling
  rw [messages]
  intro r known absent after
  rcases kept r known absent after with there | many
  · rcases newest_or (n := (v.prependOlder msgs (!more)).cap) ((members r).mpr (Or.inr there)) with stays | full
    · exact Or.inl stays
    · exact Or.inr (by omega)
  · right
    rw [length_newest]
    omega

end Prepending

namespace Viewing
variable {w : Viewing}

structure Inv (w : Viewing) : Prop where
  ordered : w.log.Pairwise Before
  conn : ∀ m ∈ w.log, m.connID = w.connID
  feed : w.feed <:+ w.sent
  recording : w.recording = true → w.sent.filter w.view.exact ≠ []
  view : Held w.log (w.sent.filter w.view.exact) w.feed w.view
  requests : ∀ q ∈ w.requests, q.1 ≤ w.loadSeq
  answers : ∀ a ∈ w.answers, a.1 ≤ w.loadSeq
  answered : ∀ a ∈ w.answers, Answered w.log a.2.2.messages
  once : (w.requests.map Prod.fst ++ w.answers.map Prod.fst).Nodup
  current : ∀ a ∈ w.answers, a.1 = w.loadSeq → Kept w.log w.feed w.view.messages a.2.2.messages
  cursors : ∀ c ∈ w.cursors, c ∈ w.log
  pages : ∀ p ∈ w.pages, Paged w.log p.1 p.2.1 p.2.2

namespace Inv

theorem exact (w : Viewing) : ∀ m ∈ w.log, w.view.exact m := fun _ member => (List.mem_filter.mp member).2

theorem keyed (inv : w.Inv) : Keyed w.log := by
  intro a first b second same
  by_contra other
  have conn := (inv.conn a first).trans (inv.conn b second).symm
  have subject : a.subject = b.subject :=
    (of_decide_eq_true (exact w a first)).trans (of_decide_eq_true (exact w b second)).symm
  rcases Settled.comparable inv.ordered first second other with before | after
  · exact before.key_ne conn subject same
  · exact after.key_ne conn.symm subject.symm same.symm

theorem log_eq (inv : w.Inv) : ∃ past, w.log = past ++ w.feed.filter w.view.exact := by
  obtain ⟨done, split⟩ := inv.feed
  refine ⟨(w.earlier ++ done).filter w.view.exact, ?_⟩
  unfold Viewing.log
  rw [← split, ← List.append_assoc, List.filter_append]

theorem top (inv : w.Inv) : ∀ m ∈ (w.sent.filter w.view.exact).getLast?, ∀ r ∈ w.log, ¬ Before m r := by
  intro m isLast r member after
  obtain ⟨front, split⟩ := List.getLast?_eq_some_iff.mp isLast
  have log : w.log = (w.earlier.filter w.view.exact ++ front) ++ m :: [] := by
    unfold Viewing.log
    rw [List.filter_append, split, List.append_assoc]
  have order := inv.ordered
  rw [log] at order member
  exact List.not_mem_nil (Follows.later order member after)

theorem coming (inv : w.Inv) {c : NatsMessage} (known : c ∈ w.log) (fed : c ∈ w.feed) :
    ∀ r ∈ w.log, Before c r → r ∈ w.feed := by
  intro r member after
  obtain ⟨past, split⟩ := inv.log_eq
  have order := inv.ordered
  rw [split] at order member
  rcases List.mem_append.mp member with old | new
  · have here : c ∈ w.feed.filter w.view.exact := List.mem_filter.mpr ⟨fed, exact w c known⟩
    exact absurd (after.trans ((List.pairwise_append.mp order).2.2 r old c here)) (Before.irrefl c)
  · exact List.mem_of_mem_filter new

theorem history_part (w : Viewing) : ∀ m ∈ w.history, m ∈ w.log := by
  intro m member
  unfold history at member
  split at member
  · exact (List.dropLast_sublist _).subset member
  · exact member

theorem history_ordered (inv : w.Inv) : w.history.Pairwise Before := by
  unfold history
  split
  · exact inv.ordered.sublist (List.dropLast_sublist _)
  · exact inv.ordered

/-- Only the newest message may not be recorded yet. -/
theorem unrecorded (inv : w.Inv) {r : NatsMessage} (known : r ∈ w.log) (missing : r ∉ w.history) :
    r ∈ (w.sent.filter w.view.exact).getLast? ∧ ∀ m ∈ w.history, Before m r := by
  unfold history at missing ⊢
  split at missing
  · next recording =>
    obtain ⟨last, isLast⟩ := Option.ne_none_iff_exists'.mp
      (fun none => inv.recording recording (List.getLast?_eq_none_iff.mp none))
    obtain ⟨front, split⟩ := List.getLast?_eq_some_iff.mp isLast
    have log : w.log = (w.earlier.filter w.view.exact ++ front) ++ [last] := by
      unfold Viewing.log
      rw [List.filter_append, split, List.append_assoc]
    rw [if_pos recording]
    have order := inv.ordered
    rw [log] at known missing order ⊢
    rw [List.dropLast_concat] at missing ⊢
    obtain rfl : r = last := List.mem_singleton.mp ((List.mem_append.mp known).resolve_left missing)
    exact ⟨isLast, fun m member => (List.pairwise_append.mp order).2.2 m member r (List.mem_singleton_self r)⟩
  · exact absurd known missing

/-- A message that goes into the feed; on the subject it is the newest. -/
theorem grow (inv : w.Inv) (m : NatsMessage) (recording : Bool)
    (log : List NatsMessage) (isLog : (w.earlier ++ (w.sent ++ [m])).filter w.view.exact = w.log ++ log)
    (isNew : (w.sent ++ [m]).filter w.view.exact = w.sent.filter w.view.exact ++ log) (only : log = [] ∨ log = [m])
    (later : ∀ r ∈ log, r.connID = w.connID ∧ ∀ old ∈ w.log, Before old r)
    (unrecorded : recording = true → (w.sent ++ [m]).filter w.view.exact ≠ []) :
    ({ w with sent := w.sent ++ [m], feed := w.feed ++ [m], recording := recording } : Viewing).Inv := by
  have isLog : ({ w with sent := w.sent ++ [m], feed := w.feed ++ [m], recording := recording } : Viewing).log = w.log ++ log :=
    isLog
  have grows : ∀ r ∈ w.log, r ∈ w.log ++ log := fun r => List.mem_append_left _
  have fed : ∀ r ∈ w.feed, r ∈ w.feed ++ [m] := fun r => List.mem_append_left _
  have mine : ∀ r ∈ log, r = m := fun r member => by
    rcases only with rfl | rfl
    · cases member
    · exact List.mem_singleton.mp member
  have coming : ∀ r ∈ w.log ++ log, r ∈ w.log ∨ r ∈ w.feed ++ [m] := fun r member =>
    (List.mem_append.mp member).imp_right fun new => List.mem_append_right _ (List.mem_singleton.mpr (mine r new))
  have after : ∀ r ∈ w.log ++ log, r ∈ w.log ∨ ∀ old ∈ w.log, Before old r := fun r member =>
    (List.mem_append.mp member).imp_right fun new => (later r new).2
  have last : ∀ r ∈ (w.sent.filter w.view.exact ++ log).getLast?,
      r ∈ (w.sent.filter w.view.exact).getLast? ∨ r ∈ w.feed ++ [m] := by
    intro r isLast
    rcases only with rfl | rfl
    · exact Or.inl (by simpa using isLast)
    · exact Or.inr (List.mem_append_right _ (by simpa [eq_comm] using isLast))
  exact {
    ordered := by
      rw [isLog]
      refine List.pairwise_append.mpr ⟨inv.ordered, ?_, fun old known r new => (later r new).2 old known⟩
      rcases only with rfl | rfl
      · exact List.Pairwise.nil
      · exact List.pairwise_singleton _ _
    conn := fun r member => (List.mem_append.mp (isLog ▸ member)).elim (inv.conn r) fun new => (later r new).1
    feed := by
      obtain ⟨done, split⟩ := inv.feed
      exact ⟨done, by rw [← List.append_assoc, split]⟩
    recording := unrecorded
    view := by
      rw [isLog, isNew]
      exact inv.view.send grows fed coming last
    requests := inv.requests
    answers := inv.answers
    answered := fun a member => isLog ▸ (inv.answered a member).send grows after
    once := inv.once
    current := fun a member isCurrent => isLog ▸ (inv.current a member isCurrent).send fed coming
    cursors := fun c member => isLog ▸ grows c (inv.cursors c member)
    pages := fun p member => isLog ▸ (inv.pages p member).send grows after }

theorem send (inv : w.Inv) (m : NatsMessage) (ordered : Ordered w (.send m)) : (w.step (.send m)).Inv := by
  simp only [step]
  split
  · next exact =>
    split
    · exact inv
    · have one : [m].filter w.view.exact = [m] := List.filter_cons_of_pos exact
      refine inv.grow m true [m] ?_ ?_ (Or.inr rfl) ?_ fun _ => ?_
      · rw [← List.append_assoc, List.filter_append, one]
        rfl
      · rw [List.filter_append, one]
      · intro r member
        obtain rfl := List.mem_singleton.mp member
        exact ordered exact
      · rw [List.filter_append, one]
        simp
  · next other =>
    split
    · have none : [m].filter w.view.exact = [] := List.filter_cons_of_neg other
      refine inv.grow m w.recording [] ?_ ?_ (Or.inl rfl) nofun fun recording => ?_
      · rw [← List.append_assoc, List.filter_append, none]
        rfl
      · rw [List.filter_append, none]
      · rw [List.filter_append, none, List.append_nil]
        exact inv.recording recording
    · exact inv

theorem ingest (inv : w.Inv) (n : Nat) (fitting : Fitting w (.ingest n)) : (w.step (.ingest n)).Inv := by
  obtain ⟨past, isLog⟩ := inv.log_eq
  obtain ⟨done, isSent⟩ := inv.feed
  have split : w.feed.take n ++ w.feed.drop n = w.feed := List.take_append_drop n w.feed
  have isNew : w.sent.filter w.view.exact = done.filter w.view.exact ++ w.feed.filter w.view.exact := by
    rw [← isSent, List.filter_append]
  have view := inv.view
  have current := inv.current
  rw [← split] at isLog isNew view current
  have part : ∀ m ∈ w.sent.filter w.view.exact, m ∈ w.log := fun m member => by
    unfold Viewing.log
    rw [List.filter_append]
    exact List.mem_append_right _ member
  exact { inv with
    feed := (List.drop_suffix n w.feed).trans ⟨done, isSent⟩
    view := view.ingest isLog isNew inv.ordered (exact w) part fitting
    current := fun a member isCurrent => (current a member isCurrent).ingest inv.view.fits inv.view.page (exact w) }

theorem loadSubject (inv : w.Inv) (replace : Bool) : (w.step (.loadSubject replace)).Inv := by
  have fresh : w.loadSeq + 1 ∉ w.requests.map Prod.fst ++ w.answers.map Prod.fst := by
    intro member
    rcases List.mem_append.mp member with asked | answered
    · obtain ⟨q, there, same⟩ := List.mem_map.mp asked
      have := inv.requests q there
      omega
    · obtain ⟨a, there, same⟩ := List.mem_map.mp answered
      have := inv.answers a there
      omega
  exact { inv with
    requests := fun q member => by
      rcases List.mem_append.mp member with old | new
      · exact Nat.le_succ_of_le (inv.requests q old)
      · exact List.mem_singleton.mp new ▸ Nat.le_refl _
    answers := fun a member => Nat.le_succ_of_le (inv.answers a member)
    once := by
      show ((w.requests ++ [(w.loadSeq + 1, replace)]).map Prod.fst ++ w.answers.map Prod.fst).Nodup
      rw [List.map_append, List.append_assoc]
      refine (List.perm_middle.nodup_iff).mpr (List.nodup_cons.mpr ⟨fresh, inv.once⟩)
    current := fun a member isCurrent => by
      have isCurrent : a.1 = w.loadSeq + 1 := isCurrent
      have := inv.answers a member
      omega }

theorem erased_perm {α β : Type} {l : List (α × β)} {i : Nat} {a : α} {b : β} (found : l[i]? = some (a, b)) :
    (l.map Prod.fst).Perm (a :: (l.eraseIdx i).map Prod.fst) := by
  obtain ⟨inside, rfl'⟩ := List.getElem?_eq_some_iff.mp found
  have perm := (List.getElem_cons_eraseIdx_perm inside).symm.map Prod.fst
  rwa [rfl', List.map_cons] at perm

/-- What an answer brings: the newest of the history. -/
theorem newest_answered (inv : w.Inv) : Answered w.log (newest maxSubjectMessages w.history) := by
  have ordered := inv.history_ordered
  have sorted : w.history.Pairwise fun a b => byArrival a b ≤ 0 :=
    ordered.imp fun {a b} before => byArrival_le.mpr fun after => Before.irrefl a (before.trans after)
  refine ⟨fun m member => history_part w m ((newest_sublist _ _).subset member), ordered.sublist (newest_sublist _ _), ?_,
    fun m member r known after => ?_⟩
  · rw [length_newest]
    exact Nat.min_le_left _ _
  · by_cases recorded : r ∈ w.history
    · exact Or.inl (newest_later sorted member recorded after)
    · exact Or.inr fun m' member' => (inv.unrecorded known recorded).2 m' ((newest_sublist _ _).subset member')

theorem newest_kept (inv : w.Inv) : Kept w.log w.feed w.view.messages (newest maxSubjectMessages w.history) := by
  intro r known absent after
  have unrecorded : r ∉ w.history := by
    intro recorded
    rcases newest_or (n := maxSubjectMessages) recorded with there | full
    · exact Before.irrefl r (after r there)
    · obtain ⟨m, member⟩ := List.exists_mem_of_length_pos (by rw [full]; decide)
      have sorted : w.history.Pairwise fun a b => byArrival a b ≤ 0 :=
        inv.history_ordered.imp fun {a b} before => byArrival_le.mpr fun after => Before.irrefl a (before.trans after)
      exact Before.irrefl r (after r (newest_later sorted member recorded (after m member)))
  exact Or.inl (inv.view.newest r (inv.unrecorded known unrecorded).1 absent)

theorem answer (inv : w.Inv) (i : Nat) (branch : List NatsMessage) : (w.step (.answer i branch)).Inv := by
  unfold step
  dsimp only
  split
  · exact inv
  · next seq replace found =>
    have asked := inv.requests _ (List.mem_of_getElem? found)
    have answered := inv.newest_answered
    have kept := inv.newest_kept
    generalize newest maxSubjectMessages w.history = msgs at answered kept ⊢
    exact { inv with
      requests := fun q member => inv.requests q (List.mem_of_mem_eraseIdx member)
      answers := fun a member => by
        rcases List.mem_append.mp member with old | new
        · exact inv.answers a old
        · obtain rfl := List.mem_singleton.mp new
          exact asked
      answered := fun a member => by
        rcases List.mem_append.mp member with old | new
        · exact inv.answered a old
        · obtain rfl := List.mem_singleton.mp new
          exact answered
      once := by
        refine (List.Perm.nodup_iff ?_).mp inv.once
        refine ((erased_perm found).append_right _).trans ?_
        rw [List.map_append, ← List.append_assoc]
        exact (List.perm_append_singleton seq _).symm
      current := fun a member isCurrent => by
        rcases List.mem_append.mp member with old | new
        · exact inv.current a old isCurrent
        · obtain rfl := List.mem_singleton.mp new
          exact kept }

/-- A view of the same subject that holds of the log what it has to. -/
theorem viewed (inv : w.Inv) {v : LiveView} {answers : List (Nat × Bool × HistoryResponse)} (subject : v.subject = w.view.subject)
    (view : Held w.log (w.sent.filter w.view.exact) w.feed v) (fewer : ∀ a ∈ answers, a ∈ w.answers)
    (once : (w.requests.map Prod.fst ++ answers.map Prod.fst).Nodup)
    (current : ∀ a ∈ answers, a.1 = w.loadSeq → Kept w.log w.feed v.messages a.2.2.messages) :
    ({ w with answers := answers, view := v } : Viewing).Inv := by
  have exact : v.exact = w.view.exact := by
    unfold LiveView.exact
    rw [subject]
  have log : ({ w with answers := answers, view := v } : Viewing).log = w.log := by
    unfold Viewing.log
    rw [exact]
  exact {
    ordered := log ▸ inv.ordered
    conn := log ▸ inv.conn
    feed := inv.feed
    recording := exact ▸ inv.recording
    view := by
      rw [log, exact]
      exact view
    requests := inv.requests
    answers := fun a member => inv.answers a (fewer a member)
    answered := fun a member => log ▸ inv.answered a (fewer a member)
    once := once
    current := fun a member same => log ▸ current a member same
    cursors := log ▸ inv.cursors
    pages := log ▸ inv.pages }

theorem apply (inv : w.Inv) (i : Nat) (fitting : Fitting w (.apply i)) : (w.step (.apply i)).Inv := by
  unfold step
  dsimp only
  split
  · exact inv
  · next seq replace res found =>
    have member := List.mem_of_getElem? found
    have fewer : ∀ a ∈ w.answers.eraseIdx i, a ∈ w.answers := fun a => List.mem_of_mem_eraseIdx
    have once : (w.requests.map Prod.fst ++ (w.answers.eraseIdx i).map Prod.fst).Nodup ∧
        seq ∉ (w.answers.eraseIdx i).map Prod.fst := by
      have perm := (List.Perm.append_left (w.requests.map Prod.fst) (erased_perm found)).nodup_iff.mp inv.once
      have middle := List.nodup_cons.mp (List.perm_middle.nodup_iff.mp perm)
      exact ⟨middle.2, fun there => middle.1 (List.mem_append_right _ there)⟩
    by_cases isCurrent : seq = w.loadSeq
    · rw [if_pos isCurrent]
      subst isCurrent
      have answered : Answered w.log res.messages := inv.answered _ member
      have kept : Kept w.log w.feed w.view.messages res.messages := inv.current _ member rfl
      have view : Held w.log (w.sent.filter w.view.exact) w.feed (w.view.applyHistory res replace) := by
        cases replace with
        | false => exact inv.view.apply inv.ordered inv.keyed answered kept inv.top
        | true => exact inv.view.replace inv.ordered answered kept inv.top (fitting res found)
      exact inv.viewed (by simp only [LiveView.applyHistory]) view fewer once.1 fun a there same =>
        absurd (List.mem_map_of_mem there) (same ▸ once.2)
    · rw [if_neg isCurrent]
      exact inv.viewed rfl inv.view fewer once.1 fun a there => inv.current a (fewer a there)

theorem loadOlder (inv : w.Inv) : (w.step .loadOlder).Inv := by
  unfold step
  dsimp only
  split
  · exact inv
  · split
    · exact inv
    · next c found =>
      have member := List.mem_of_find?_eq_some found
      exact { inv with
        view := { inv.view with }
        cursors := fun c' there => by
          rcases List.mem_append.mp there with old | new
          · exact inv.cursors c' old
          · obtain rfl := List.mem_singleton.mp new
            exact inv.view.held _ member }

set_option maxRecDepth 4000 in
theorem answerOlder (inv : w.Inv) (i : Nat) (memory : Bool) : (w.step (.answerOlder i memory)).Inv := by
  unfold step
  dsimp only
  split
  · exact inv
  · next c found =>
    have cursor := inv.cursors c (List.mem_of_getElem? found)
    have older (m : NatsMessage) : m ∈ w.before c ↔ m ∈ w.history ∧ Before m c := by
      unfold before
      rw [List.mem_filter]
      exact and_congr_right fun _ => decide_eq_true_iff
    have recorded (r : NatsMessage) (known : r ∈ w.log) (before : Before r c) : r ∈ w.before c := by
      refine (older r).mpr ⟨?_, before⟩
      by_contra missing
      exact inv.top r (inv.unrecorded known missing).1 c cursor before
    have sorted : (w.before c).Pairwise fun a b => byArrival a b ≤ 0 :=
      (inv.history_ordered.sublist List.filter_sublist).imp fun {a b} before =>
        byArrival_le.mpr fun after => Before.irrefl a (before.trans after)
    have paged : Paged w.log c (w.page c memory).1 (w.page c memory).2 := {
      cursor := cursor
      known := fun m member => history_part w m ((older m).mp ((newest_sublist _ _).subset member)).1
      before := fun m member => ((older m).mp ((newest_sublist _ _).subset member)).2
      newer := fun m member r known after before => newest_later sorted member (recorded r known before) after
      all := fun last r known before => by
        unfold page at last ⊢
        simp only [Bool.or_eq_false_iff, decide_eq_false_iff_not, Nat.not_lt] at last
        rw [newest_all last.1]
        exact recorded r known before }
    exact { inv with
      cursors := fun c' there => inv.cursors c' (List.mem_of_mem_eraseIdx there)
      pages := fun p there => by
        rcases List.mem_append.mp there with old | new
        · exact inv.pages p old
        · obtain rfl := List.mem_singleton.mp new
          exact paged }

theorem prepend (inv : w.Inv) (i : Nat) (fitting : Fitting w (.prepend i)) : (w.step (.prepend i)).Inv := by
  unfold step
  dsimp only
  split
  · exact inv
  · next c msgs more found =>
    have paged : Paged w.log c msgs more := inv.pages _ (List.mem_of_getElem? found)
    exact { inv with
      view := inv.view.prepend inv.ordered inv.keyed paged inv.top (inv.coming paged.cursor) (fitting c _ found)
      current := fun a member isCurrent => (inv.current a member isCurrent).prepend inv.view inv.keyed paged
      pages := fun p there => inv.pages p (List.mem_of_mem_eraseIdx there) }

theorem fail (inv : w.Inv) (i : Nat) (error : Str) : (w.step (.fail i error)).Inv := by
  unfold Viewing.step
  dsimp only
  split
  · exact inv
  · next seq replace found =>
    have requests : ∀ q ∈ w.requests.eraseIdx i, q.1 ≤ w.loadSeq := fun q member => inv.requests q (List.mem_of_mem_eraseIdx member)
    have once : ((w.requests.eraseIdx i).map Prod.fst ++ w.answers.map Prod.fst).Nodup :=
      inv.once.sublist (((List.eraseIdx_sublist _ _).map _).append_right _)
    split
    · exact { inv with requests := requests, once := once, view := { inv.view with } }
    · exact { inv with requests := requests, once := once }

theorem failOlder (inv : w.Inv) (i : Nat) : (w.step (.failOlder i)).Inv := by
  unfold Viewing.step
  dsimp only
  split
  · exact inv
  · exact { inv with
      view := { inv.view with }
      cursors := fun c member => inv.cursors c (List.mem_of_mem_eraseIdx member) }

theorem step (inv : w.Inv) (op : Op) (ordered : Ordered w op) (fitting : Fitting w op) : (w.step op).Inv := by
  cases op with
  | send m => exact inv.send m ordered
  | record => exact { inv with recording := nofun }
  | ingest n => exact inv.ingest n fitting
  | loadSubject replace => exact inv.loadSubject replace
  | answer i branch => exact inv.answer i branch
  | apply i => exact inv.apply i fitting
  | fail i error => exact inv.fail i error
  | loadOlder => exact inv.loadOlder
  | answerOlder i memory => exact inv.answerOlder i memory
  | prepend i => exact inv.prepend i fitting
  | failOlder i => exact inv.failOlder i

end Inv

theorem Opened.inv (opened : w.Opened) : w.Inv where
  ordered := opened.ordered
  conn := opened.conn
  feed := opened.feed ▸ List.nil_suffix
  recording := fun recording => by
    rw [opened.recording] at recording
    contradiction
  view := by
    rw [opened.view]
    exact {
      held := nofun
      follows := fun p m q split => by simp [emptyView] at split
      page := Nat.le_refl _
      ceiling := (by decide : maxSubjectMessages ≤ maxLoadedMessages)
      fits := Nat.zero_le _
      newest := by simp [opened.sent]
      oldest := nofun }
  requests := by simp [opened.requests]
  answers := by simp [opened.answers]
  answered := by simp [opened.answers]
  once := by simp [opened.requests, opened.answers]
  current := by simp [opened.answers]
  cursors := by simp [opened.cursors]
  pages := by simp [opened.pages]

theorem Inv.whole (inv : w.Inv) (quiet : w.feed = []) : w.Whole where
  newer := fun m member r known after => by
    rcases inv.view.follows.mem member known after with held | coming
    · exact held
    · rw [quiet] at coming
      contradiction
  newest := fun m isLast => inv.view.newest m isLast (by simp [quiet])
  oldest := fun atOldest => (inv.view.oldest atOldest).imp_left fun all r known => by
    rcases all r known with held | coming
    · exact held
    · rw [quiet] at coming
      contradiction

/-- As long as every step fits, the view has no holes whenever nothing is left in the feed. -/
theorem view_whole (opened : w.Opened) {ops : List Op}
    (along : Transition.Along step (fun w op => Ordered w op ∧ Fitting w op) w ops)
    (quiet : (Transition.run step w ops).feed = []) : (Transition.run step w ops).Whole :=
  (Transition.invariant (P := Inv) (fun _ op _ inv fits => inv.step op fits.1 fits.2) opened.inv along).whole quiet

/-! ### A page that was asked before a message that is cut off -/

def numbered (i : Nat) : NatsMessage := { Session.sampleMessage with timestamp := i, sequence := i + 1, connID := ['c'] }

def watching (earlier : List NatsMessage) : Viewing where
  connID := ['c']
  earlier := earlier
  sent := []
  recording := false
  feed := []
  loadSeq := 0
  requests := []
  answers := []
  cursors := []
  pages := []
  view := emptyView ['s']

theorem watching_opened (n : Nat) : (watching ((List.range n).map numbered)).Opened where
  sent := rfl
  recording := rfl
  feed := rfl
  requests := rfl
  answers := rfl
  cursors := rfl
  pages := rfl
  view := rfl
  ordered := by
    refine List.Pairwise.sublist List.filter_sublist ?_
    show ((List.range n).map numbered ++ []).Pairwise Before
    rw [List.append_nil, List.pairwise_map]
    refine List.pairwise_lt_range.imp fun {i j} less => before_iff.mpr (Or.inl ?_)
    exact Int.ofNat_lt.mpr less
  conn := fun m member => by
    have member := List.mem_of_mem_filter member
    simp only [watching, List.append_nil, List.mem_map] at member
    obtain ⟨i, -, rfl⟩ := member
    rfl

/-- A page of the one message there was before the tab had a second. -/
def paged : List Op :=
  [.loadSubject false, .answer 0 [], .apply 0, .send (numbered 1), .record, .loadOlder, .answerOlder 0 false, .ingest 1,
    .prepend 0]

theorem paged_whole : (Transition.run step (watching [numbered 0]) paged).Whole := by
  refine view_whole (watching_opened 1) ⟨⟨trivial, trivial⟩, ⟨trivial, trivial⟩, ⟨trivial, fun res found => ?_⟩,
    ⟨fun _ => ⟨rfl, fun old member => ?_⟩, trivial⟩, ⟨trivial, trivial⟩, ⟨trivial, trivial⟩, ⟨trivial, trivial⟩,
    ⟨trivial, nofun⟩, ⟨trivial, fun c page found => ?_⟩, trivial⟩ rfl
  · have flags : some false = some true := congrArg (Option.map fun a : Nat × Bool × HistoryResponse => a.2.1) found
    contradiction
  · obtain rfl : old = numbered 0 := List.mem_singleton.mp member
    exact before_iff.mpr (by decide)
  · obtain rfl : numbered 0 = c := Option.some.inj (congrArg (Option.map Prod.fst) found)
    exact Or.inl (by decide)

/-- The tab asks for the page before its oldest message, and a live message comes before the page does. -/
def tearing (m : NatsMessage) : List Op :=
  [.loadSubject false, .answer 0 [], .send m, .record, .apply 0, .loadOlder, .answerOlder 0 false, .ingest 1, .prepend 0]

/-- The view while the page is on its way. -/
def torn (messages : List NatsMessage) : LiveView :=
  { emptyView ['s'] with messages := messages, loading := false, loadingOlder := true }

section Tearing
variable {older rest : List NatsMessage} {c m : NatsMessage}

theorem filter_before (ordered : (older ++ c :: rest).Pairwise Before) :
    (older ++ c :: rest).filter (fun m => byArrival m c < 0) = older := by
  obtain ⟨-, after, apart⟩ := List.pairwise_append.mp ordered
  have first : older.filter (fun m => byArrival m c < 0) = older :=
    List.filter_eq_self.mpr fun r member => decide_eq_true (p := byArrival r c < 0) (apart r member c List.mem_cons_self)
  have second : (c :: rest).filter (fun m => byArrival m c < 0) = [] := by
    refine List.filter_eq_nil_iff.mpr fun r member earlier => ?_
    have earlier : Before r c := of_decide_eq_true (p := byArrival r c < 0) earlier
    rcases List.mem_cons.mp member with rfl | later
    · exact Before.irrefl r earlier
    · exact Before.irrefl r (earlier.trans ((List.pairwise_cons.mp after).1 r later))
  rw [List.filter_append, first, second, List.append_nil]

theorem torn_run (exact : ∀ r ∈ older ++ c :: rest, r.subject = ['s']) (mine : m.subject = ['s'])
    (ordered : (older ++ c :: (rest ++ [m])).Pairwise Before) (cursor : c.connID ≠ [] ∧ c.sequence ≠ 0)
    (few : older.length ≤ olderPage) (many : rest.length + 1 = maxSubjectMessages) :
    Transition.run step (watching (older ++ c :: rest)) (tearing m) =
      { watching (older ++ c :: rest) with loadSeq := 1, sent := [m], view := (torn (rest ++ [m])).prependOlder older true } := by
  have isExact : [m].filter (emptyView ['s']).exact = [m] := List.filter_cons_of_pos (decide_eq_true mine)
  have log : (older ++ c :: rest).filter (emptyView ['s']).exact = older ++ c :: rest :=
    List.filter_eq_self.mpr fun r member => decide_eq_true (exact r member)
  have loaded : Transition.run step (watching (older ++ c :: rest)) [.loadSubject false, .answer 0 [], .send m, .record, .apply 0] =
      { watching (older ++ c :: rest) with
        loadSeq := 1, sent := [m], feed := [m]
        view := { emptyView ['s'] with messages := c :: rest, loading := false } } := by
    have history : ((older ++ c :: rest) ++ []).filter (emptyView ['s']).exact = older ++ c :: rest := by
      rw [List.append_nil, log]
    have held : newest maxSubjectMessages (older ++ c :: rest) = c :: rest := by
      unfold newest
      rw [List.length_append, List.length_cons, many, Nat.add_sub_cancel, List.drop_left]
    have applied : (emptyView ['s']).applyHistory ⟨c :: rest, []⟩ false =
        { emptyView ['s'] with messages := c :: rest, loading := false } := by
      have fits : newest maxSubjectMessages (c :: rest) = c :: rest := newest_all (by rw [List.length_cons, many])
      simp [LiveView.applyHistory, emptyView, unseen, fits]
    have sent : Transition.run step (watching (older ++ c :: rest)) [.loadSubject false, .answer 0 [], .send m] =
        { watching (older ++ c :: rest) with
          loadSeq := 1, sent := [m], recording := true, feed := [m]
          answers := [(1, false, ⟨newest maxSubjectMessages (((older ++ c :: rest) ++ []).filter (emptyView ['s']).exact), []⟩)] } := by
      have exact : (emptyView ['s']).exact m = true := decide_eq_true mine
      exact if_pos exact
    have start : Transition.run step (watching (older ++ c :: rest)) [.loadSubject false, .answer 0 [], .send m, .record, .apply 0] =
        step (step (Transition.run step (watching (older ++ c :: rest)) [.loadSubject false, .answer 0 [], .send m]) .record)
          (.apply 0) := rfl
    rw [start, sent, history, held, ← applied]
    rfl
  have asked : ({ watching (older ++ c :: rest) with
        loadSeq := 1, sent := [m], feed := [m]
        view := { emptyView ['s'] with messages := c :: rest, loading := false } } : Viewing).step .loadOlder =
      { watching (older ++ c :: rest) with loadSeq := 1, sent := [m], feed := [m], cursors := [c], view := torn (c :: rest) } := by
    have room : ¬ maxLoadedMessages ≤ (c :: rest).length := by
      rw [List.length_cons, many]
      decide
    have found : (c :: rest).find? (fun m => m.connID ≠ [] && m.sequence ≠ 0) = some c := List.find?_cons_of_pos (by simp [cursor])
    simp only [step, Viewing.cursor, emptyView, Bool.or_false, room, decide_false, Bool.false_eq_true, if_false, found]
    rfl
  have answered : ({ watching (older ++ c :: rest) with
        loadSeq := 1, sent := [m], feed := [m], cursors := [c], view := torn (c :: rest) } : Viewing).step (.answerOlder 0 false) =
      { watching (older ++ c :: rest) with
        loadSeq := 1, sent := [m], feed := [m], pages := [(c, older, false)], view := torn (c :: rest) } := by
    have history : ((older ++ c :: rest) ++ [m]).filter (torn (c :: rest)).exact = older ++ c :: (rest ++ [m]) := by
      refine (List.filter_append _ _).trans ((congrArg₂ _ log isExact).trans ?_)
      rw [List.append_assoc, List.cons_append]
    have before : ({ watching (older ++ c :: rest) with
        loadSeq := 1, sent := [m], feed := [m], cursors := [c], view := torn (c :: rest) } : Viewing).before c = older :=
      (congrArg (List.filter fun m => byArrival m c < 0) history).trans (filter_before ordered)
    have page : ({ watching (older ++ c :: rest) with
        loadSeq := 1, sent := [m], feed := [m], cursors := [c], view := torn (c :: rest) } : Viewing).page c false =
          (older, false) := by
      unfold Viewing.page
      rw [before, newest_all few]
      simp [Nat.not_lt.mpr few]
    simp only [step, List.getElem?_cons_zero, page]
    rfl
  have came : (torn (c :: rest)).ingestFeed [m] = torn (rest ++ [m]) := by
    have exact : [m].filter (torn (c :: rest)).exact = [m] := isExact
    have below : [m].filter (torn (c :: rest)).below = [] := List.filter_cons_of_neg (by simp [LiveView.below, mine, torn, emptyView])
    have cut : newest maxSubjectMessages ((c :: rest) ++ [m]) = rest ++ [m] := by
      unfold newest
      rw [List.length_append, List.length_cons, many, Nat.add_sub_cancel_left]
      rfl
    unfold LiveView.ingestFeed
    rw [exact, below]
    simp only [torn, emptyView, List.cons_ne_nil, if_false, if_true]
    rw [cut]
  have start : Transition.run step (watching (older ++ c :: rest)) (tearing m) = step (step (step (step
      (Transition.run step (watching (older ++ c :: rest)) [.loadSubject false, .answer 0 [], .send m, .record, .apply 0])
      .loadOlder) (.answerOlder 0 false)) (.ingest 1)) (.prepend 0) := rfl
  rw [start, loaded, asked, answered, ← came]
  rfl

theorem prependOlder_new {v : LiveView} {msgs : List NatsMessage} {atOldest : Bool} (some : unseen v.messages msgs ≠ []) :
    (v.prependOlder msgs atOldest).messages = newest (min maxLoadedMessages
      (max v.cap ((sort byArrival (unseen v.messages msgs ++ v.messages)).length + maxSubjectMessages)))
      (sort byArrival (unseen v.messages msgs ++ v.messages)) := by
  simp only [LiveView.prependOlder]
  rw [if_neg some]

theorem torn_whole {a : NatsMessage} (exact : c.subject = ['s']) (before : Before a c)
    (lost : c ∉ older ∧ c ∉ rest ++ [m]) (new : a ∈ unseen (rest ++ [m]) older)
    (few : (unseen (rest ++ [m]) older).length + (rest ++ [m]).length ≤ maxLoadedMessages) :
    ¬ ({ watching (older ++ c :: rest) with
      loadSeq := 1, sent := [m], view := (torn (rest ++ [m])).prependOlder older true } : Viewing).Whole := by
  intro whole
  have some : unseen (rest ++ [m]) older ≠ [] := List.ne_nil_of_mem new
  obtain ⟨cap, messages, room⟩ : ∃ cap, ((torn (rest ++ [m])).prependOlder older true).messages =
      newest cap (sort byArrival (unseen (rest ++ [m]) older ++ (rest ++ [m]))) ∧
        (sort byArrival (unseen (rest ++ [m]) older ++ (rest ++ [m]))).length ≤ cap := by
    have length := (sort_perm byArrival (unseen (rest ++ [m]) older ++ (rest ++ [m]))).length_eq
    rw [List.length_append] at length
    refine ⟨min maxLoadedMessages (max maxSubjectMessages
      ((sort byArrival (unseen (rest ++ [m]) older ++ (rest ++ [m]))).length + maxSubjectMessages)), ?_, by omega⟩
    exact prependOlder_new some
  have members (r : NatsMessage) : r ∈ ((torn (rest ++ [m])).prependOlder older true).messages ↔
      r ∈ unseen (rest ++ [m]) older ∨ r ∈ rest ++ [m] := by
    rw [messages, newest_all room, (sort_perm _ _).mem_iff, List.mem_append]
  have known : c ∈ ({ watching (older ++ c :: rest) with
      loadSeq := 1, sent := [m], view := (torn (rest ++ [m])).prependOlder older true } : Viewing).log :=
    List.mem_filter.mpr ⟨List.mem_append_left _ (List.mem_append_right _ List.mem_cons_self), decide_eq_true exact⟩
  have held := whole.newer a ((members a).mpr (Or.inl new)) c known before
  rcases (members c).mp held with page | rest
  · exact lost.1 (mem_unseen page).1
  · exact lost.2 rest

end Tearing

theorem tearing_ordered {earlier : List NatsMessage} {m : NatsMessage} (conn : m.connID = ['c'])
    (later : ∀ old ∈ earlier, Before old m) : Transition.Along step Ordered (watching earlier) (tearing m) := by
  refine ⟨trivial, trivial, fun _ => ⟨conn, fun old member => later old ?_⟩, trivial, trivial, trivial, trivial, trivial, trivial,
    trivial⟩
  have member : old ∈ earlier ++ [] := List.mem_of_mem_filter member
  rwa [List.append_nil] at member

theorem numbered_before {i j : Nat} : Before (numbered i) (numbered j) ↔ i < j := by
  have time (i : Nat) : (numbered i).timestamp = i := rfl
  have arrival (i : Nat) : (numbered i).sequence = i + 1 := rfl
  rw [before_iff, time, time, arrival, arrival]
  omega

theorem numbered_injective {i j : Nat} (same : numbered i = numbered j) : i = j :=
  Nat.succ.inj (congrArg NatsMessage.sequence same)

/-- What is there before the cursor, and after it. -/
def firstPage : List NatsMessage := (List.range 500).map numbered

def heldRest : List NatsMessage := (List.range 999).map fun i => numbered (501 + i)

theorem numbered_split : (List.range 1500).map numbered = firstPage ++ numbered 500 :: heldRest := by
  have first : List.range (500 + 1000) = List.range 500 ++ (List.range 1000).map (500 + ·) := List.range_add
  have second : List.range (999 + 1) = 0 :: (List.range 999).map Nat.succ := List.range_succ_eq_map
  rw [first, second, List.map_append, List.map_cons, List.map_cons, List.map_map, List.map_map]
  refine congrArg (fun l => firstPage ++ numbered 500 :: l) (List.map_congr_left fun i _ => ?_)
  exact congrArg numbered (by simp only [Nat.succ_eq_add_one]; omega)

/-- The older page meets a view that has lost the message before which it was asked. -/
theorem page_tears : ¬ ∀ (w : Viewing) (ops : List Op), w.Opened → Transition.Along step Ordered w ops →
    (Transition.run step w ops).feed = [] → (Transition.run step w ops).Whole := by
  intro whole
  have opened := watching_opened 1500
  have firsts : ∀ r ∈ firstPage, ∃ i, i < 500 ∧ r = numbered i := fun r member => by
    obtain ⟨i, below, rfl⟩ := List.mem_map.mp member
    exact ⟨i, List.mem_range.mp below, rfl⟩
  have rests : ∀ r ∈ heldRest ++ [numbered 1500], ∃ i, 500 < i ∧ i ≤ 1500 ∧ r = numbered i := fun r member => by
    rcases List.mem_append.mp member with held | live
    · obtain ⟨i, below, rfl⟩ := List.mem_map.mp held
      have := List.mem_range.mp below
      exact ⟨501 + i, by omega, by omega, rfl⟩
    · exact ⟨1500, by omega, by omega, List.mem_singleton.mp live⟩
  have all : ∀ r ∈ (List.range 1500).map numbered, ∃ i, i < 1500 ∧ r = numbered i := fun r member => by
    obtain ⟨i, below, rfl⟩ := List.mem_map.mp member
    exact ⟨i, List.mem_range.mp below, rfl⟩
  have ordered : (firstPage ++ numbered 500 :: (heldRest ++ [numbered 1500])).Pairwise Before := by
    have last : (List.range 1500).map numbered ++ [numbered 1500] = firstPage ++ numbered 500 :: (heldRest ++ [numbered 1500]) := by
      rw [numbered_split, List.append_assoc, List.cons_append]
    rw [← last]
    refine List.pairwise_append.mpr ⟨List.pairwise_map.mpr (List.pairwise_lt_range.imp numbered_before.mpr),
      List.pairwise_singleton _ _, fun old member live isLive => ?_⟩
    obtain ⟨i, below, rfl⟩ := all old member
    obtain rfl := List.mem_singleton.mp isLive
    exact numbered_before.mpr below
  have exact : ∀ r ∈ firstPage ++ numbered 500 :: heldRest, r.subject = ['s'] := fun r member => by
    obtain ⟨i, -, rfl⟩ := all r (numbered_split ▸ member)
    rfl
  have few : firstPage.length = 500 := by simp [firstPage]
  have many : heldRest.length = 999 := by simp [heldRest]
  have ran : Transition.run step (watching (firstPage ++ numbered 500 :: heldRest)) (tearing (numbered 1500)) = _ :=
    torn_run exact rfl ordered ⟨List.cons_ne_nil _ _, Nat.succ_ne_zero _⟩ (by rw [few]; decide) (by rw [many]; decide)
  have along : Transition.Along step Ordered (watching (firstPage ++ numbered 500 :: heldRest)) (tearing (numbered 1500)) := by
    refine tearing_ordered rfl fun old member => ?_
    obtain ⟨i, below, rfl⟩ := all old (numbered_split ▸ member)
    exact numbered_before.mpr below
  have result := whole _ _ (numbered_split ▸ opened) along (by rw [ran]; rfl)
  rw [ran] at result
  refine torn_whole rfl (numbered_before.mpr (by omega : 0 < 500))
    ⟨fun member => ?_, fun member => ?_⟩ ?_ ?_ result
  · obtain ⟨i, below, same⟩ := firsts _ member
    have := numbered_injective same
    omega
  · obtain ⟨i, above, -, same⟩ := rests _ member
    have := numbered_injective same
    omega
  · refine List.mem_filter.mpr ⟨List.mem_map_of_mem (List.mem_range.mpr (by omega)), decide_eq_true fun old => ?_⟩
    obtain ⟨r, held, same⟩ := List.mem_map.mp old
    obtain ⟨i, above, -, rfl⟩ := rests r held
    exact @Before.key_ne (numbered 0) (numbered i) rfl rfl (numbered_before.mpr (by omega)) same.symm
  · have fewer := (unseen_sublist (heldRest ++ [numbered 1500]) firstPage).length_le
    rw [few] at fewer
    rw [List.length_append, many, List.length_singleton]
    exact (Nat.add_le_add_right fewer _).trans (by decide)

end Viewing
end NatsExplorer.Client
