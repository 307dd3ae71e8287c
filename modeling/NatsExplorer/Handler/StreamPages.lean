import NatsExplorer.Message
import NatsExplorer.Library.Restarting

/-! A page of a stream's messages (`internal/handler/streams.go`): read through an ordered consumer, which may start
over between fetches, or one sequence at a time. -/
namespace NatsExplorer.Handler
open Go Restarting

/-- A message the stream has stored. -/
structure Stored where
  seq : ℕ
  subject : Str
  data : Data
  header : Header
  /-- unix ms -/
  time : Int

/-- `jetstream.Msg`, as a consumer delivers it; the metadata is read from the reply subject. -/
structure Msg where
  metadata : Option (ℕ × Int)
  subject : Str
  data : Data
  headers : Header

/-- `jetstream.RawStreamMsg` -/
structure RawStreamMsg where
  sequence : ℕ
  subject : Str
  data : Data
  time : Int
  header : Header

/-- The API shape of a stream message. -/
structure Item where
  seq : Option ℕ
  subject : Str
  payload : Str
  payloadType : Kind
  timestamp : Option Int
  size : ℕ
  headers : Option Header
  deriving DecidableEq

section Reading
variable [Tables]

def encodePayload (data : Data) : Str × Kind :=
  let r : Record := { subject := [], data := data, timestamp := 0, sequence := 0 }
  (r.text, r.kind)

/-- `len(h) > 0` -/
def someHeaders (h : Header) : Option Header := if h = [] then none else some h

/-- `StreamMsgToMap`; without metadata the sequence stays 0. -/
def streamMsgToMap (msg : Msg) : Item × ℕ :=
  let (payload, payloadType) := encodePayload msg.data
  ({ seq := msg.metadata.map (·.1), subject := msg.subject, payload := payload, payloadType := payloadType,
     timestamp := msg.metadata.map (·.2), size := msg.data.length, headers := someHeaders msg.headers },
   (msg.metadata.map (·.1)).getD 0)

def rawStreamMsgToMap (msg : RawStreamMsg) : Item :=
  let (payload, payloadType) := encodePayload msg.data
  { seq := some msg.sequence, subject := msg.subject, payload := payload, payloadType := payloadType,
    timestamp := some msg.time, size := msg.data.length, headers := someHeaders msg.header }

/-- What `FetchNoWait` answers: an error, or a batch that ends with or without one. -/
inductive Fetched where
  | refused
  | batch (messages : List Msg) (failed : Bool)

/-- What the loop over one batch leaves: the whole page, or the page so far. -/
inductive Read where
  | done (out : List Item)
  | more (next : ℕ) (out : List Item) (added : ℕ)

def readBatch (end_ : ℕ) : ℕ → List Item → ℕ → List Msg → Read
  | next, out, added, [] => .more next out added
  | next, out, added, msg :: rest =>
    let (item, seq) := streamMsgToMap msg
    if end_ < seq then .done out
    else if seq < next then readBatch end_ next out added rest
    else readBatch end_ (seq + 1) (out ++ [item]) (added + 1) rest

theorem readBatch_length {end_ next added next' added' : ℕ} {out out' : List Item} {msgs : List Msg}
    (read : readBatch end_ next out added msgs = .more next' out' added') : out'.length + added = out.length + added' := by
  induction msgs generalizing next out added with
  | nil =>
    simp only [readBatch, Read.more.injEq] at read
    obtain ⟨-, rfl, rfl⟩ := read
    rfl
  | cons msg rest ih =>
    simp only [readBatch] at read
    split at read
    · contradiction
    · split at read
      · exact ih read
      · have := ih read
        rw [List.length_append, List.length_singleton] at this
        omega

/-- The loop over the fetches, with the number of the next fetch. -/
def fetchLoop (fetch : ℕ → Fetched) (end_ want : ℕ) (i next : ℕ) (out : List Item) : ℕ × Option (List Item) :=
  if _short : out.length < want then
    match fetch i with
    | .refused => (i + 1, none)
    | .batch messages failed =>
      match read : readBatch end_ next out 0 messages with
      | .done out => (i + 1, some out)
      | .more next out' added =>
        if failed then (i + 1, none)
        else if stopped : added = 0 then (i + 1, some out')
        else fetchLoop fetch end_ want (i + 1) next out'
  else (i, some out)
termination_by want - out.length
decreasing_by
  have := readBatch_length read
  omega

/-- `fetchRange`: how often it fetched, and the page; nothing is an error, of the fetch or of its batch. The ranges of
the handler are short (`messagesRange_short`), so that `int(end - startSeq + 1)` is their length. -/
def fetchRange (fetch : ℕ → Fetched) (startSeq end_ : ℕ) : ℕ × Option (List Item) :=
  fetchLoop fetch end_ (end_ + 1 - startSeq) 0 startSeq []

/-- What `GetMsg` answers: nothing is stored there, or the time is up. -/
inductive GetError where
  | notFound
  | expired

def fetchRangeSlow (getMsg : ℕ → Except GetError RawStreamMsg) (startSeq end_ : ℕ) : List Item :=
  go startSeq (end_ + 1 - startSeq)
where
  go : ℕ → ℕ → List Item
    | _, 0 => []
    | seq, n + 1 =>
      match getMsg seq with
      | .error .expired => []
      | .error .notFound => go (seq + 1) n
      | .ok msg => rawStreamMsgToMap msg :: go (seq + 1) n

def defaultMessagePage : ℕ := 50
def maxMessagePage : ℕ := 200

/-- The `limit` of a request. -/
def messageLimit (limit : Int) : ℕ :=
  let limit := if limit ≤ 0 then (defaultMessagePage : Int) else limit
  (if limit > maxMessagePage then (maxMessagePage : Int) else limit).toNat

omit [Tables] in
theorem messageLimit_bounds (limit : Int) : 0 < messageLimit limit ∧ messageLimit limit ≤ maxMessagePage := by
  simp only [messageLimit, maxMessagePage, defaultMessagePage]
  split <;> split <;> omega

/-- The range of a page of `GetMessages`, for a stream from `first` to `last`; sequences are `uint64`. -/
def messagesRange (first last startSeq limit : ℕ) : ℕ × ℕ :=
  let startSeq := if startSeq = 0 then (if last ≥ limit then last - limit + 1 else 1) else startSeq
  let startSeq := if startSeq < first then first else startSeq
  let end_ := (startSeq + limit - 1) % 2 ^ 64
  (startSeq, if end_ > last then last else end_)

omit [Tables] in
/-- A range that is not empty is as long as a page at most, so that neither `end - startSeq + 1` nor its `int` wraps. -/
theorem messagesRange_short (first last startSeq : ℕ) (limit : Int) :
    let range := messagesRange first last startSeq (messageLimit limit)
    range.1 ≤ range.2 → range.2 + 1 - range.1 ≤ maxMessagePage ∧ range.2 ≤ last := by
  have page := messageLimit_bounds limit
  intro range
  simp only [range, messagesRange]
  generalize (if startSeq = 0 then _ else startSeq : ℕ) = asked
  generalize (if asked < first then first else asked) = start
  have within := Nat.mod_le (start + messageLimit limit - 1) (2 ^ 64)
  split <;> omega

/-- A stream keeps its messages by sequence. -/
structure Stream where
  messages : List Stored
  ascending : Ascending Stored.seq messages

namespace Stored

def delivered (m : Stored) : Msg := ⟨some (m.seq, m.time), m.subject, m.data, m.header⟩

def raw (m : Stored) : RawStreamMsg := ⟨m.seq, m.subject, m.data, m.time, m.header⟩

/-- Both ways of reading a message show it alike. -/
theorem shown (m : Stored) : streamMsgToMap m.delivered = (rawStreamMsgToMap m.raw, m.seq) := rfl

end Stored

namespace Stream
variable (s : Stream)

def getMsg (seq : ℕ) : Except GetError RawStreamMsg :=
  match s.messages.find? fun m => m.seq = seq with
  | none => .error .notFound
  | some m => .ok m.raw

/-- The messages of a fetch of an ordered consumer that starts at a sequence. -/
def fetched (startSeq : ℕ) (answers : ℕ → Answer) (i : ℕ) : List Stored :=
  batch Stored.seq s.messages startSeq answers i

def consumer (startSeq : ℕ) (answers : ℕ → Answer) (i : ℕ) : Fetched :=
  .batch ((s.fetched startSeq answers i).map Stored.delivered) false

/-- What is stored in a range. -/
def stored (startSeq next : ℕ) : List Stored := between Stored.seq s.messages startSeq next

def page (startSeq next : ℕ) : List Item := (s.stored startSeq next).map fun m => rawStreamMsgToMap m.raw

theorem page_append {lo mid hi : ℕ} (below : lo ≤ mid) (above : mid ≤ hi) : s.page lo mid ++ s.page mid hi = s.page lo hi := by
  simp only [page, stored]
  rw [← List.map_append, between_append s.ascending below above]

omit [Tables] in
/-- At most one message has a sequence. -/
theorem find?_eq (seq : ℕ) : (s.messages.find? fun m => m.seq = seq).toList = s.stored seq (seq + 1) := by
  obtain ⟨messages, asc⟩ := s
  unfold stored between
  dsimp only
  induction messages with
  | nil => rfl
  | cons m rest ih =>
    obtain ⟨first, later⟩ := List.pairwise_cons.mp asc
    rw [List.find?_cons, List.filter_cons]
    by_cases here : m.seq = seq
    · have none : rest.filter (fun m => seq ≤ m.seq ∧ m.seq < seq + 1) = [] := by
        apply List.filter_eq_nil_iff.mpr
        intro b member
        have := first b member
        simp only [decide_eq_true_eq]
        omega
      have inside : seq ≤ m.seq ∧ m.seq < seq + 1 := by omega
      rw [none, if_pos (decide_eq_true inside), decide_eq_true here]
      rfl
    · have outside : ¬ (seq ≤ m.seq ∧ m.seq < seq + 1) := by omega
      rw [if_neg (by simpa using outside), decide_eq_false here]
      exact ih later

theorem fetchRangeSlow_go (seq n : ℕ) : fetchRangeSlow.go s.getMsg seq n = s.page seq (seq + n) := by
  induction n generalizing seq with
  | zero => rw [fetchRangeSlow.go, page, stored, Nat.add_zero, between_empty le_rfl, List.map_nil]
  | succ n ih =>
    have first := s.find?_eq seq
    have rest := ih (seq + 1)
    rw [fetchRangeSlow.go, getMsg, ← s.page_append (Nat.le_succ seq) (by omega), show seq + (n + 1) = seq + 1 + n by omega,
      ← rest, page, ← first]
    cases s.messages.find? fun m => m.seq = seq <;> rfl

/-- One sequence at a time reads what is stored in the range. -/
theorem fetchRangeSlow_eq {startSeq end_ : ℕ} (range : startSeq ≤ end_) :
    fetchRangeSlow s.getMsg startSeq end_ = s.page startSeq (end_ + 1) := by
  rw [fetchRangeSlow, fetchRangeSlow_go, show startSeq + (end_ + 1 - startSeq) = end_ + 1 by omega]

end Stream

theorem readBatch_cons (end_ next added : ℕ) (out : List Item) (m : Stored) (rest : List Msg) :
    readBatch end_ next out added (m.delivered :: rest) =
      if end_ < m.seq then .done out
      else if m.seq < next then readBatch end_ next out added rest
      else readBatch end_ (m.seq + 1) (out ++ [rawStreamMsgToMap m.raw]) (added + 1) rest := rfl

/-- The loop over a batch takes what comes next, up to the end of the range. -/
theorem readBatch_eq {msgs : List Stored} (asc : Ascending Stored.seq msgs) (end_ next added : ℕ) (out : List Item) :
    readBatch end_ next out added (msgs.map Stored.delivered) =
      if ∃ m ∈ msgs, end_ + 1 ≤ m.seq then
        .done (out ++ (msgs.filter fun m => next ≤ m.seq ∧ m.seq < end_ + 1).map fun m => rawStreamMsgToMap m.raw)
      else
        let fresh := msgs.filter fun m => next ≤ m.seq
        .more (bound Stored.seq next fresh) (out ++ fresh.map fun m => rawStreamMsgToMap m.raw) (added + fresh.length) := by
  induction msgs generalizing next out added with
  | nil => simp [readBatch]
  | cons m rest ih =>
    obtain ⟨first, later⟩ := List.pairwise_cons.mp asc
    simp only [List.map_cons, readBatch_cons, List.exists_mem_cons_iff, List.filter_cons]
    by_cases past : end_ < m.seq
    · have none : rest.filter (fun b => next ≤ b.seq ∧ b.seq < end_ + 1) = [] := by
        apply List.filter_eq_nil_iff.mpr
        intro b member
        have := first b member
        simp only [decide_eq_true_eq]
        omega
      have outside : ¬ (next ≤ m.seq ∧ m.seq < end_ + 1) := by omega
      have first_past : end_ + 1 ≤ m.seq ∨ ∃ b ∈ rest, end_ + 1 ≤ b.seq := Or.inl past
      rw [if_pos past, if_pos first_past, if_neg (by simpa using outside), none, List.map_nil, List.append_nil]
    · rw [if_neg past]
      have before : ¬ end_ + 1 ≤ m.seq := by omega
      simp only [before, false_or]
      by_cases replayed : m.seq < next
      · have taken : ¬ next ≤ m.seq := by omega
        rw [if_pos replayed, ih later]
        simp only [taken, false_and, decide_false, Bool.false_eq_true, if_false]
      · have taken : next ≤ m.seq := by omega
        have inside : next ≤ m.seq ∧ m.seq < end_ + 1 := by omega
        -- what follows `m` is at or above `next` as it is above `m`
        have further : rest.filter (fun b => m.seq + 1 ≤ b.seq) = rest.filter fun b => next ≤ b.seq := by
          refine List.filter_congr fun b member => ?_
          have := first b member
          rw [decide_eq_decide]
          omega
        have within : rest.filter (fun b => m.seq + 1 ≤ b.seq ∧ b.seq < end_ + 1) =
            rest.filter fun b => next ≤ b.seq ∧ b.seq < end_ + 1 := by
          refine List.filter_congr fun b member => ?_
          have := first b member
          rw [decide_eq_decide]
          omega
        rw [if_neg replayed, ih later, further, within]
        simp only [taken, inside, decide_true, if_true, and_self, List.map_cons, List.append_assoc, List.singleton_append,
          bound_cons, List.length_cons, Nat.add_right_comm added 1]
        rfl

namespace Stream
variable (s : Stream) {startSeq end_ : ℕ} {answers : ℕ → Answer}

/-- Before a fetch: the page has what is stored below the next sequence, and the consumer is not past it. -/
structure Taken (startSeq end_ : ℕ) (answers : ℕ → Answer) (i next : ℕ) (out : List Item) : Prop where
  page : out = s.page startSeq next
  above : startSeq ≤ next
  below : next ≤ end_ + 1
  position : position Stored.seq s.messages startSeq answers i ≤ next
  delivered : ∀ j < i, ∀ m ∈ s.fetched startSeq answers j, m.seq < next

variable {s} {i next added : ℕ} {out out' : List Item}

theorem Taken.origin (taken : s.Taken startSeq end_ answers i next out) :
    origin Stored.seq s.messages startSeq answers i ≤ next := by
  unfold Restarting.origin
  split
  · exact taken.above
  · exact taken.position

theorem Taken.step (taken : s.Taken startSeq end_ answers i next out)
    (read : readBatch end_ next out 0 ((s.fetched startSeq answers i).map Stored.delivered) = .more next' out' added) :
    s.Taken startSeq end_ answers (i + 1) next' out' := by
  have asc : Ascending Stored.seq (s.fetched startSeq answers i) := s.ascending.run _ _
  rw [readBatch_eq asc] at read
  split at read
  · contradiction
  next none =>
  have inside (m : Stored) (member : m ∈ s.fetched startSeq answers i) : m.seq < end_ + 1 :=
    not_le.mp fun past => none ⟨m, member, past⟩
  simp only [Read.more.injEq] at read
  obtain ⟨nextEq, outEq, -⟩ := read
  have further : next ≤ next' := nextEq ▸ le_bound fun m member => of_decide_eq_true (List.mem_filter.mp member).2
  have reached (m : Stored) (member : m ∈ s.fetched startSeq answers i) : m.seq < next' := by
    by_cases taken : next ≤ m.seq
    · rw [← nextEq]
      exact (asc.filter _).lt_bound next (List.mem_filter.mpr ⟨member, decide_eq_true taken⟩)
    · omega
  exact {
    page := by
      rw [← outEq, taken.page, ← nextEq, Stream.page, Stream.page, ← List.map_append]
      exact congrArg _ (between_take s.ascending taken.above taken.origin _)
    above := taken.above.trans further
    below := nextEq ▸ bound_le taken.below fun m member => inside m (List.mem_filter.mp member).1
    position := bound_le (taken.position.trans further) reached
    delivered := fun j before m member => by
      rcases Nat.lt_succ_iff_lt_or_eq.mp before with earlier | rfl
      · exact (taken.delivered j earlier m member).trans_le further
      · exact reached m member }

theorem Taken.done (taken : s.Taken startSeq end_ answers i next out)
    (read : readBatch end_ next out 0 ((s.fetched startSeq answers i).map Stored.delivered) = .done out') :
    out' = s.page startSeq (end_ + 1) := by
  have asc : Ascending Stored.seq (s.fetched startSeq answers i) := s.ascending.run _ _
  rw [readBatch_eq asc] at read
  split at read
  next past =>
    simp only [Read.done.injEq] at read
    rw [← read, taken.page, ← s.page_append taken.above taken.below]
    exact congrArg _ (congrArg _ (between_past s.ascending taken.origin past))
  · contradiction

/-- What is not past the end of the range and delivered is in the page. -/
theorem Taken.whole (taken : s.Taken startSeq end_ answers i next out)
    (all : ∀ m ∈ s.stored startSeq (end_ + 1), ∃ j < i, m ∈ s.fetched startSeq answers j) : out = s.page startSeq (end_ + 1) := by
  rw [taken.page, ← s.page_append taken.above taken.below, Stream.page, Stream.page, Stream.stored, Stream.stored]
  have none : between Stored.seq s.messages next (end_ + 1) = [] := by
    apply List.filter_eq_nil_iff.mpr
    intro m member inside
    have range := of_decide_eq_true inside
    obtain ⟨j, before, delivered⟩ := all m (mem_between.mpr ⟨member, taken.above.trans range.1, range.2⟩)
    exact absurd (taken.delivered j before m delivered) (by omega)
  rw [none, List.map_nil, List.append_nil]

theorem fetchLoop_page (want : ℕ) (taken : s.Taken startSeq end_ answers i next out) :
    ∃ n out', fetchLoop (s.consumer startSeq answers) end_ want i next out = (n, some out') ∧
      (∃ upto, startSeq ≤ upto ∧ upto ≤ end_ + 1 ∧ out' = s.page startSeq upto) ∧
      ((∀ m ∈ s.stored startSeq (end_ + 1), ∃ j < n, m ∈ s.fetched startSeq answers j) → out' = s.page startSeq (end_ + 1)) := by
  induction hn : want - out.length using Nat.strongRecOn generalizing i next out with
  | ind n ih =>
    rw [fetchLoop]
    split
    · next short =>
      simp only [consumer]
      split
      · next out' read =>
        have whole := taken.done read
        exact ⟨_, _, rfl, ⟨end_ + 1, taken.above.trans taken.below, le_rfl, whole⟩, fun _ => whole⟩
      · next next' out' added read =>
        have taken' := taken.step read
        simp only [Bool.false_eq_true, if_false]
        split
        · exact ⟨_, _, rfl, ⟨next', taken'.above, taken'.below, taken'.page⟩, taken'.whole⟩
        · next stopped =>
          have := readBatch_length read
          exact ih (want - out'.length) (by omega) taken' rfl
    · exact ⟨_, _, rfl, ⟨next, taken.above, taken.below, taken.page⟩, taken.whole⟩

end Stream

end Reading

/-- Three messages with a gap. -/
def gapped : Stream where
  messages := [⟨3, "a".toList, .text [], [], 0⟩, ⟨4, "a".toList, .text [], [], 0⟩, ⟨7, "b".toList, .text [], [], 1⟩]
  ascending := by simp [Ascending]

/-- The second fetch replays all of the first. -/
def replaying : ℕ → Answer
  | 0 => ⟨false, 2⟩
  | _ => ⟨true, 8⟩

section Bounds

/-- `end - startSeq + 1`, the capacity `fetchRangeSlow` makes its page with. -/
def rangeCapacity (startSeq end_ : ℕ) : ℕ := (end_ + 2 ^ 64 - startSeq + 1) % 2 ^ 64

/-- `int(end - startSeq + 1)`, the one of `fetchRange`. -/
def rangeWant (startSeq end_ : ℕ) : Int := (rangeCapacity startSeq end_ : Int).bmod (2 ^ 64)

theorem rangeCapacity_eq {startSeq end_ : ℕ} (ordered : startSeq ≤ end_ + 1) (short : end_ + 1 - startSeq < 2 ^ 64) :
    rangeCapacity startSeq end_ = end_ + 1 - startSeq := by
  rw [rangeCapacity, show end_ + 2 ^ 64 - startSeq + 1 = end_ + 1 - startSeq + 2 ^ 64 by omega, Nat.add_mod_right,
    Nat.mod_eq_of_lt short]

theorem rangeWant_eq {startSeq end_ : ℕ} (ordered : startSeq ≤ end_ + 1) (short : end_ + 1 - startSeq < 2 ^ 63) :
    rangeWant startSeq end_ = (end_ + 1 - startSeq : ℕ) := by
  unfold rangeWant
  simp only [rangeCapacity_eq ordered (show end_ + 1 - startSeq < 2 ^ 64 by omega)]
  exact Int.bmod_eq_of_le_mul_two (by omega) (by omega)

variable [Tables]

/-- The loop of `fetchRangeSlow` as it counts, in `uint64`, for so many calls; nothing while it runs. -/
def slowLoop (getMsg : ℕ → Except GetError RawStreamMsg) (end_ : ℕ) : ℕ → ℕ → List Item → Option (List Item)
  | 0, _, _ => none
  | calls + 1, seq, out =>
    if seq ≤ end_ then
      match getMsg seq with
      | .error .expired => some out
      | .error .notFound => slowLoop getMsg end_ calls ((seq + 1) % 2 ^ 64) out
      | .ok msg => slowLoop getMsg end_ calls ((seq + 1) % 2 ^ 64) (out ++ [rawStreamMsgToMap msg])
    else some out

/-- Below the largest `uint64` the loop is the one that counts down. -/
theorem slowLoop_eq (getMsg : ℕ → Except GetError RawStreamMsg) {end_ : ℕ} (below : end_ + 1 < 2 ^ 64) (n seq : ℕ)
    (out : List Item) (left : end_ + 1 - seq = n) :
    slowLoop getMsg end_ (n + 1) seq out = some (out ++ fetchRangeSlow.go getMsg seq n) := by
  induction n generalizing seq out with
  | zero =>
    have past : ¬ seq ≤ end_ := by omega
    rw [slowLoop, if_neg past, fetchRangeSlow.go, List.append_nil]
  | succ n ih =>
    have within : seq ≤ end_ := by omega
    have next : (seq + 1) % 2 ^ 64 = seq + 1 := Nat.mod_eq_of_lt (by omega)
    rw [slowLoop, if_pos within, fetchRangeSlow.go, next]
    cases getMsg seq with
    | error e =>
      cases e with
      | notFound => exact ih (seq + 1) out (by omega)
      | expired => exact congrArg some (List.append_nil out).symm
    | ok msg =>
      refine (ih (seq + 1) (out ++ [rawStreamMsgToMap msg]) (by omega)).trans ?_
      rw [List.append_assoc, List.singleton_append]

/-- No `uint64` is past the largest one. -/
theorem slowLoop_runs (calls seq : ℕ) (out : List Item) (bounded : seq < 2 ^ 64) :
    slowLoop (fun _ => .error .notFound) (2 ^ 64 - 1) calls seq out = none := by
  induction calls generalizing seq with
  | zero => rfl
  | succ calls ih =>
    have within : seq ≤ 2 ^ 64 - 1 := by omega
    rw [slowLoop, if_pos within]
    exact ih _ (Nat.mod_lt _ (by omega))

/-- The loop ends by its own condition, whatever the messages are, except up to the largest `uint64`. -/
theorem slowLoop_ends {seq end_ : ℕ} (bounded : seq < 2 ^ 64) (end_bounded : end_ < 2 ^ 64) :
    (∀ getMsg, ∃ calls out, slowLoop getMsg end_ calls seq [] = some out) ↔ end_ + 1 < 2 ^ 64 := by
  constructor
  · intro ends
    by_contra large
    obtain rfl : end_ = 2 ^ 64 - 1 := by omega
    obtain ⟨calls, out, done⟩ := ends fun _ => .error .notFound
    rw [slowLoop_runs calls seq [] bounded] at done
    contradiction
  · intro below getMsg
    exact ⟨_, _, slowLoop_eq getMsg below _ seq [] rfl⟩

/-- What a page asks of the range it is read from. -/
structure InRange (first last limit : ℕ) (range : ℕ × ℕ) : Prop where
  above : first ≤ range.1
  below : range.2 ≤ last
  ordered : range.1 ≤ range.2 + 1
  short : range.2 + 1 - range.1 ≤ limit
  capacity : rangeCapacity range.1 range.2 ≤ limit
  want : 0 ≤ rangeWant range.1 range.2 ∧ rangeWant range.1 range.2 ≤ limit
  /-- before the time of the request is up -/
  ends : ∀ getMsg, ∃ calls out, slowLoop getMsg range.2 calls range.1 [] = some out

theorem inRange_iff {first last limit : ℕ} {range : ℕ × ℕ} (paged : limit ≤ maxMessagePage) (start : range.1 < 2 ^ 64)
    (bounded : last < 2 ^ 64) (above : first ≤ range.1) (below : range.2 ≤ last) :
    InRange first last limit range ↔ range.1 ≤ range.2 + 1 ∧ range.2 + 1 - range.1 ≤ limit ∧ range.2 + 1 < 2 ^ 64 := by
  have page : maxMessagePage = 200 := rfl
  constructor
  · intro inRange
    exact ⟨inRange.ordered, inRange.short, (slowLoop_ends start (by omega)).mp inRange.ends⟩
  · rintro ⟨ordered, short, ends⟩
    exact {
      above, below, ordered, short
      capacity := by
        rw [rangeCapacity_eq ordered (by omega)]
        exact short
      want := by
        rw [rangeWant_eq ordered (by omega)]
        omega
      ends := (slowLoop_ends start (by omega)).mpr ends }

omit [Tables] in
/-- Where a page starts. -/
theorem messagesRange_start (first last startSeq limit : ℕ) :
    (messagesRange first last startSeq limit).1 =
      max first (if startSeq = 0 then max 1 (last + 1 - limit) else startSeq) := by
  simp only [messagesRange]
  split_ifs <;> omega

/-- The page is in range when the request starts at most one past the last message and a page from there ends below
the largest `uint64`, or at it while the stream is shorter. -/
theorem messagesRange_inRange (first last startSeq : ℕ) (limit : Int) (nonempty : 0 < last) (ordered : first ≤ last)
    (bounded : last < 2 ^ 64) (parsed : startSeq < 2 ^ 64) :
    let page := messageLimit limit
    InRange first last page (messagesRange first last startSeq page) ↔
      startSeq ≤ last + 1 ∧ max first startSeq + page ≤ 2 ^ 64 ∧
        (last + 1 = 2 ^ 64 → startSeq ≠ 0 ∧ max first startSeq + page < 2 ^ 64) := by
  intro page
  obtain ⟨_some, paged⟩ : 0 < page ∧ page ≤ 200 := messageLimit_bounds limit
  have start := messagesRange_start first last startSeq page
  have end_ : (messagesRange first last startSeq page).2 =
      min last (((messagesRange first last startSeq page).1 + page - 1) % 2 ^ 64) := by
    simp only [messagesRange]
    split_ifs <;> omega
  rw [inRange_iff paged (by rw [start]; split <;> omega) bounded (by rw [start]; exact le_max_left ..)
    (by rw [end_]; exact min_le_left ..), end_, start]
  generalize page = page at *
  split
  · omega
  · omega

end Bounds

theorem messagesRange_inRange_second : 0 < 120 ∧ 1 ≤ 120 ∧ 120 < 2 ^ 64 ∧ 61 < 2 ^ 64 ∧
    (@InRange asciiTables 1 120 (messageLimit 60) (messagesRange 1 120 61 (messageLimit 60)) ↔
      61 ≤ 120 + 1 ∧ max 1 61 + messageLimit 60 ≤ 2 ^ 64 ∧
        (120 + 1 = 2 ^ 64 → 61 ≠ 0 ∧ max 1 61 + messageLimit 60 < 2 ^ 64)) :=
  ⟨by decide, by decide, by decide, by decide,
    @messagesRange_inRange asciiTables 1 120 61 60 (by decide) (by decide) (by decide) (by decide)⟩

/-- The page after message 99 of a stream with 7. -/
theorem messagesRange_beyond : messagesRange 1 7 100 (messageLimit 0) = (100, 7) ∧ rangeWant 100 7 = -92 ∧
    ¬ @InRange asciiTables 1 7 (messageLimit 0) (messagesRange 1 7 100 (messageLimit 0)) := by
  refine ⟨by decide, by decide, fun inRange => ?_⟩
  have page : messagesRange 1 7 100 (messageLimit 0) = (100, 7) := by decide
  have ordered := @InRange.ordered asciiTables _ _ _ _ inRange
  rw [page] at ordered
  contradiction

end NatsExplorer.Handler
