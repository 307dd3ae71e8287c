import NatsExplorer.Handler.StreamPages

/-! The messages of a stream below one subject (`internal/handler/stream_extras.go`): the newest ones, found by scans
that widen, or a page from a sequence on. -/
namespace NatsExplorer.Handler
open Go Restarting

/-- `jetstream.StreamInfo.State` -/
structure StreamState where
  msgs : ℕ
  firstSeq : ℕ
  lastSeq : ℕ

/-- The answer with a page of matches. -/
structure FilteredAnswer where
  messages : List Item
  total : ℕ
  firstSeq : ℕ
  lastSeq : ℕ
  pageStart : ℕ
  pageEnd : ℕ
  subject : Str

def filteredScanCap : ℕ := 50000

section Consumer
variable [Tables] {σ : Type*}

/-- The loop of `fetchFiltered`: as `fetchLoop`, with fetches of the remainder and of 500 at most. -/
def filteredLoop (fetch : σ → ℕ → Fetched × σ) (end_ max : ℕ) (consumer : σ) (next : ℕ) (out : List Item) :
    Option (List Item) :=
  if _short : out.length < max then
    match fetch consumer (min (max - out.length) 500) with
    | (.refused, _) => none
    | (.batch messages failed, consumer) =>
      match _read : readBatch end_ next out 0 messages with
      | .done out => some out
      | .more next out' added =>
        if failed then none
        else if _stopped : added = 0 then some out'
        else filteredLoop fetch end_ max consumer next out'
  else some out
termination_by max - out.length
decreasing_by
  have := readBatch_length _read
  omega

variable (openAt : ℕ → σ) (fetch : σ → ℕ → Fetched × σ)

/-- `fetchFiltered`, with the consumers of the subject by their start. -/
def fetchFiltered (startSeq end_ max : ℕ) : Option (List Item) := filteredLoop fetch end_ max (openAt startSeq) startSeq []

/-- Where the scan with a span starts. -/
def scanFrom (first last span : ℕ) : ℕ := if last > span ∧ last - span > first then last - span else first

/-- The scans for the newest matches, so many of them at most; the span is a `uint64`. Nothing is that it still scans,
and `some none` a failed scan. -/
def scanNewest (first last limit : ℕ) : ℕ → ℕ → Option (Option (List Item))
  | 0, _ => none
  | scans + 1, span =>
    let start := scanFrom first last span
    match fetchFiltered openAt fetch start last filteredScanCap with
    | none => some none
    | some page =>
      if page.length ≥ limit ∨ start = first then some (some page)
      else scanNewest first last limit scans (span * 20 % 2 ^ 64)

/-- The `seq` of an answered message. -/
def seqOf (item : Option Item) : ℕ := (item.bind Item.seq).getD 0

/-- `empty` -/
def emptyAnswer (state : StreamState) (subject : Str) : FilteredAnswer :=
  { messages := [], total := state.msgs, firstSeq := state.firstSeq, lastSeq := state.lastSeq, pageStart := 0, pageEnd := 0,
    subject := subject }

/-- What `filteredMessages` answers with a page. -/
def pageAnswer (state : StreamState) (subject : Str) (limit pageStart : ℕ) (page : List Item) : FilteredAnswer :=
  if page = [] then emptyAnswer state subject
  else
    { messages := page, total := state.msgs, firstSeq := state.firstSeq, lastSeq := state.lastSeq, pageStart := pageStart,
      pageEnd := if page.length ≥ limit then seqOf page.getLast? else state.lastSeq, subject := subject }

/-- `filteredMessages`, with so many scans at most. -/
def filteredMessages (state : StreamState) (subject : Str) (startSeq limit scans : ℕ) : Option (Option FilteredAnswer) :=
  if state.msgs = 0 ∨ state.lastSeq = 0 then some (some (emptyAnswer state subject))
  else if startSeq = 0 then
    match scanNewest openAt fetch state.firstSeq state.lastSeq limit scans (limit * 20 % 2 ^ 64) with
    | none => none
    | some none => some none
    | some (some page) =>
      let page := if page.length > limit then page.drop (page.length - limit) else page
      some (some (pageAnswer state subject limit (if page = [] then startSeq else seqOf page.head?) page))
  else
    let pageStart := if startSeq < state.firstSeq then state.firstSeq else startSeq
    some ((fetchFiltered openAt fetch pageStart state.lastSeq limit).map (pageAnswer state subject limit pageStart))

end Consumer

/-- A client that reads from page to page until one is its last. -/
def walk (answer : ℕ → Option FilteredAnswer) (isLast : ℕ → Bool) : ℕ → ℕ → Option (List Item)
  | 0, _ => none
  | pages + 1, startSeq =>
    match answer startSeq with
    | none => none
    | some page =>
      if isLast page.pageEnd then some page.messages
      else (walk answer isLast pages (page.pageEnd + 1)).map fun later => page.messages ++ later

section Delivered
variable [Tables]

/-- `FetchNoWait` of a consumer that has delivered all but a list. -/
def deliver (left : List Stored) (want : ℕ) : Fetched × List Stored :=
  (.batch ((left.take want).map Stored.delivered) false, left.drop want)

/-- The ordered consumer of a stream from a sequence on, filtered. -/
def Stream.consumerOf (s : Stream) (matches_ : Str → Bool) (startSeq : ℕ) : List Stored :=
  s.messages.filter fun m => matches_ m.subject ∧ startSeq ≤ m.seq

def Stored.item (m : Stored) : Item := rawStreamMsgToMap m.raw

/-- A batch of what comes next is taken whole, or up to the end. -/
theorem readBatch_next {batch : List Stored} (asc : Ascending Stored.seq batch) {next : ℕ} (above : ∀ m ∈ batch, next ≤ m.seq)
    (end_ : ℕ) (out : List Item) :
    readBatch end_ next out 0 (batch.map Stored.delivered) =
      if ∃ m ∈ batch, end_ + 1 ≤ m.seq then .done (out ++ (batch.filter fun m => m.seq ≤ end_).map Stored.item)
      else .more (bound Stored.seq next batch) (out ++ batch.map Stored.item) batch.length := by
  have fresh : (batch.filter fun m => next ≤ m.seq) = batch :=
    List.filter_eq_self.mpr fun m member => decide_eq_true (above m member)
  have taken : (batch.filter fun m => next ≤ m.seq ∧ m.seq < end_ + 1) = batch.filter fun m => m.seq ≤ end_ := by
    refine List.filter_congr fun m member => ?_
    have := above m member
    rw [decide_eq_decide]
    omega
  rw [readBatch_eq asc, taken]
  simp only [fresh, Nat.zero_add]
  rfl

/-- The loop takes what the consumer has left up to the end, and no more than asked for. -/
theorem filteredLoop_eq (end_ max : ℕ) {left : List Stored} (asc : Ascending Stored.seq left) {next : ℕ}
    (above : ∀ m ∈ left, next ≤ m.seq) (out : List Item) (within : out.length ≤ max) :
    filteredLoop deliver end_ max left next out =
      some (out ++ ((left.filter fun m => m.seq ≤ end_).take (max - out.length)).map Stored.item) := by
  induction size : max - out.length using Nat.strongRecOn generalizing left next out with
  | ind n ih =>
    rw [filteredLoop]
    by_cases short : out.length < max
    · rw [dif_pos short]
      simp only [deliver]
      generalize wanted : min (max - out.length) 500 = want
      have room : 0 < want ∧ want ≤ n := by omega
      have few : (left.take want).length ≤ want := List.length_take_le _ _
      have ordered : Ascending Stored.seq (left.take want ++ left.drop want) := by rwa [List.take_append_drop]
      obtain ⟨batch_asc, rest_asc, across⟩ := List.pairwise_append.mp ordered
      have parts : left.filter (fun m => m.seq ≤ end_) =
          (left.take want).filter (fun m => m.seq ≤ end_) ++ (left.drop want).filter (fun m => m.seq ≤ end_) := by
        rw [← List.filter_append, List.take_append_drop]
      have batch := readBatch_next batch_asc (fun m member => above m (List.mem_of_mem_take member)) end_ out
      split
      · next out' read =>
        rw [batch] at read
        split at read
        · next past =>
          obtain ⟨m, member, past⟩ := past
          have later : (left.drop want).filter (fun m => m.seq ≤ end_) = [] := by
            apply List.filter_eq_nil_iff.mpr
            intro b follows
            have := across m member b follows
            simp only [decide_eq_true_eq]
            omega
          have fits : ((left.take want).filter fun m => m.seq ≤ end_).length ≤ n :=
            (List.length_filter_le _ _).trans (few.trans room.2)
          rw [Read.done.injEq] at read
          rw [parts, later, List.append_nil, List.take_of_length_le fits, ← read]
        · contradiction
      · next next' out' added read =>
        rw [batch] at read
        split at read
        · contradiction
        · next inside =>
          have whole : ((left.take want).filter fun m => m.seq ≤ end_) = left.take want := by
            refine List.filter_eq_self.mpr fun m member => decide_eq_true ?_
            by_contra past
            exact inside ⟨m, member, by omega⟩
          simp only [Read.more.injEq] at read
          obtain ⟨rfl, rfl, rfl⟩ := read
          rw [parts, whole, if_neg Bool.false_ne_true]
          by_cases stopped : (left.take want).length = 0
          · have none : left = [] := (List.take_eq_nil_iff.mp (List.length_eq_zero_iff.mp stopped)).resolve_left room.1.ne'
            rw [dif_pos stopped, none]
            simp
          · have further (m : Stored) (member : m ∈ left.drop want) : bound Stored.seq next (left.take want) ≤ m.seq :=
              bound_le (above m (List.mem_of_mem_drop member)) fun b earlier => across b earlier m member
            have longer : (out ++ (left.take want).map Stored.item).length = out.length + (left.take want).length := by
              rw [List.length_append, List.length_map]
            rw [dif_neg stopped, ih (n - (left.take want).length) (by omega) rest_asc further _ (by omega) (by omega),
              List.append_assoc, ← List.map_append, List.take_append, List.take_of_length_le (few.trans room.2)]
    · have full : n = 0 := by omega
      rw [dif_neg short, full, List.take_zero, List.map_nil, List.append_nil]

/-- What is stored below the subject. -/
def Stream.matching (s : Stream) (matches_ : Str → Bool) : List Stored := s.messages.filter fun m => matches_ m.subject

omit [Tables] in
theorem Stream.matching_asc (s : Stream) (matches_ : Str → Bool) : Ascending Stored.seq (s.matching matches_) :=
  s.ascending.filter _

/-- A fetch reads the first matches of its range. -/
theorem fetchFiltered_eq (s : Stream) (matches_ : Str → Bool) (startSeq end_ max : ℕ) :
    fetchFiltered (s.consumerOf matches_) deliver startSeq end_ max =
      some (((between Stored.seq (s.matching matches_) startSeq (end_ + 1)).take max).map Stored.item) := by
  have asc : Ascending Stored.seq (s.consumerOf matches_ startSeq) := s.ascending.filter _
  have above (m : Stored) (member : m ∈ s.consumerOf matches_ startSeq) : startSeq ≤ m.seq :=
    (of_decide_eq_true (List.mem_filter.mp member).2).2
  have range : (s.consumerOf matches_ startSeq).filter (fun m => m.seq ≤ end_) =
      between Stored.seq (s.matching matches_) startSeq (end_ + 1) := by
    rw [Stream.consumerOf, Stream.matching, between, List.filter_filter, List.filter_filter]
    refine List.filter_congr fun m _ => ?_
    rw [Bool.eq_iff_iff]
    simp only [Bool.and_eq_true, decide_eq_true_eq, Nat.lt_succ_iff]
    tauto
  rw [fetchFiltered, filteredLoop_eq end_ max asc above [] (Nat.zero_le _), range, List.nil_append, List.length_nil,
    Nat.sub_zero]

/-- The spans of the scans, one after the other. -/
def span (limit : ℕ) : ℕ → ℕ
  | 0 => limit * 20 % 2 ^ 64
  | k + 1 => span limit k * 20 % 2 ^ 64

omit [Tables] in
theorem span_eq (limit k : ℕ) : span limit k = limit * 20 ^ (k + 1) % 2 ^ 64 := by
  induction k with
  | zero => rfl
  | succ k ih => rw [span, ih, Nat.mod_mul_mod, Nat.mul_assoc, ← Nat.pow_succ]

omit [Tables] in
/-- Before the spans wrap for good, one of them is wider than any stream. -/
theorem span_wide : ∀ limit < 201, 0 < limit → ∃ k < 33, 2 ^ 63 ≤ limit * 20 ^ (k + 1) % 2 ^ 64 := by decide +kernel

/-- What a stream answers of itself while it has these messages. -/
structure StreamState.Of (state : StreamState) (s : Stream) : Prop where
  first : ∀ m ∈ s.messages, state.firstSeq ≤ m.seq
  numbered : ∀ m ∈ s.messages, 0 < m.seq
  counted : state.msgs = 0 → ∀ m ∈ s.messages, state.lastSeq < m.seq
  bounded : state.lastSeq < 2 ^ 63

section Newest
variable (s : Stream) (matches_ : Str → Bool) (state : StreamState) (limit : ℕ)

/-- All matches up to the last message. -/
def wanted : List Stored := between Stored.seq (s.matching matches_) 0 (state.lastSeq + 1)

/-- The matches that the scan with a span is over. -/
def window (k : ℕ) : List Stored :=
  between Stored.seq (s.matching matches_) (scanFrom state.firstSeq state.lastSeq (span limit k)) (state.lastSeq + 1)

/-- What the scan with a span reads of them. -/
def scanned (k : ℕ) : List Stored := (window s matches_ state limit k).take filteredScanCap

/-- A scan is the last one when it is over a page, or over everything. -/
def Stops (k : ℕ) : Prop :=
  limit ≤ (window s matches_ state limit k).length ∨ scanFrom state.firstSeq state.lastSeq (span limit k) = state.firstSeq

/-- The last scan is over as many matches as are read at most. -/
def ScanFits : Prop :=
  ∃ k, (∀ j < k, ¬ Stops s matches_ state limit j) ∧ Stops s matches_ state limit k ∧
    (window s matches_ state limit k).length ≤ filteredScanCap

/-- Without a start, after enough scans: the newest matches, as many as there are or as a page has. -/
def NewestRight (subject : Str) : Prop :=
  ∃ answer, (∃ enough, ∀ scans ≥ enough,
      filteredMessages (s.consumerOf matches_) deliver state subject 0 limit scans = some (some answer)) ∧
    answer.messages = ((wanted s matches_ state).drop ((wanted s matches_ state).length - limit)).map Stored.item

variable {s matches_ state limit} {k : ℕ}

variable (matches_) in
omit [Tables] in
theorem exists_stops (of : state.Of s) (some_ : 0 < limit) (paged : limit ≤ maxMessagePage) :
    ∃ k, Stops s matches_ state limit k := by
  obtain ⟨k, -, wide⟩ := span_wide limit (Nat.lt_succ_of_le paged) some_
  have short := of.bounded
  refine ⟨k, Or.inr ?_⟩
  rw [scanFrom, span_eq, if_neg (by omega)]

/-- The scans go on to the one that is the last. -/
theorem scanNewest_eq (paged : limit ≤ maxMessagePage) {n scans i : ℕ} (enough : n < scans)
    (before : ∀ j < n, ¬ Stops s matches_ state limit (i + j)) (stops : Stops s matches_ state limit (i + n)) :
    scanNewest (s.consumerOf matches_) deliver state.firstSeq state.lastSeq limit scans (span limit i) =
      some (some ((scanned s matches_ state limit (i + n)).map Stored.item)) := by
  have page : maxMessagePage ≤ filteredScanCap := by decide
  have full (k : ℕ) : ((scanned s matches_ state limit k).map Stored.item).length ≥ limit ↔
      limit ≤ (window s matches_ state limit k).length := by
    rw [List.length_map, scanned, List.length_take]
    omega
  induction n generalizing i scans with
  | zero =>
    obtain ⟨scans, rfl⟩ := Nat.exists_eq_add_of_lt enough
    rw [Nat.zero_add, scanNewest, fetchFiltered_eq]
    exact if_pos ((or_congr_left (full i)).mpr stops)
  | succ n ih =>
    obtain ⟨scans, rfl⟩ := Nat.exists_eq_add_of_lt (Nat.zero_lt_of_lt enough)
    have first : ¬ Stops s matches_ state limit i := before 0 (Nat.succ_pos n)
    have later (j : ℕ) (below : j < n) : ¬ Stops s matches_ state limit (i + 1 + j) := by
      have := before (j + 1) (by omega)
      rwa [show i + (j + 1) = i + 1 + j by omega] at this
    rw [show i + (n + 1) = i + 1 + n by omega] at stops ⊢
    rw [Nat.zero_add, scanNewest, fetchFiltered_eq, ← ih (show n < scans by omega) later stops]
    exact if_neg fun stopped => first ((or_congr_left (full i)).mp stopped)

omit [Tables] in
theorem mem_wanted {m : Stored} : m ∈ wanted s matches_ state ↔ m ∈ s.matching matches_ ∧ m.seq ≤ state.lastSeq := by
  rw [wanted, mem_between]
  exact and_congr_right fun _ => by omega

variable (matches_) in
omit [Tables] in
theorem wanted_empty (of : state.Of s) (none : state.msgs = 0 ∨ state.lastSeq = 0) : wanted s matches_ state = [] := by
  refine List.eq_nil_iff_forall_not_mem.mpr fun m member => ?_
  obtain ⟨matching, below⟩ := mem_wanted.mp member
  have stored := (List.mem_filter.mp matching).1
  have numbered := of.numbered m stored
  rcases none with none | none
  · have := of.counted none m stored
    omega
  · omega

variable (s matches_ state limit) in
omit [Tables] in
theorem window_suffix (k : ℕ) : window s matches_ state limit k <:+ wanted s matches_ state := by
  rw [window, wanted]
  generalize scan : scanFrom state.firstSeq state.lastSeq (span limit k) = start
  by_cases within : start ≤ state.lastSeq + 1
  · exact ⟨_, between_append (s.matching_asc matches_) (Nat.zero_le start) within⟩
  · rw [between_empty (by omega)]
    exact List.nil_suffix

omit [Tables] in
/-- The last scan is over the newest matches. -/
theorem newest_eq (of : state.Of s) (stops : Stops s matches_ state limit k) :
    (wanted s matches_ state).drop ((wanted s matches_ state).length - limit) =
      (window s matches_ state limit k).drop ((window s matches_ state limit k).length - limit) := by
  rcases stops with page | whole
  · obtain ⟨older, split⟩ := window_suffix s matches_ state limit k
    rw [← split, List.length_append, List.drop_append, List.drop_of_length_le (by omega), List.nil_append]
    congr 1
    omega
  · have same : window s matches_ state limit k = wanted s matches_ state := by
      rw [window, whole, wanted]
      refine List.filter_congr fun m member => ?_
      have := of.first m (List.mem_filter.mp member).1
      rw [decide_eq_decide]
      omega
    rw [same]

omit [Tables] in
/-- The newest of what was read first are not the newest. -/
theorem newest_cut {l : List Stored} (asc : Ascending Stored.seq l) {cap limit : ℕ} (some_ : 0 < limit) (page : limit ≤ cap)
    (cut : cap < l.length) :
    ((l.take cap).drop (cap - limit)).map Stored.seq ≠ (l.drop (l.length - limit)).map Stored.seq := by
  intro same
  have last := congrArg (fun seqs : List ℕ => seqs[limit - 1]?) same
  simp only [List.getElem?_map, List.getElem?_drop, List.getElem?_take] at last
  rw [show cap - limit + (limit - 1) = cap - 1 by omega, show l.length - limit + (limit - 1) = l.length - 1 by omega,
    if_pos (by omega), List.getElem?_eq_getElem (by omega), List.getElem?_eq_getElem (by omega)] at last
  have below := List.pairwise_iff_getElem.mp asc (cap - 1) (l.length - 1) (by omega) (by omega) (by omega)
  simp only [Option.map_some, Option.some.injEq] at last
  omega

omit [Tables] in
theorem pageAnswer_messages (subject : Str) (pageStart : ℕ) (page : List Item) :
    (pageAnswer state subject limit pageStart page).messages = page := by
  unfold pageAnswer
  split
  · next empty => exact empty.symm
  · rfl

/-- What enough scans answer. -/
theorem newest_answer (of : state.Of s) (paged : limit ≤ maxMessagePage) (before : ∀ j < k, ¬ Stops s matches_ state limit j)
    (stops : Stops s matches_ state limit k) (subject : Str) :
    ∃ answer, (∀ scans ≥ k + 1,
        filteredMessages (s.consumerOf matches_) deliver state subject 0 limit scans = some (some answer)) ∧
      answer.messages =
        ((scanned s matches_ state limit k).drop ((scanned s matches_ state limit k).length - limit)).map Stored.item := by
  by_cases none : state.msgs = 0 ∨ state.lastSeq = 0
  · have empty : window s matches_ state limit k = [] :=
      List.suffix_nil.mp (wanted_empty matches_ of none ▸ window_suffix s matches_ state limit k)
    refine ⟨emptyAnswer state subject, fun scans _ => if_pos none, ?_⟩
    rw [scanned, empty, List.take_nil, List.drop_nil]
    rfl
  · let page := ((scanned s matches_ state limit k).drop ((scanned s matches_ state limit k).length - limit)).map Stored.item
    refine ⟨pageAnswer state subject limit (if page = [] then 0 else seqOf page.head?) page, fun scans enough => ?_,
      pageAnswer_messages subject _ page⟩
    have read := scanNewest_eq (i := 0) paged (Nat.lt_of_succ_le enough) (by simpa using before) (by simpa using stops)
    rw [Nat.zero_add] at read
    have trimmed (l : List Item) : (if l.length > limit then l.drop (l.length - limit) else l) = l.drop (l.length - limit) := by
      split
      · rfl
      · rw [show l.length - limit = 0 by omega, List.drop_zero]
    rw [filteredMessages, if_neg none, if_pos rfl, show limit * 20 % 2 ^ 64 = span limit 0 from rfl, read]
    have cut := trimmed ((scanned s matches_ state limit k).map Stored.item)
    rw [List.length_map, ← List.map_drop] at cut
    simp only [List.length_map, ← List.map_drop, cut]
    rfl

/-- The newest matches are answered when the last scan reads all that it is over. -/
theorem newest_iff (of : state.Of s) (some_ : 0 < limit) (paged : limit ≤ maxMessagePage) (subject : Str) :
    NewestRight s matches_ state limit subject ↔ ScanFits s matches_ state limit := by
  classical
  constructor
  · rintro ⟨answer, ⟨enough, answered⟩, right⟩
    have reached := exists_stops matches_ of some_ paged
    have before (j : ℕ) (below : j < Nat.find reached) : ¬ Stops s matches_ state limit j := Nat.find_min reached below
    have stops := Nat.find_spec reached
    generalize Nat.find reached = k at before stops
    refine ⟨k, before, stops, ?_⟩
    obtain ⟨answer', answered', messages⟩ := newest_answer of paged before stops subject
    have same : answer = answer' := by
      have here := answered (max enough (k + 1)) (le_max_left ..)
      rw [answered' (max enough (k + 1)) (le_max_right ..)] at here
      exact (Option.some.inj (Option.some.inj here)).symm
    by_contra more
    rw [not_le] at more
    rw [← same, right, newest_eq of stops, scanned, List.length_take, min_eq_left more.le] at messages
    have page : limit ≤ filteredScanCap := paged.trans (by decide)
    refine newest_cut ((s.matching_asc matches_).between _ _) some_ page more ?_
    have seqs := congrArg (List.map seqOf) (congrArg (List.map some) messages)
    simp only [List.map_map] at seqs
    exact seqs.symm
  · rintro ⟨k, before, stops, fits⟩
    obtain ⟨answer, answered, messages⟩ := newest_answer of paged before stops subject
    refine ⟨answer, ⟨k + 1, answered⟩, ?_⟩
    rw [newest_eq of stops, messages, scanned, List.take_of_length_le fits]

end Newest

section Walk
variable (s : Stream) (matches_ : Str → Bool) (state : StreamState) (limit : ℕ)

/-- The matches from a sequence on. -/
def ahead (startSeq : ℕ) : List Stored := (wanted s matches_ state).filter fun m => startSeq ≤ m.seq

/-- The answers to a client that says where to start. -/
def answerFrom (subject : Str) (startSeq : ℕ) : Option FilteredAnswer :=
  (filteredMessages (s.consumerOf matches_) deliver state subject startSeq limit 0).join

/-- From the first sequence to the page that ends the stream, the pages have every match once. -/
def WalkRight (subject : Str) : Prop :=
  ∃ pages, walk (answerFrom s matches_ state limit subject) (fun pageEnd => pageEnd = state.lastSeq) pages 1 =
    some ((wanted s matches_ state).map Stored.item)

/-- What a page leaves: nothing matched, the stream ends, or it goes on behind the page. -/
inductive Leaves (startSeq : ℕ) (answer : FilteredAnswer) : Prop where
  | nothing : ahead s matches_ state startSeq = [] → answer.messages = [] → answer.pageEnd = 0 → Leaves startSeq answer
  | short : (ahead s matches_ state startSeq).length < limit →
      ahead s matches_ state startSeq ≠ [] →
      answer.messages = (ahead s matches_ state startSeq).map Stored.item → answer.pageEnd = state.lastSeq →
      Leaves startSeq answer
  | full (page : List Stored) : page.length = limit →
      ahead s matches_ state startSeq = page ++ ahead s matches_ state (answer.pageEnd + 1) →
      answer.messages = page.map Stored.item → (∃ m ∈ page, m.seq = answer.pageEnd) → (∀ m ∈ page, m.seq ≤ answer.pageEnd) →
      Leaves startSeq answer

variable {s matches_ state limit}

variable (s matches_ state limit) in
omit [Tables] in
/-- What follows a page is what comes after its last. -/
theorem rest_page (startSeq : ℕ) :
    ahead s matches_ state startSeq = (ahead s matches_ state startSeq).take limit ++
      ahead s matches_ state (bound Stored.seq startSeq ((ahead s matches_ state startSeq).take limit)) := by
  have asc : Ascending Stored.seq (wanted s matches_ state) := (s.matching_asc matches_).between _ _
  conv_lhs => rw [← List.take_append_drop limit (ahead s matches_ state startSeq)]
  exact congrArg _ (filter_bound asc startSeq limit).symm

omit [Tables] in
theorem between_rest (of : state.Of s) (startSeq : ℕ) :
    between Stored.seq (s.matching matches_) (if startSeq < state.firstSeq then state.firstSeq else startSeq)
      (state.lastSeq + 1) = ahead s matches_ state startSeq := by
  rw [ahead, wanted, between_from, Nat.max_eq_right (Nat.zero_le startSeq)]
  refine List.filter_congr fun m member => ?_
  have := of.first m (List.mem_filter.mp member).1
  rw [decide_eq_decide]
  split <;> omega

theorem answerFrom_eq (of : state.Of s) (some_ : ¬ (state.msgs = 0 ∨ state.lastSeq = 0)) (subject : Str) {startSeq : ℕ}
    (started : 0 < startSeq) :
    answerFrom s matches_ state limit subject startSeq =
      some (pageAnswer state subject limit (if startSeq < state.firstSeq then state.firstSeq else startSeq)
        (((ahead s matches_ state startSeq).take limit).map Stored.item)) := by
  rw [answerFrom, filteredMessages, if_neg some_, if_neg started.ne']
  simp only [fetchFiltered_eq, between_rest of]
  rfl

variable (matches_) in
/-- Every page leaves one of these. -/
theorem answerFrom_leaves (of : state.Of s) (some_ : 0 < limit) (subject : Str) {startSeq : ℕ} (started : 0 < startSeq) :
    ∃ answer, answerFrom s matches_ state limit subject startSeq = some answer ∧
      Leaves s matches_ state limit startSeq answer := by
  by_cases none : state.msgs = 0 ∨ state.lastSeq = 0
  · refine ⟨emptyAnswer state subject, ?_, .nothing ?_ rfl rfl⟩
    · rw [answerFrom, filteredMessages, if_pos none]
      rfl
    · rw [ahead, wanted_empty matches_ of none, List.filter_nil]
  refine ⟨_, answerFrom_eq of none subject started, ?_⟩
  generalize (if startSeq < state.firstSeq then state.firstSeq else startSeq : ℕ) = pageStart
  have split := rest_page s matches_ state limit startSeq
  by_cases nothing : ahead s matches_ state startSeq = []
  · rw [nothing, List.take_nil]
    exact .nothing nothing rfl rfl
  by_cases short : (ahead s matches_ state startSeq).length < limit
  · rw [List.take_of_length_le short.le]
    refine .short short nothing (pageAnswer_messages subject _ _) ?_
    have filled : (ahead s matches_ state startSeq).map Stored.item ≠ [] := by simpa using nothing
    rw [pageAnswer, if_neg filled]
    exact if_neg (by rw [List.length_map]; omega)
  · have size : ((ahead s matches_ state startSeq).take limit).length = limit := List.length_take_of_le (by omega)
    have asc : Ascending Stored.seq ((ahead s matches_ state startSeq).take limit) :=
      List.Pairwise.sublist (List.take_sublist _ _) (((s.matching_asc matches_).between _ _).filter _)
    generalize (ahead s matches_ state startSeq).take limit = page at split size asc
    rcases List.eq_nil_or_concat page with rfl | ⟨init, last, rfl⟩
    · rw [List.length_nil] at size
      omega
    · rw [List.concat_eq_append] at *
      have pageEnd : (pageAnswer state subject limit pageStart ((init ++ [last]).map Stored.item)).pageEnd = last.seq := by
        rw [pageAnswer, if_neg (by simp)]
        exact (if_pos (by rw [List.length_map]; exact size.ge)).trans (by rw [List.map_append]; simp [seqOf]; rfl)
      refine .full _ size ?_ (pageAnswer_messages subject _ _) ⟨last, by simp, pageEnd.symm⟩ fun m member => ?_
      · rw [pageEnd]
        rwa [bound_append] at split
      · rw [pageEnd]
        have := asc.lt_bound startSeq member
        rw [bound_append] at this
        omega

theorem walk_succ {isLast : ℕ → Bool} {answer : FilteredAnswer} {subject : Str} {startSeq : ℕ}
    (answered : answerFrom s matches_ state limit subject startSeq = some answer) (pages : ℕ) :
    walk (answerFrom s matches_ state limit subject) isLast (pages + 1) startSeq =
      if isLast answer.pageEnd then some answer.messages
      else (walk (answerFrom s matches_ state limit subject) isLast pages (answer.pageEnd + 1)).map (answer.messages ++ ·) := by
  rw [walk, answered]

omit [Tables] in
theorem ahead_le {startSeq : ℕ} {m : Stored} (member : m ∈ ahead s matches_ state startSeq) : m.seq ≤ state.lastSeq :=
  (mem_wanted.mp (List.mem_filter.mp member).1).2

variable (matches_) in
/-- The pages from a sequence on are what is left, once the client stops: at the last sequence, and at an empty page
unless it never meets one. -/
theorem walk_reads (of : state.Of s) (some_ : 0 < limit) (subject : Str) (isLast : ℕ → Bool)
    (stops : isLast state.lastSeq = true) (goes : ∀ e, 0 < e → e < state.lastSeq → isLast e = false) {startSeq : ℕ}
    (started : 0 < startSeq)
    (reached : isLast 0 = true ∨ (ahead s matches_ state startSeq).length % limit ≠ 0 ∨
      ∃ m ∈ ahead s matches_ state startSeq, m.seq = state.lastSeq) :
    ∃ pages, walk (answerFrom s matches_ state limit subject) isLast pages startSeq =
      some ((ahead s matches_ state startSeq).map Stored.item) := by
  induction size : (ahead s matches_ state startSeq).length using Nat.strongRecOn generalizing startSeq with
  | ind n ih =>
    obtain ⟨answer, answered, leaves⟩ := answerFrom_leaves matches_ of some_ subject started
    cases leaves with
    | nothing nothing messages pageEnd =>
      have ends : isLast 0 = true := by
        rcases reached with ends | more | ⟨m, member, -⟩
        · exact ends
        · rw [nothing, List.length_nil, Nat.zero_mod] at more
          contradiction
        · rw [nothing] at member
          cases member
      refine ⟨1, ?_⟩
      rw [walk_succ answered, pageEnd, if_pos ends, messages, nothing, List.map_nil]
    | short _ _ messages pageEnd =>
      refine ⟨1, ?_⟩
      rw [walk_succ answered, pageEnd, if_pos stops, messages]
    | full page length split messages last greatest =>
      obtain ⟨m, member, here⟩ := last
      have bounded : answer.pageEnd ≤ state.lastSeq := here ▸ ahead_le (split ▸ List.mem_append_left _ member)
      by_cases done : answer.pageEnd = state.lastSeq
      · have none : ahead s matches_ state (answer.pageEnd + 1) = [] := by
          refine List.eq_nil_iff_forall_not_mem.mpr fun b later => ?_
          have above := of_decide_eq_true (List.mem_filter.mp later).2
          have := ahead_le later
          omega
        refine ⟨1, ?_⟩
        rw [walk_succ answered, done, if_pos stops, messages, split, none, List.append_nil]
      · have positive : 0 < answer.pageEnd := here ▸ of.numbered m (List.mem_filter.mp (mem_wanted.mp
          (List.mem_filter.mp (split ▸ List.mem_append_left _ member : m ∈ ahead s matches_ state startSeq)).1).1).1
        have fewer := congrArg List.length split
        rw [List.length_append, length] at fewer
        have further : isLast 0 = true ∨ (ahead s matches_ state (answer.pageEnd + 1)).length % limit ≠ 0 ∨
            ∃ m ∈ ahead s matches_ state (answer.pageEnd + 1), m.seq = state.lastSeq := by
          rcases reached with ends | more | ⟨b, listed, atEnd⟩
          · exact Or.inl ends
          · rw [fewer, Nat.add_mod_left] at more
            exact Or.inr (Or.inl more)
          · rw [split] at listed
            rcases List.mem_append.mp listed with early | late
            · have := greatest b early
              omega
            · exact Or.inr (Or.inr ⟨b, late, atEnd⟩)
        obtain ⟨pages, read⟩ := ih _ (by omega) (Nat.add_one_pos answer.pageEnd) further rfl
        refine ⟨pages + 1, ?_⟩
        rw [walk_succ answered, goes _ positive (by omega), read, messages, split, List.map_append]
        rfl

omit [Tables] in
theorem ahead_one (of : state.Of s) : ahead s matches_ state 1 = wanted s matches_ state :=
  List.filter_eq_self.mpr fun m member => decide_eq_true (of.numbered m (List.mem_filter.mp (mem_wanted.mp member).1).1)

/-- A client that looks for the last sequence goes round for ever when an empty page ends the stream. -/
theorem walk_endless (of : state.Of s) (some_ : 0 < limit) (subject : Str) (nonempty : state.lastSeq ≠ 0)
    (whole : (wanted s matches_ state).length % limit = 0) (last : ∀ m ∈ wanted s matches_ state, m.seq ≠ state.lastSeq)
    (pages : ℕ) {startSeq : ℕ} (started : 0 < startSeq) (left : (ahead s matches_ state startSeq).length % limit = 0) :
    walk (answerFrom s matches_ state limit subject) (fun pageEnd => pageEnd = state.lastSeq) pages startSeq = none := by
  induction pages generalizing startSeq with
  | zero => rfl
  | succ pages ih =>
    obtain ⟨answer, answered, leaves⟩ := answerFrom_leaves matches_ of some_ subject started
    rw [walk_succ answered]
    cases leaves with
    | nothing _ _ pageEnd =>
      -- the next request starts at the first sequence again
      rw [pageEnd, if_neg (by simpa using nonempty.symm), ih Nat.one_pos (by rwa [ahead_one of])]
      rfl
    | short short some_ _ _ =>
      rw [Nat.mod_eq_of_lt short, List.length_eq_zero_iff] at left
      exact absurd left some_
    | full page length split messages atPage _ =>
      obtain ⟨m, member, here⟩ := atPage
      have inside : m ∈ ahead s matches_ state startSeq := split ▸ List.mem_append_left _ member
      have notLast := last m (List.mem_filter.mp inside).1
      rw [split, List.length_append, length, Nat.add_mod_left] at left
      rw [if_neg (by simpa [← here] using notLast), ih (Nat.succ_pos _) left]
      rfl

/-- The pages end at the last sequence when the last of them is not full, or the last match is the last message. -/
theorem walk_iff (of : state.Of s) (some_ : 0 < limit) (subject : Str) :
    WalkRight s matches_ state limit subject ↔
      (wanted s matches_ state).length % limit ≠ 0 ∨ (∃ m ∈ wanted s matches_ state, m.seq = state.lastSeq) ∨
        state.lastSeq = 0 := by
  have all : ahead s matches_ state 1 = wanted s matches_ state := ahead_one of
  constructor
  · rintro ⟨pages, read⟩
    by_contra endless
    simp only [not_or, not_not] at endless
    obtain ⟨whole, last, nonempty⟩ := endless
    rw [walk_endless of some_ subject nonempty whole (fun m member atEnd => last ⟨m, member, atEnd⟩) pages Nat.one_pos
      (by rwa [all])] at read
    contradiction
  · intro reached
    have read := walk_reads matches_ of some_ subject (fun pageEnd => pageEnd = state.lastSeq) (decide_eq_true rfl)
      (fun e _ below => decide_eq_false below.ne) Nat.one_pos (by
        rw [all]
        rcases reached with more | last | empty
        · exact Or.inr (Or.inl more)
        · exact Or.inr (Or.inr last)
        · exact Or.inl (decide_eq_true empty.symm))
    rwa [all] at read

/-- `canNext` of the toolbar in the browser: an empty page is the last one for it. -/
def canNext (last pageEnd : ℕ) : Bool := pageEnd < last ∧ pageEnd > 0

/-- The browser reads every match once. -/
theorem walk_toolbar (of : state.Of s) (some_ : 0 < limit) (subject : Str) :
    ∃ pages, walk (answerFrom s matches_ state limit subject) (fun pageEnd => !canNext state.lastSeq pageEnd) pages 1 =
      some ((wanted s matches_ state).map Stored.item) := by
  have read := walk_reads matches_ of some_ subject (fun pageEnd => !canNext state.lastSeq pageEnd) (by simp [canNext])
    (fun e positive below => by simp [canNext, positive, below]) Nat.one_pos (Or.inl (by simp [canNext]))
  rwa [ahead_one of] at read

/-- The pages of a subject are right when the last scan reads all that it is over, and the last page says that it is. -/
theorem filteredMessages_right (of : state.Of s) (subject : Str) (limit : Int) :
    let page := messageLimit limit
    NewestRight s matches_ state page subject ∧ WalkRight s matches_ state page subject ↔
      ScanFits s matches_ state page ∧
        ((wanted s matches_ state).length % page ≠ 0 ∨ (∃ m ∈ wanted s matches_ state, m.seq = state.lastSeq) ∨
          state.lastSeq = 0) := by
  obtain ⟨some_, paged⟩ := messageLimit_bounds limit
  exact and_congr (newest_iff of some_ paged subject) (walk_iff of some_ subject)

end Walk

end Delivered

section Samples
attribute [local instance] asciiTables

def gappedState : StreamState := ⟨3, 3, 7⟩

theorem gappedState_of : gappedState.Of gapped where
  first := by decide
  numbered := by decide
  counted := by decide
  bounded := by decide

theorem filteredMessages_right_gapped : gappedState.Of gapped ∧
    (NewestRight gapped (· = "a".toList) gappedState (messageLimit 5) "a".toList ∧
        WalkRight gapped (· = "a".toList) gappedState (messageLimit 5) "a".toList ↔
      ScanFits gapped (· = "a".toList) gappedState (messageLimit 5) ∧
        ((wanted gapped (· = "a".toList) gappedState).length % messageLimit 5 ≠ 0 ∨
          (∃ m ∈ wanted gapped (· = "a".toList) gappedState, m.seq = gappedState.lastSeq) ∨ gappedState.lastSeq = 0)) :=
  ⟨gappedState_of, filteredMessages_right gappedState_of "a".toList 5⟩

theorem walk_toolbar_gapped : gappedState.Of gapped ∧
    ∃ pages, walk (answerFrom gapped (· = "a".toList) gappedState 2 "a".toList) (fun pageEnd => !canNext gappedState.lastSeq pageEnd) pages 1 =
      some ((wanted gapped (· = "a".toList) gappedState).map Stored.item) :=
  ⟨gappedState_of, walk_toolbar gappedState_of (by decide) "a".toList⟩

/-- A stream with so many messages on one subject. -/
def busy (n : ℕ) : Stream where
  messages := (List.range n).map fun i => ⟨i + 1, "a".toList, .text [], [], 0⟩
  ascending := by
    refine List.pairwise_map.mpr (List.pairwise_lt_range.imp fun below => ?_)
    exact Nat.succ_lt_succ below

theorem busy_seq {n : ℕ} {m : Stored} (member : m ∈ (busy n).messages) : 0 < m.seq ∧ m.seq ≤ n := by
  obtain ⟨i, below, rfl⟩ := List.mem_map.mp member
  exact ⟨Nat.succ_pos i, List.mem_range.mp below⟩

/-- What came after is deleted. -/
def busyOnce : Stream := busy 50050

def busyOnceState : StreamState := ⟨50050, 1, 70100⟩

theorem busyOnce_seq {m : Stored} (member : m ∈ busyOnce.messages) : 0 < m.seq ∧ m.seq ≤ 50050 := busy_seq member

theorem busyOnce_of : busyOnceState.Of busyOnce where
  first _ member := (busyOnce_seq member).1
  numbered _ member := (busyOnce_seq member).1
  counted none := absurd none (by decide)
  bounded := by decide

/-- All of it is up to the last message. -/
theorem busyOnce_between {lo : ℕ} (first : lo ≤ 1) :
    (between Stored.seq (busyOnce.matching fun _ => true) lo (busyOnceState.lastSeq + 1)).length = 50050 := by
  have whole : between Stored.seq (busyOnce.matching fun _ => true) lo (busyOnceState.lastSeq + 1) = busyOnce.messages := by
    rw [between, Stream.matching, List.filter_true]
    refine List.filter_eq_self.mpr fun m member => decide_eq_true ?_
    have := busyOnce_seq member
    have last : busyOnceState.lastSeq = 70100 := rfl
    omega
  rw [whole, busyOnce, busy, List.length_map, List.length_range]

/-- No message is stored after the deletion. -/
theorem busyOnce_quiet {lo : ℕ} (late : 50050 < lo) :
    between Stored.seq (busyOnce.matching fun _ => true) lo (busyOnceState.lastSeq + 1) = [] := by
  refine List.eq_nil_iff_forall_not_mem.mpr fun m member => ?_
  obtain ⟨stored, above, -⟩ := mem_between.mp member
  have := busyOnce_seq (List.mem_filter.mp stored).1
  omega

/-- The scans over the last 1000 and the last 20000 messages find nothing. -/
theorem busyOnce_goes_on {k : ℕ} (early : k < 2) : ¬ Stops busyOnce (fun _ => true) busyOnceState 50 k := by
  have late : 50050 < scanFrom busyOnceState.firstSeq busyOnceState.lastSeq (span 50 k) := by
    obtain rfl | rfl : k = 0 ∨ k = 1 := by omega
    · decide
    · decide
  have first : busyOnceState.firstSeq = 1 := rfl
  rintro (page | whole)
  · rw [window, busyOnce_quiet late] at page
    contradiction
  · omega

/-- The newest of it are not found, and its pages have no end. -/
theorem filteredMessages_busyOnce :
    ¬ NewestRight busyOnce (fun _ => true) busyOnceState (messageLimit 0) "a".toList ∧
      ¬ WalkRight busyOnce (fun _ => true) busyOnceState (messageLimit 0) "a".toList := by
  have page : messageLimit 0 = 50 := rfl
  rw [page]
  constructor
  · rw [newest_iff busyOnce_of (by decide) (by decide)]
    rintro ⟨k, before, stops, fits⟩
    have third : scanFrom busyOnceState.firstSeq busyOnceState.lastSeq (span 50 2) = 1 := rfl
    obtain rfl : k = 2 := by
      rcases Nat.lt_trichotomy k 2 with early | same | late
      · exact absurd stops (busyOnce_goes_on early)
      · exact same
      · exact absurd (Or.inr third) (before 2 late)
    rw [window, third, busyOnce_between le_rfl] at fits
    exact absurd fits (by decide)
  · rw [walk_iff busyOnce_of (by decide)]
    rintro (more | ⟨m, member, atEnd⟩ | empty)
    · exact more (by rw [wanted, busyOnce_between (Nat.zero_le 1)])
    · have := busyOnce_seq (List.mem_filter.mp (mem_wanted.mp member).1).1
      have last : busyOnceState.lastSeq = 70100 := rfl
      omega
    · contradiction

end Samples
end NatsExplorer.Handler
