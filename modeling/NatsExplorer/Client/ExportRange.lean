import NatsExplorer.Handler.Across

/-! A whole time range in the browser: the export (`client/src/lib/exportRange.ts`) and the view that fills itself in
(`SubjectDetail.tsx`). Both start from one answer over all connections and page on by the cursors of those in it. -/
namespace NatsExplorer.Client
open Go History Handler Paging Streams

/-- `EXPORT_MAX_MESSAGES` -/
def exportMaxMessages : Nat := 200000

/-- `PAGE` of the export. -/
def exportPage : Nat := 5000

/-- `RANGE_PAGE` -/
def rangePage : Nat := 2000

/-- `RANGE_AUTOLOAD_MAX` -/
def rangeAutoloadMax : Nat := 50000

structure RangeOpts where
  fromTs : Int
  toTs : Int
  branch : Bool
  limit : Nat
  connID : Str := []
  expr : Str := []
  beforeTs : Int := 0
  beforeSeq : Nat := 0
  count : Bool := false

/-- The parameters of `api.getHistoryRange`; what is zero or empty is not sent. -/
def getHistoryRange (subject : Str) (opts : RangeOpts) : RangeQuery where
  subject := subject
  connID := opts.connID
  expr := opts.expr
  fromTs := opts.fromTs
  toTs := opts.toTs
  limit := if opts.limit = 0 then none else some opts.limit
  branch := opts.branch
  beforeTs := opts.beforeTs
  beforeSeq := if opts.beforeTs = 0 then 0 else opts.beforeSeq
  count := opts.count

/-- The last message of every connection, which is its oldest. -/
def oldest (messages : List NatsMessage) : OrderedMap Str NatsMessage :=
  messages.foldl (fun cursors m => if m.connID ≠ [] then cursors.set m.connID m else cursors) .empty

section Paging
variable (api : RangeQuery → Except Error RangeResponse) (subject : Str) (fromTs toTs : Int)

def olderPages (limit : Nat) (messages : List NatsMessage) : Except Error (List RangeResponse) :=
  (oldest messages).entries.mapM fun (connID, m) =>
    api (getHistoryRange subject
      { fromTs := fromTs, toTs := toTs, branch := true, limit := limit, connID := connID, beforeTs := m.timestamp,
        beforeSeq := m.sequence })

structure WholeRange where
  messages : List NatsMessage
  truncated : Bool

/-- The loop of `fetchWholeRange` with what is left of its guard. -/
def fetchOlder : Nat → List NatsMessage → Bool → Except Error (List NatsMessage × Bool)
  | 0, messages, more => pure (messages, more)
  | guard + 1, messages, more =>
    if more && messages.length < exportMaxMessages then
      if (oldest messages).keys = [] then pure (messages, more)
      else do
        let pages ← olderPages api subject fromTs toTs exportPage messages
        let older := pages.flatMap RangeResponse.messages
        if older = [] then pure (messages, more)
        else fetchOlder guard (messages ++ older) (pages.any RangeResponse.more)
    else pure (messages, more)

def fetchWholeRange (seed : List NatsMessage) (more : Bool) : Except Error WholeRange := do
  let (messages, more) ← fetchOlder api subject fromTs toTs 1000 seed more
  pure ⟨messages, more && exportMaxMessages ≤ messages.length⟩

/-- What the view has of the range. -/
structure RangedData where
  messages : List NatsMessage
  more : Bool

/-- A request that fails leaves the view as it is. -/
def loadOlderRange (data : RangedData) : RangedData :=
  if !data.more || rangeAutoloadMax ≤ data.messages.length then data
  else if (oldest data.messages).keys = [] then data
  else
    match olderPages api subject fromTs toTs rangePage data.messages with
    | .error _ => data
    | .ok pages =>
      let older := pages.flatMap RangeResponse.messages
      ⟨data.messages ++ older, older ≠ [] && pages.any RangeResponse.more⟩

/-- The first request, over all connections. -/
def firstPage : RangeQuery :=
  getHistoryRange subject { fromTs := fromTs, toTs := toTs, branch := true, limit := rangePage, count := true }

end Paging

/-- What is recorded on every connection that is asked. -/
structure Recording (h : HistoryHandler) [Tables] (visible : List Str) (all : Str → List Record) : Prop where
  distinct : visible.Nodup
  named : ∀ id ∈ visible, id ≠ []
  recorded : ∀ id ∈ visible, ∃ earlier current mem, all id = earlier ++ current ∧ Recorded h id earlier current mem

section Whole
variable [Tables] [Filter.Compiler] {h : HistoryHandler} {visible : List Str} {all : Str → List Record} {subject : Str}
  {fromTs toTs : Int} {messages : List NatsMessage} {more : Bool}

/-- What a connection has of the range. -/
def listOf (visible : List Str) (all : Str → List Record) (q : RangeQuery) (id : Str) : List NatsMessage :=
  if id ∈ visible then stored id (all id) q.reads else []

/-- Every message of the range, and none of them twice. -/
def Whole (visible : List Str) (all : Str → List Record) (q : RangeQuery) (messages : List NatsMessage) : Prop :=
  messages.Nodup ∧ ∀ id ∈ visible, ∀ m ∈ stored id (all id) q.wants, m ∈ messages

/-- Each connection that has something of the range has some of the newest `n` messages. -/
def Begun (visible : List Str) (all : Str → List Record) (q : RangeQuery) (n : Nat) : Prop :=
  ∀ id ∈ visible, stored id (all id) q.wants ≠ [] →
    ∃ m ∈ Handler.newest visible (fun id => stored id (all id) q.reads) n, m.connID = id

omit [Filter.Compiler] in
theorem Recording.listed (recording : Recording h visible all) (q : RangeQuery) :
    Listed visible (listOf visible all q) where
  distinct := recording.distinct
  own id m member := by
    unfold listOf at member
    split at member
    · obtain ⟨r, _, rfl⟩ := mem_picked member
      rfl
    · cases member
  desc id := by
    unfold listOf
    split
    · next there =>
      obtain ⟨earlier, current, mem, same, rec_⟩ := recording.recorded id there
      rw [same]
      exact rec_.stored_desc _
    · exact Descending.nil

omit [Filter.Compiler] in
theorem newest_listOf (q : RangeQuery) (n : Nat) :
    Handler.newest visible (listOf visible all q) n = Handler.newest visible (fun id => stored id (all id) q.reads) n := by
  unfold Handler.newest
  congr 2
  exact List.flatMap_congr fun id member => if_pos member

variable (rt : RangeQuery → Runtime) (now : RangeQuery → Int) (h visible) in
/-- The server, as the browser asks it. -/
def answers (q : RangeQuery) : Except Error RangeResponse := range (rt q) h (now q) visible q

variable {rt : RangeQuery → Runtime} {now : RangeQuery → Int}

omit [Tables] [Filter.Compiler] in
theorem oldest_eq (named : ∀ m ∈ messages, m.connID ≠ []) : oldest messages = cursors NatsMessage.connID messages := by
  refine List.foldl_ext _ _ _ fun cursors m member => ?_
  rw [if_pos (named m member)]

omit [Filter.Compiler] in
theorem mem_listOf {q : RangeQuery} {id : Str} {m : NatsMessage} (member : m ∈ listOf visible all q id) :
    id ∈ visible ∧ m ∈ stored id (all id) q.reads := by
  unfold listOf at member
  split at member
  · exact ⟨‹_›, member⟩
  · cases member

/-- The server has a database, and accepts the range. -/
structure Accepted (h : HistoryHandler) (subject : Str) (fromTs toTs : Int) (db : DB) : Prop where
  open_ : h.db = some db
  named : subject ≠ []
  ranged : fromTs ≠ 0 ∨ toTs ≠ 0

variable {db : DB} {limit : Nat} {id : Str} {m : NatsMessage}

theorem Recording.page_answer (recording : Recording h visible all) (rt : RangeQuery → Runtime)
    (past : ∀ q, ∀ id ∈ visible, ∀ r ∈ all id, r.timestamp ≤ now q) (accepted : Accepted h subject fromTs toTs db)
    (room : 0 < limit) (most : limit ≤ maxRangeLimit)
    (member : m ∈ listOf visible all (firstPage subject fromTs toTs) id) :
    ∃ resp, answers h visible rt now (getHistoryRange subject
      { fromTs := fromTs, toTs := toTs, branch := true, limit := limit, connID := id, beforeTs := m.timestamp,
        beforeSeq := m.sequence }) = .ok resp ∧
      (⟨resp.messages, resp.more⟩ : Answer NatsMessage) =
        below NatsMessage.mark (listOf visible all (firstPage subject fromTs toTs)) limit id m := by
  obtain ⟨there, listed⟩ := mem_listOf member
  obtain ⟨earlier, current, mem, same, rec_⟩ := recording.recorded id there
  have valid : Valid (earlier ++ current) (some m.mark) := same ▸ stored_valid m listed
  generalize asked : getHistoryRange subject
    { fromTs := fromTs, toTs := toTs, branch := true, limit := limit, connID := id, beforeTs := m.timestamp,
      beforeSeq := m.sequence } = q
  have ids : connIDs visible q.connID = [id] := asked ▸ if_pos (recording.named id there)
  have lines : q.lines = limit := by
    subst asked
    change limitParam (if limit = 0 then none else some (limit : Int)) _ _ = limit
    rw [if_neg room.ne']
    simp only [limitParam]
    rw [if_neg (by omega), if_neg (by omega)]
    exact Int.toNat_natCast limit
  have dated : 0 < m.timestamp := (rec_.positive valid _ rfl).1
  have ts : q.beforeTs = m.timestamp := by rw [← asked]; rfl
  have seq : q.beforeSeq = m.sequence := by rw [← asked]; exact if_neg dated.ne'
  have reads : q.reads = (firstPage subject fromTs toTs).reads := by rw [← asked]; rfl
  have rest : Listed (connIDs visible q.connID) fun id =>
      after NatsMessage.mark (listOf visible all (firstPage subject fromTs toTs) id) (some m.mark) := by
    rw [ids]
    have listed := recording.listed (firstPage subject fromTs toTs)
    exact ⟨List.nodup_singleton id, fun id m member => listed.own id m ((after_sublist ..).subset member),
      fun id => (listed.desc id).past _⟩
  have pages : ∀ id' ∈ connIDs visible q.connID, db.rangePage (rt q) id' q.subject q.scope q.fromTs
      (if q.toTs = 0 then now q else q.toTs) q.beforeTs q.beforeSeq q.lines =
        (after NatsMessage.mark (listOf visible all (firstPage subject fromTs toTs) id') (some m.mark)).take q.lines := by
    intro id' member
    rw [ids] at member
    obtain rfl := List.mem_singleton.mp member
    rw [listOf, if_pos there, same, ts, seq, ← reads]
    exact rec_.range_read (rt q) valid (fun r known => past q id' there r (same ▸ known)) accepted.open_ q q.lines
  obtain ⟨total, answered⟩ := range_plain (rt q) visible accepted.open_ (asked ▸ accepted.named)
    (asked ▸ accepted.ranged) (asked ▸ rfl) rest pages
  refine ⟨_, answered, ?_⟩
  rw [ids] at rest
  simp only [ids, rest.newest_one, moreOf_one, lines]
  rfl

omit [Tables] [Filter.Compiler] in
/-- Requests that all succeed, each with the page it is to have. -/
theorem mapM_ok {A B C E : Type} {f : A → Except E B} {g : B → C} {k : A → C} {l : List A}
    (each : ∀ a ∈ l, ∃ b, f a = .ok b ∧ g b = k a) : ∃ bs, l.mapM f = .ok bs ∧ bs.map g = l.map k := by
  induction l with
  | nil => exact ⟨[], rfl, rfl⟩
  | cons a l ih =>
    obtain ⟨b, first, page⟩ := each a List.mem_cons_self
    obtain ⟨bs, rest, pages⟩ := ih fun a' member => each a' (List.mem_cons_of_mem a member)
    refine ⟨b :: bs, ?_, ?_⟩
    · simp only [List.mapM_cons, first, rest]
      rfl
    · rw [List.map_cons, List.map_cons, page, pages]

/-- Of each connection the list has what is on top of its messages, of the same connections as at first. -/
structure Grown (lists : Str → List NatsMessage) (seed messages : List NatsMessage) : Prop where
  reading : Reading NatsMessage.connID NatsMessage.mark lists messages
  begun : ∀ id, part NatsMessage.connID id messages = [] ↔ part NatsMessage.connID id seed = []

/-- What is asked of all connections that have begun. -/
theorem Recording.olderPages_eq (recording : Recording h visible all) (rt : RangeQuery → Runtime)
    (past : ∀ q, ∀ id ∈ visible, ∀ r ∈ all id, r.timestamp ≤ now q) (accepted : Accepted h subject fromTs toTs db)
    (room : 0 < limit) (most : limit ≤ maxRangeLimit) {seed : List NatsMessage}
    (grown : Grown (listOf visible all (firstPage subject fromTs toTs)) seed messages) :
    ∃ pages, olderPages (answers h visible rt now) subject fromTs toTs limit messages = .ok pages ∧
      ((oldest messages).keys = [] → Done NatsMessage.connID (listOf visible all (firstPage subject fromTs toTs)) messages) ∧
      (let older := pages.flatMap RangeResponse.messages
      (older = [] → Done NatsMessage.connID (listOf visible all (firstPage subject fromTs toTs)) messages) ∧
      Grown (listOf visible all (firstPage subject fromTs toTs)) seed (messages ++ older) ∧
      (pages.any RangeResponse.more = false →
        Done NatsMessage.connID (listOf visible all (firstPage subject fromTs toTs)) (messages ++ older)) ∧
      (pages.any RangeResponse.more = true → limit ≤ older.length)) := by
  have reading := grown.reading
  have named (m : NatsMessage) (member : m ∈ messages) : m.connID ≠ [] :=
    recording.named _ (mem_listOf (reading.subset member)).1
  have same := oldest_eq named
  have each : ∀ entry ∈ (cursors NatsMessage.connID messages).entries, ∃ resp,
      answers h visible rt now (getHistoryRange subject
        { fromTs := fromTs, toTs := toTs, branch := true, limit := limit, connID := entry.1,
          beforeTs := entry.2.timestamp, beforeSeq := entry.2.sequence }) = .ok resp ∧
      (⟨resp.messages, resp.more⟩ : Answer NatsMessage) =
        below NatsMessage.mark (listOf visible all (firstPage subject fromTs toTs)) limit entry.1 entry.2 := by
    rintro ⟨id, m⟩ listed
    obtain ⟨id', _, found⟩ := List.mem_filterMap.mp listed
    obtain ⟨m', there, pair⟩ := Option.map_eq_some_iff.mp found
    cases pair
    rw [get_cursors] at there
    exact recording.page_answer rt past accepted room most ((reading.top id).subset (List.mem_of_getLast? there))
  obtain ⟨pages, asked, shown⟩ := mapM_ok each
  have older_eq : pages.flatMap RangeResponse.messages = Streams.older NatsMessage.connID NatsMessage.mark
      (listOf visible all (firstPage subject fromTs toTs)) limit messages := by
    rw [Streams.older, Streams.pages]
    refine Eq.trans ?_ (congrArg (List.flatMap Answer.page) shown)
    rw [List.flatMap_map]
  have more_eq : pages.any RangeResponse.more = (Streams.pages NatsMessage.connID NatsMessage.mark
      (listOf visible all (firstPage subject fromTs toTs)) limit messages).any Answer.more := by
    rw [Streams.pages]
    refine Eq.trans ?_ (congrArg (List.any · Answer.more) shown)
    rw [List.any_map]
    rfl
  refine ⟨pages, by rw [olderPages, same]; exact asked, fun none id shown => ?_, ?_⟩
  · rw [same] at none
    exact absurd (mem_cursors.mpr shown) (none ▸ List.not_mem_nil)
  · simp only [older_eq, more_eq]
    refine ⟨reading.done_empty room, ⟨reading.next, fun id => (reading.begun_next id).trans (grown.begun id)⟩, ?_, ?_⟩
    · exact fun last => reading.done_next fun p member => List.any_eq_false.mp last p member |> eq_false_of_ne_true
    · exact fun more => reading.size_le (List.any_eq_true.mp more)

/-- The export ends with everything there is of the connections it began with, unless it says that it does not. -/
theorem Recording.fetchOlder_spec (recording : Recording h visible all) (rt : RangeQuery → Runtime)
    (past : ∀ q, ∀ id ∈ visible, ∀ r ∈ all id, r.timestamp ≤ now q) (accepted : Accepted h subject fromTs toTs db)
    {seed : List NatsMessage} {guard : Nat} (grown : Grown (listOf visible all (firstPage subject fromTs toTs)) seed messages)
    (enough : more = true → exportMaxMessages ≤ messages.length + exportPage * guard)
    (last : more = false → Done NatsMessage.connID (listOf visible all (firstPage subject fromTs toTs)) messages) :
    ∃ messages' more', fetchOlder (answers h visible rt now) subject fromTs toTs guard messages more = .ok (messages', more') ∧
      Grown (listOf visible all (firstPage subject fromTs toTs)) seed messages' ∧
      ((more' && decide (exportMaxMessages ≤ messages'.length)) = false →
        Done NatsMessage.connID (listOf visible all (firstPage subject fromTs toTs)) messages') := by
  induction guard generalizing messages more with
  | zero =>
    refine ⟨messages, more, rfl, grown, fun short => ?_⟩
    cases more with
    | false => exact last rfl
    | true => exact absurd (enough rfl) (of_decide_eq_false short)
  | succ guard ih =>
    obtain ⟨pages, asked, unbegun, empty, next, done, full⟩ := recording.olderPages_eq rt past accepted
      (by decide : 0 < exportPage) (by decide) grown
    rw [fetchOlder]
    split
    · next going =>
      obtain ⟨rfl, below⟩ := Bool.and_eq_true_iff.mp going
      split
      · next none => exact ⟨messages, true, rfl, grown, fun _ => unbegun none⟩
      · simp only [asked, bind, Except.bind]
        split
        · next none => exact ⟨messages, true, rfl, grown, fun _ => empty none⟩
        · refine ih next (fun more => ?_) done
          have longer := full more
          have bound := enough rfl
          rw [Nat.mul_succ] at bound
          rw [List.length_append]
          omega
    · next stopped =>
      refine ⟨messages, more, rfl, grown, fun short => ?_⟩
      cases more with
      | false => exact last rfl
      | true =>
        rw [Bool.true_and] at stopped short
        have below := of_decide_eq_false short
        exact absurd (decide_eq_true (not_le.mp below)) stopped

/-- A round of the view, and as many as there are left. -/
theorem Recording.loadOlderRange_spec (recording : Recording h visible all) (rt : RangeQuery → Runtime)
    (past : ∀ q, ∀ id ∈ visible, ∀ r ∈ all id, r.timestamp ≤ now q) (accepted : Accepted h subject fromTs toTs db)
    {seed : List NatsMessage} {n : Nat} (data : RangedData)
    (grown : Grown (listOf visible all (firstPage subject fromTs toTs)) seed data.messages)
    (enough : data.more = true → rangeAutoloadMax ≤ data.messages.length + rangePage * n)
    (last : data.more = false → Done NatsMessage.connID (listOf visible all (firstPage subject fromTs toTs)) data.messages) :
    let load := loadOlderRange (answers h visible rt now) subject fromTs toTs
    load (load^[n] data) = load^[n] data ∧
      Grown (listOf visible all (firstPage subject fromTs toTs)) seed (load^[n] data).messages ∧
      ((load^[n] data).messages.length < rangeAutoloadMax →
        Done NatsMessage.connID (listOf visible all (firstPage subject fromTs toTs)) (load^[n] data).messages) := by
  intro load
  have settled {data : RangedData} (n : Nat)
      (grown : Grown (listOf visible all (firstPage subject fromTs toTs)) seed data.messages) (same : load data = data)
      (done : data.messages.length < rangeAutoloadMax →
        Done NatsMessage.connID (listOf visible all (firstPage subject fromTs toTs)) data.messages) :
      load (load^[n] data) = load^[n] data ∧
        Grown (listOf visible all (firstPage subject fromTs toTs)) seed (load^[n] data).messages ∧
        ((load^[n] data).messages.length < rangeAutoloadMax →
          Done NatsMessage.connID (listOf visible all (firstPage subject fromTs toTs)) (load^[n] data).messages) := by
    rw [Function.iterate_fixed same]
    exact ⟨same, grown, done⟩
  induction n generalizing data with
  | zero =>
    refine settled 0 grown (if_pos ?_) fun below => last ?_
    · cases more : data.more with
      | false => rfl
      | true => exact decide_eq_true (enough more)
    · cases more : data.more with
      | false => rfl
      | true => exact absurd (enough more) (not_le.mpr below)
  | succ n ih =>
    by_cases stopped : (!data.more || decide (rangeAutoloadMax ≤ data.messages.length)) = true
    · refine settled (n + 1) grown (if_pos stopped) fun below => last ?_
      rw [decide_eq_false (not_le.mpr below), Bool.or_false] at stopped
      exact Bool.not_eq_eq_eq_not.mp stopped
    · obtain ⟨pages, asked, unbegun, empty, next, done, full⟩ := recording.olderPages_eq rt past accepted
        (by decide : 0 < rangePage) (by decide) grown
      by_cases none : (oldest data.messages).keys = []
      · refine settled (n + 1) grown ?_ fun _ => unbegun none
        exact (if_neg stopped).trans (if_pos none)
      · have step : load data = ⟨data.messages ++ pages.flatMap RangeResponse.messages,
            decide (pages.flatMap RangeResponse.messages ≠ []) && pages.any RangeResponse.more⟩ := by
          change loadOlderRange _ _ _ _ data = _
          rw [loadOlderRange, if_neg stopped, if_neg none, asked]
        rw [Function.iterate_succ_apply, step]
        refine ih ⟨_, _⟩ next (fun more => ?_) fun more => ?_
        · have longer := full (Bool.and_eq_true_iff.mp more).2
          have going : data.more = true := by
            cases here : data.more with
            | true => rfl
            | false => exact absurd (by rw [here]; rfl) stopped
          have bound := enough going
          rw [Nat.mul_succ] at bound
          rw [List.length_append]
          omega
        · rcases Bool.and_eq_false_iff.mp more with nothing | last
          · have nil := not_not.mp (of_decide_eq_false nothing)
            rw [nil, List.append_nil]
            exact empty nil
          · exact done last

omit [Filter.Compiler] in
theorem Recording.whole_iff (recording : Recording h visible all)
    (grown : Grown (listOf visible all (firstPage subject fromTs toTs))
      (Handler.newest visible (listOf visible all (firstPage subject fromTs toTs)) rangePage) messages)
    (done : Done NatsMessage.connID (listOf visible all (firstPage subject fromTs toTs)) messages) :
    Whole visible all (firstPage subject fromTs toTs) messages ↔ Begun visible all (firstPage subject fromTs toTs) rangePage := by
  have nodup : messages.Nodup := grown.reading.nodup
  rw [Whole, and_iff_right nodup, Begun, ← newest_listOf]
  refine forall₂_congr fun id there => ?_
  have some_iff : part NatsMessage.connID id messages ≠ [] ↔
      ∃ m ∈ Handler.newest visible (listOf visible all (firstPage subject fromTs toTs)) rangePage, m.connID = id := by
    rw [Ne, grown.begun, List.eq_nil_iff_forall_not_mem, not_forall_not]
    exact exists_congr fun m => mem_part
  rw [← some_iff]
  have within : ∀ m ∈ stored id (all id) (firstPage subject fromTs toTs).wants,
      m ∈ listOf visible all (firstPage subject fromTs toTs) id := by
    intro m member
    obtain ⟨r, listed, rfl⟩ := List.mem_map.mp member
    obtain ⟨known, wanted⟩ := List.mem_filter.mp (List.mem_reverse.mp listed)
    rw [listOf, if_pos there]
    exact List.mem_map_of_mem (List.mem_reverse.mpr (List.mem_filter.mpr ⟨known, RangeQuery.reads_of_wants wanted⟩))
  constructor
  · intro every some_
    obtain ⟨m, member⟩ := List.exists_mem_of_ne_nil _ some_
    have own := (recording.listed (firstPage subject fromTs toTs)).own id m (within m member)
    exact List.ne_nil_of_mem (mem_part.mpr ⟨every m member, own⟩)
  · intro begun m member
    have shown := done id (begun (List.ne_nil_of_mem member))
    have there := within m member
    rw [← shown] at there
    exact (mem_part.mp there).1

theorem Recording.first_answer (recording : Recording h visible all) (rt : RangeQuery → Runtime)
    (past : ∀ q, ∀ id ∈ visible, ∀ r ∈ all id, r.timestamp ≤ now q) (accepted : Accepted h subject fromTs toTs db) :
    let q := firstPage subject fromTs toTs
    ∃ total, answers h visible rt now q = .ok ⟨subject, fromTs, if toTs = 0 then now q else toTs,
      Handler.newest visible (listOf visible all q) rangePage, moreOf visible (listOf visible all q) rangePage, [], total⟩ := by
  intro q
  have pages : ∀ id ∈ connIDs visible q.connID, db.rangePage (rt q) id q.subject q.scope q.fromTs
      (if q.toTs = 0 then now q else q.toTs) q.beforeTs q.beforeSeq q.lines = (listOf visible all q id).take q.lines := by
    intro id (there : id ∈ visible)
    obtain ⟨earlier, current, mem, same, rec_⟩ := recording.recorded id there
    rw [listOf, if_pos there, same]
    exact rec_.range_read (c := none) (rt q) (fun _ here => absurd here (Option.not_mem_none _))
      (fun r known => past q id there r (same ▸ known)) accepted.open_ q q.lines
  exact range_plain (rt q) visible accepted.open_ accepted.named accepted.ranged rfl (recording.listed q) pages

omit [Filter.Compiler] in
/-- Where the first answer does not say that there is more it is all there is. -/
theorem Recording.first_done (recording : Recording h visible all)
    (last : moreOf visible (listOf visible all (firstPage subject fromTs toTs)) rangePage = false) :
    Done NatsMessage.connID (listOf visible all (firstPage subject fromTs toTs))
      (Handler.newest visible (listOf visible all (firstPage subject fromTs toTs)) rangePage) := by
  intro id begun
  rw [Handler.newest_all last, (recording.listed _).part_newestFirst] at begun ⊢
  exact if_pos (not_imp_comm.mp (fun absent => if_neg absent) begun)

theorem Recording.fetchWholeRange_eq (recording : Recording h visible all) (rt : RangeQuery → Runtime)
    (past : ∀ q, ∀ id ∈ visible, ∀ r ∈ all id, r.timestamp ≤ now q) (accepted : Accepted h subject fromTs toTs db) :
    let q := firstPage subject fromTs toTs
    ∃ messages more, fetchWholeRange (answers h visible rt now) subject fromTs toTs
        (Handler.newest visible (listOf visible all q) rangePage) (moreOf visible (listOf visible all q) rangePage) =
          .ok ⟨messages, more && decide (exportMaxMessages ≤ messages.length)⟩ ∧
      Grown (listOf visible all q) (Handler.newest visible (listOf visible all q) rangePage) messages ∧
      ((more && decide (exportMaxMessages ≤ messages.length)) = false → Done NatsMessage.connID (listOf visible all q) messages) := by
  intro q
  have grown : Grown (listOf visible all q) _ _ := ⟨(recording.listed q).reading rangePage, fun id => Iff.rfl⟩
  obtain ⟨messages, more, fetched, rest⟩ :=
    recording.fetchOlder_spec rt past accepted grown (fun _ => le_add_left (by decide : exportMaxMessages ≤ exportPage * 1000))
      recording.first_done
  refine ⟨messages, more, ?_, rest⟩
  unfold fetchWholeRange
  exact congrArg (· >>= _) fetched

/-- The export of a range and the view of it have all of the range just where every connection is in the first
answer, and both come to an end. -/
theorem whole_range_iff (rt : RangeQuery → Runtime) (now : RangeQuery → Int) (recording : Recording h visible all)
    (past : ∀ q, ∀ id ∈ visible, ∀ r ∈ all id, r.timestamp ≤ now q) {first : RangeResponse}
    (answered : answers h visible rt now (firstPage subject fromTs toTs) = .ok first) :
    (∃ whole, fetchWholeRange (answers h visible rt now) subject fromTs toTs first.messages first.more = .ok whole ∧
      (whole.truncated = false → (Whole visible all (firstPage subject fromTs toTs) whole.messages ↔
        Begun visible all (firstPage subject fromTs toTs) rangePage))) ∧
    ∀ n, rangeAutoloadMax ≤ rangePage * n →
      let load := loadOlderRange (answers h visible rt now) subject fromTs toTs
      let data := load^[n] ⟨first.messages, first.more⟩
      load data = data ∧
        (data.messages.length < rangeAutoloadMax → (Whole visible all (firstPage subject fromTs toTs) data.messages ↔
          Begun visible all (firstPage subject fromTs toTs) rangePage)) := by
  obtain ⟨db, open_, named, ranged⟩ := accepted_of_range answered
  have accepted : Accepted h subject fromTs toTs db := ⟨open_, named, ranged⟩
  obtain ⟨total, asked⟩ := recording.first_answer rt past accepted
  obtain rfl := Except.ok.inj (asked.symm.trans answered)
  constructor
  · obtain ⟨messages, more, fetched, grown, done⟩ := recording.fetchWholeRange_eq rt past accepted
    exact ⟨_, fetched, fun whole => recording.whole_iff grown (done whole)⟩
  · intro n enough load data
    have grown : Grown (listOf visible all (firstPage subject fromTs toTs)) _ _ :=
      ⟨(recording.listed _).reading rangePage, fun id => Iff.rfl⟩
    obtain ⟨settled, grown, done⟩ := recording.loadOlderRange_spec rt past accepted ⟨_, _⟩ grown (fun _ => le_add_left enough)
      recording.first_done
    exact ⟨settled, fun below => recording.whole_iff grown (done below)⟩

end Whole

section Sample

def rowOn (conn : Str) (n : Nat) : Row := { pairRow n with conn := conn }

/-- One message of the time `t` on the connection `b`, and on `a` `n` messages from the time 2 on. -/
def recordsOf (t n : Nat) (id : Str) : List Record :=
  if id = ['b'] then [pairRecord t] else (List.range n).map fun i => pairRecord (i + 2)

def rowsOf (t n : Nat) : List Row := { rowOn ['b'] t with id := 1 } :: (List.range n).map fun i => rowOn ['a'] (i + 2)

theorem rowsOf_ids (t n : Nat) : ((rowsOf t n).map Row.id).Nodup := by
  rw [rowsOf, List.map_cons, List.map_map, List.nodup_cons]
  constructor
  · simp [rowOn, pairRow]
  · exact List.nodup_range.map fun i j (same : i + 2 = j + 2) => by omega

def twoHandler (t n : Nat) : HistoryHandler where
  history := pairHandler.history
  db := some {
    file := {
      version := ftsSchemaVersion
      rows := rowsOf t n
      triggers := false
      index := .empty
      ids := rowsOf_ids t n }
    fullText := false }

theorem twoHandler_keeps {t n : Nat} {id : Str} (there : id ∈ [['a'], ['b']]) {db : DB} (open_ : (twoHandler t n).db = some db) :
    db.Keeps id (recordsOf t n id) := by
  cases open_
  have on (id : Str) : ((List.range n).map fun i => rowOn ['a'] (i + 2)).filter (fun r => decide (r.conn = id)) =
      if id = ['a'] then (List.range n).map fun i => rowOn ['a'] (i + 2) else [] := by
    split
    · next same =>
      refine List.filter_eq_self.mpr fun r member => ?_
      obtain ⟨i, _, rfl⟩ := List.mem_map.mp member
      exact decide_eq_true same.symm
    · next other =>
      refine List.filter_eq_nil_iff.mpr fun r member here => ?_
      obtain ⟨i, _, rfl⟩ := List.mem_map.mp member
      exact other (of_decide_eq_true here).symm
  refine List.Perm.of_eq ?_
  change ((rowsOf t n).filter fun r => decide (r.conn = id)).map Row.record = _
  rcases List.mem_pair.mp there with rfl | rfl
  · rw [rowsOf, List.filter_cons_of_neg (by simp [rowOn]), on, if_pos rfl, recordsOf, if_neg (by decide), List.map_map, List.map_map]
    rfl
  · rw [rowsOf, List.filter_cons_of_pos (by simp [rowOn]), on, if_neg (by decide)]
    rfl

theorem recordsOf_ordered (t n : Nat) (id : Str) : (recordsOf t n id).Pairwise fun a b => a.mark < b.mark := by
  unfold recordsOf
  split
  · exact List.pairwise_singleton _ _
  · refine List.pairwise_map.mpr (List.pairwise_lt_range.imp fun {i j} less => ?_)
    exact Prod.Lex.toLex_lt_toLex.mpr (Or.inl (by simp [pairRecord]; omega))

theorem twoHandler_recording {t : Nat} (some_ : 0 < t) (n : Nat) : let _ := asciiTables
    Recording (twoHandler t n) [['a'], ['b']] (recordsOf t n) := by
  intro _
  refine ⟨by decide, by decide, fun id there => ⟨recordsOf t n id, [], [], (List.append_nil _).symm, ?_⟩⟩
  refine ⟨?_, List.Pairwise.nil, ?_, ?_, List.Sublist.refl _, fun _ => List.suffix_rfl, ?_⟩
  · rw [List.append_nil]
    exact recordsOf_ordered t n id
  · rw [List.append_nil]
    intro r known
    unfold recordsOf at known
    split at known
    · obtain rfl := List.mem_singleton.mp known
      simp only [pairRecord]
      omega
    · obtain ⟨i, _, rfl⟩ := List.mem_map.mp known
      simp only [pairRecord]
      omega
  · refine ⟨by change 0 < pairHandler.history.shards.length; decide, fun i sh here subject => ?_⟩
    obtain ⟨_, rfl⟩ := List.mem_replicate.mp (List.mem_of_getElem? here)
    simp only [List.filter_nil, ite_self]
    rfl
  · rw [List.append_nil]
    exact fun db open_ => twoHandler_keeps there open_

theorem twoHandler_past {t n : Nat} (before : t ≤ n + 1) :
    ∀ id ∈ [['a'], ['b']], ∀ r ∈ recordsOf t n id, r.timestamp ≤ (n + 1 : Int) := by
  intro id _ r known
  unfold recordsOf at known
  split at known
  · obtain rfl := List.mem_singleton.mp known
    simp only [pairRecord]
    omega
  · obtain ⟨i, below, rfl⟩ := List.mem_map.mp known
    have := List.mem_range.mp below
    simp only [pairRecord]
    omega

theorem twoHandler_accepted (t n : Nat) : ∃ db, Accepted (twoHandler t n) ['s'] 1 0 db := ⟨_, rfl, by decide, by decide⟩

/-- With one newer message both connections are in the first answer. -/
theorem whole_of_two :
    let _ := asciiTables; let _ := allMatch
    let api := answers (twoHandler 1 1) [['a'], ['b']] (fun _ => .plain) fun _ => 2
    ∃ first whole, api (firstPage ['s'] 1 0) = .ok first ∧
      fetchWholeRange api ['s'] 1 0 first.messages first.more = .ok whole ∧
      (whole.truncated = false → Whole [['a'], ['b']] (recordsOf 1 1) (firstPage ['s'] 1 0) whole.messages) := by
  let _ := asciiTables
  let _ := allMatch
  intro _ _ api
  have past : ∀ q : RangeQuery, ∀ id ∈ [['a'], ['b']], ∀ r ∈ recordsOf 1 1 id, r.timestamp ≤ (fun _ => 2 : RangeQuery → Int) q :=
    fun _ => twoHandler_past (by decide)
  obtain ⟨db, accepted⟩ := twoHandler_accepted 1 1
  obtain ⟨total, answered⟩ := (twoHandler_recording Nat.one_pos 1).first_answer (fun _ => .plain) past accepted
  obtain ⟨whole, fetched, complete⟩ := (whole_range_iff (fun _ => .plain) (fun _ => 2) (twoHandler_recording Nat.one_pos 1) past answered).1
  refine ⟨_, whole, answered, fetched, fun short => (complete short).mpr ?_⟩
  unfold Begun
  decide

theorem stored_length {t n : Nat} {id : Str} {p : Record → Bool} (every : ∀ r ∈ recordsOf t n id, p r = true) :
    let _ := asciiTables
    (stored id (recordsOf t n id) p).length = (recordsOf t n id).length := by
  intro _
  rw [stored, picked, List.filter_eq_self.mpr every, List.length_map, List.length_reverse]

theorem recordsOf_newer (t n : Nat) : (recordsOf t n ['a']).length = n := by
  rw [recordsOf, if_neg (by decide), List.length_map, List.length_range]

/-- Those on `a` come first. -/
theorem newestFirst_two {t : Nat} (early : t ≤ 2) (n : Nat) (p : Record → Bool) : let _ := asciiTables
    newestFirst ([['a'], ['b']].flatMap fun id => stored id (recordsOf t n id) p) =
      stored ['a'] (recordsOf t n ['a']) p ++ stored ['b'] (recordsOf t n ['b']) p := by
  intro _
  have desc (id : Str) : Descending NatsMessage.mark (stored id (recordsOf t n id) p) :=
    picked_desc (recordsOf_ordered t n id) fun _ => rfl
  have below : ∀ m ∈ stored ['a'] (recordsOf t n ['a']) p, ∀ m' ∈ stored ['b'] (recordsOf t n ['b']) p, older m m' = false := by
    intro m member m' member'
    obtain ⟨r, known, rfl⟩ := mem_picked member
    obtain ⟨r', known', rfl⟩ := mem_picked member'
    rw [recordsOf, if_neg (by decide)] at known
    obtain ⟨i, _, rfl⟩ := List.mem_map.mp known
    obtain rfl := List.mem_singleton.mp known'
    refine older_eq_false.mpr ?_
    change toLex (((t : Nat) : Int), t) ≤ toLex (((i + 2 : Nat) : Int), i + 2)
    refine Prod.Lex.toLex_le_toLex.mpr ?_
    rcases Nat.lt_or_eq_of_le (show t ≤ i + 2 by omega) with less | same
    · exact Or.inl (Int.ofNat_lt.mpr less)
    · exact Or.inr (by simp [same])
  have sorted := List.pairwise_append.mpr ⟨sorted_of_desc (desc ['a']), sorted_of_desc (desc ['b']), below⟩
  rw [newestFirst_eq, List.flatMap_cons, List.flatMap_cons, List.flatMap_nil, List.append_nil, sorted.insertionSort_eq]

theorem newer_list (n : Nat) : let _ := asciiTables
    (stored ['a'] (recordsOf 1 n ['a']) (firstPage ['s'] 1 0).reads).length = n := by
  intro _
  rw [stored_length, recordsOf_newer]
  intro r known
  rw [recordsOf, if_neg (by decide)] at known
  obtain ⟨i, _, rfl⟩ := List.mem_map.mp known
  refine Bool.and_eq_true_iff.mpr ⟨Bool.and_eq_true_iff.mpr ⟨?_, rfl⟩, rfl⟩
  exact decide_eq_true (by change (1 : Int) ≤ ((i + 2 : Nat) : Int); omega)

/-- The newest ones are all on one connection. -/
theorem newest_on_one (n : Nat) : let _ := asciiTables
    Handler.newest [['a'], ['b']] (fun id => stored id (recordsOf 1 n id) (firstPage ['s'] 1 0).reads) n =
      stored ['a'] (recordsOf 1 n ['a']) (firstPage ['s'] 1 0).reads := by
  intro _
  have length := newer_list n
  rw [Handler.newest, newestFirst_two (by decide), List.take_append_of_le_length (by rw [length]),
    List.take_of_length_le (by rw [length])]

/-- Under as many newer ones as there are on a page the old message is never asked for. -/
theorem covered_up {n : Nat} (page : n = rangePage) :
    let _ := asciiTables; let _ := allMatch
    let api := answers (twoHandler 1 n) [['a'], ['b']] (fun _ => .plain) fun _ => n + 1
    ∃ first whole, api (firstPage ['s'] 1 0) = .ok first ∧
      fetchWholeRange api ['s'] 1 0 first.messages first.more = .ok whole ∧ whole.truncated = false ∧
      ¬ Whole [['a'], ['b']] (recordsOf 1 n) (firstPage ['s'] 1 0) whole.messages := by
  let _ := asciiTables
  let _ := allMatch
  intro _ _ api
  have past : ∀ q : RangeQuery, ∀ id ∈ [['a'], ['b']], ∀ r ∈ recordsOf 1 n id,
      r.timestamp ≤ (fun _ => n + 1 : RangeQuery → Int) q := fun _ => twoHandler_past (by omega)
  have recording := twoHandler_recording Nat.one_pos n
  have listed := recording.listed (firstPage ['s'] 1 0)
  obtain ⟨db, accepted⟩ := twoHandler_accepted 1 n
  obtain ⟨total, answered⟩ := recording.first_answer (fun _ => .plain) past accepted
  obtain ⟨messages, more, fetched, grown, done⟩ := recording.fetchWholeRange_eq (fun _ => .plain) past accepted
  have few : messages.length ≤ n + 1 := by
    have known : messages ⊆ [['a'], ['b']].flatMap (listOf [['a'], ['b']] (recordsOf 1 n) (firstPage ['s'] 1 0)) := by
      intro m member
      have there := grown.reading.subset member
      exact List.mem_flatMap.mpr ⟨_, (mem_listOf there).1, there⟩
    have size := (List.subperm_of_subset grown.reading.nodup known).length_le
    have newer : (listOf [['a'], ['b']] (recordsOf 1 n) (firstPage ['s'] 1 0) ['a']).length = n := newer_list n
    rw [List.flatMap_cons, List.flatMap_cons, List.flatMap_nil, List.append_nil, List.length_append, newer] at size
    exact size
  have short : (more && decide (exportMaxMessages ≤ messages.length)) = false := by
    have below : ¬ exportMaxMessages ≤ messages.length := by
      rw [page] at few
      exact not_le.mpr (few.trans_lt (by decide))
    rw [decide_eq_false below, Bool.and_false]
  refine ⟨_, _, answered, fetched, short, fun whole => ?_⟩
  have begun := (recording.whole_iff grown (done short)).mp whole
  have old : stored ['b'] [pairRecord 1] (firstPage ['s'] 1 0).wants ≠ [] := by decide
  obtain ⟨m, member, own⟩ := begun ['b'] (by decide) old
  rw [← page, newest_on_one] at member
  exact absurd (own.symm.trans (listed.own ['a'] m member)) (by decide)

theorem left_out :
    let _ := asciiTables; let _ := allMatch
    let api := answers (twoHandler 1 2000) [['a'], ['b']] (fun _ => .plain) fun _ => 2000 + 1
    ∃ first whole, api (firstPage ['s'] 1 0) = .ok first ∧
      fetchWholeRange api ['s'] 1 0 first.messages first.more = .ok whole ∧ whole.truncated = false ∧
      ¬ Whole [['a'], ['b']] (recordsOf 1 2000) (firstPage ['s'] 1 0) whole.messages := covered_up rfl

end Sample
end NatsExplorer.Client
