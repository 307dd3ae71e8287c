import NatsExplorer.Handler.Pages
import NatsExplorer.Handler.SearchPages

/-! Paging with an expression. An answer reads a stretch of a list, keeps the messages
that match and cuts them back; whether there is more it takes from the stretch. -/
namespace NatsExplorer.Handler
open Go History Paging

section Lists
variable [Tables] {h : HistoryHandler} {connID subject : Str} {earlier current mem : List Record}

/-- Where the matches below a subject are whole: what memory lacks of them is older than
all it has there, and nothing older than that matches below the subject in another
case only. -/
def WholeFor (h : HistoryHandler) (connID subject : Str) (all mem : List Record) (keep : NatsMessage → Bool) : Prop :=
  h.db = none ∨ ∀ r ∈ all,
    (isBelow subject r.subject = true → keep (copy mem connID r) = true →
      r ∈ mem ∨ ∀ m ∈ mem, isBelow subject m.subject = true → r.mark < m.mark) ∧
    (RangeScope.below.covers subject r.subject = true → keep (r.stored.wire connID) = true →
      (∀ m ∈ mem, isBelow subject m.subject = true → r.mark < m.mark) → isBelow subject r.subject = true)

theorem Recorded.belowList_filter_iff (rec_ : Recorded h connID earlier current mem) (keep : NatsMessage → Bool) :
    (belowList h connID subject (earlier ++ current) mem).filter keep =
        (recordedList h connID (earlier ++ current) mem (isBelow subject)).filter keep ↔
      WholeFor h connID subject (earlier ++ current) mem keep := by
  cases open_ : h.db with
  | none => exact iff_of_true (congrArg _ (continued_memory open_ _ _)) (Or.inl open_)
  | some db =>
    have there : ¬ h.db = none := by
      rw [open_]
      exact Option.some_ne_none db
    refine (rec_.continued_filter_iff open_ _ _ keep).trans (Iff.trans ?_ (or_iff_right there).symm)
    refine forall₂_congr fun r member => ?_
    have covers (below : isBelow subject r.subject = true) : RangeScope.below.covers subject r.subject = true :=
      like_of_below (of_decide_eq_true below)
    by_cases below : isBelow subject r.subject = true
    · by_cases here : r ∈ mem
      · have same : shownCopy mem (isBelow subject) connID r = copy mem connID r := by
          rw [shownCopy, copy, if_pos ⟨here, below⟩, if_pos here]
        refine iff_of_true ?_ ⟨fun _ _ => Or.inl here, fun _ _ _ => below⟩
        rw [same]
        exact and_congr_left fun _ => iff_of_true (Or.inl ⟨here, below⟩) below
      · have same : shownCopy mem (isBelow subject) connID r = copy mem connID r := by
          rw [shownCopy, copy, if_neg fun both => here both.1, if_neg here]
        have shown : Shown mem (isBelow subject) (RangeScope.below.covers subject) r ↔
            ∀ m ∈ mem, isBelow subject m.subject = true → r.mark < m.mark :=
          (or_iff_right fun both => here both.1).trans (and_iff_right (covers below))
        rw [same, shown, and_iff_right below]
        constructor
        · intro both
          exact ⟨fun _ kept => Or.inr (both.mpr kept).1, fun _ _ _ => below⟩
        · rintro ⟨first, _⟩
          exact ⟨And.right, fun kept => ⟨(first below kept).resolve_left here, kept⟩⟩
    · have other : shownCopy mem (isBelow subject) connID r = r.stored.wire connID := by
        rw [shownCopy, if_neg fun both => below both.2]
      have shown : Shown mem (isBelow subject) (RangeScope.below.covers subject) r ↔
          RangeScope.below.covers subject r.subject = true ∧
            ∀ m ∈ mem, isBelow subject m.subject = true → r.mark < m.mark :=
        or_iff_right fun both => below both.2
      rw [other, shown]
      constructor
      · intro both
        exact ⟨fun within => absurd within below, fun covered kept older => (both.mp ⟨⟨covered, older⟩, kept⟩).1⟩
      · rintro ⟨_, second⟩
        constructor
        · rintro ⟨⟨covered, older⟩, kept⟩
          exact absurd (second covered kept older) below
        · exact fun both => absurd both.1 below

theorem Recorded.recordedList_desc (rec_ : Recorded h connID earlier current mem) (inScope : Str → Bool) :
    Descending NatsMessage.mark (recordedList h connID (earlier ++ current) mem inScope) := by
  have marks (r : Record) : (copy mem connID r).mark = r.mark := by unfold copy; split <;> rfl
  have order : (kept h (earlier ++ current) mem).Pairwise fun a b => a.mark < b.mark := by
    unfold kept
    split
    · exact rec_.distinct
    · exact rec_.order
  exact picked_desc order marks

theorem Recorded.recordedList_valid (rec_ : Recorded h connID earlier current mem) {inScope : Str → Bool} :
    ∀ m ∈ recordedList h connID (earlier ++ current) mem inScope, Valid (earlier ++ current) (some m.mark) := by
  rintro m member _ ⟨⟩
  obtain ⟨r, known, rfl⟩ := mem_picked member
  refine ⟨r, ?_, by unfold copy; split <;> rfl⟩
  unfold kept at known
  split at known
  · exact List.mem_append_right _ (rec_.part.subset known)
  · exact known

end Lists

section Get
variable [Tables] [Filter.Compiler] {h : HistoryHandler} {q : GetQuery} {earlier current mem : List Record}
  {prg : Option Filter.Program}

/-- The pages of the subject's own list. -/
def ownPages (rt : Option Mark → Runtime) (h : HistoryHandler) (now : Option Mark → Int) (visible : List Str)
    (q : GetQuery) (c : Option Mark) : Answer NatsMessage :=
  ownAnswer (get (rt c) h (now c) visible (q.own c))

def belowPages (rt : Option Mark → Runtime) (h : HistoryHandler) (now : Option Mark → Int) (visible : List Str)
    (q : GetQuery) (c : Option Mark) : Answer NatsMessage :=
  belowAnswer (get (rt c) h (now c) visible (q.below c))

/-- Every page of the own list keeps enough of what it reads. -/
def OwnEnough (h : HistoryHandler) (q : GetQuery) (all mem : List Record) (prg : Option Filter.Program) : Prop :=
  ∀ c, Valid all c → Enough (after NatsMessage.mark (recordedList h q.connID all mem fun subj => subj = q.subject) c)
    (keeps prg) (scanLimit q.ownLimit prg maxSubjectLimit) q.ownLimit
    (ownFull h q.connID q.subject all mem (scanLimit q.ownLimit prg maxSubjectLimit) c)

def BelowEnough (h : HistoryHandler) (q : GetQuery) (all mem : List Record) (prg : Option Filter.Program) : Prop :=
  ∀ c, Valid all c → Enough (after NatsMessage.mark (belowList h q.connID q.subject all mem) c)
    (keeps prg) (scanLimit q.belowLimit prg maxBranchLimit) q.belowLimit
    (belowFull h q.connID q.subject all mem (scanLimit q.belowLimit prg maxBranchLimit) c)

theorem Recorded.own_complete_iff (rec_ : Recorded h q.connID earlier current mem) (rt : Option Mark → Runtime)
    (now : Option Mark → Int) (past : ∀ c, ∀ r ∈ earlier ++ current, r.timestamp ≤ now c) (visible : List Str)
    (one : q.connID ≠ []) (named : q.subject ≠ []) (compiled : exprParam q.expr = .ok prg) :
    Complete NatsMessage.mark (ownPages rt h now visible q)
      ((recordedList h q.connID (earlier ++ current) mem fun subj => subj = q.subject).filter (keeps prg))
      (Valid (earlier ++ current)) ↔ OwnEnough h q (earlier ++ current) mem prg := by
  have listed : ownList h q.connID q.subject (earlier ++ current) mem = _ := rec_.ownList_eq
  have start : Valid (earlier ++ current) none := fun _ here => absurd here (Option.not_mem_none _)
  refine (complete_scans_iff ((rec_.recordedList_desc _).filter _) rec_.ownList_desc (limitParam_pos (by decide) (by decide))
    (fun m member => rec_.recordedList_valid m (List.mem_of_mem_filter member)) start (fun c _ => isFull_measured (rec_.inMemory_desc _) _ _ c)
    fun c valid => rec_.own_answer (rt c) visible valid (past c) one named compiled).trans ?_
  rw [listed, and_iff_right rfl]
  rfl

theorem Recorded.below_complete_iff (rec_ : Recorded h q.connID earlier current mem) (rt : Option Mark → Runtime)
    (now : Option Mark → Int) (past : ∀ c, ∀ r ∈ earlier ++ current, r.timestamp ≤ now c) (visible : List Str)
    (one : q.connID ≠ []) (named : q.subject ≠ []) (compiled : exprParam q.expr = .ok prg) (listed : q.noBranch = false) :
    Complete NatsMessage.mark (belowPages rt h now visible q)
      ((recordedList h q.connID (earlier ++ current) mem (isBelow q.subject)).filter (keeps prg))
      (Valid (earlier ++ current)) ↔
        WholeFor h q.connID q.subject (earlier ++ current) mem (keeps prg) ∧
          BelowEnough h q (earlier ++ current) mem prg := by
  have start : Valid (earlier ++ current) none := fun _ here => absurd here (Option.not_mem_none _)
  rw [← rec_.belowList_filter_iff]
  exact complete_scans_iff ((rec_.recordedList_desc _).filter _) rec_.belowList_desc (q.belowLimit_pos listed)
    (fun m member => rec_.recordedList_valid m (List.mem_of_mem_filter member)) start
    (fun c _ => isFull_measured (rec_.inMemory_desc _) _ _ c)
    fun c valid => rec_.below_answer (rt c) visible valid (past c) one named compiled listed

end Get

section Range
variable [Tables] [Filter.Compiler] {h : HistoryHandler} {q : RangeQuery} {earlier current mem : List Record}
  {prg : Option Filter.Program} {c : Option Mark}

def RangeQuery.page (q : RangeQuery) (c : Option Mark) : RangeQuery :=
  { q with beforeTs := cursorTs c, beforeSeq := cursorSeq c }

def rangeAnswer : Except Error RangeResponse → Answer NatsMessage
  | .ok resp => ⟨resp.messages, resp.more⟩
  | .error _ => ⟨[], false⟩

def rangePages (rt : Option Mark → Runtime) (h : HistoryHandler) (now : Option Mark → Int) (visible : List Str)
    (q : RangeQuery) (c : Option Mark) : Answer NatsMessage :=
  rangeAnswer (range (rt c) h (now c) visible (q.page c))

/-- Whether a message is in the range that was asked for; without an end it has none. -/
def inRange (fromTs toTs : Int) (r : Record) : Bool := fromTs ≤ r.timestamp && (toTs = 0 || r.timestamp ≤ toTs)

def RangeQuery.scope (q : RangeQuery) : RangeScope := if q.branch then .withBelow else .subject

/-- What the request is about. -/
def RangeQuery.wants (q : RangeQuery) (r : Record) : Bool :=
  inRange q.fromTs q.toTs r && (r.subject = q.subject || q.branch && isBelow q.subject r.subject)

/-- What the database looks through for it. -/
def RangeQuery.reads (q : RangeQuery) (r : Record) : Bool :=
  inRange q.fromTs q.toTs r && q.scope.covers q.subject r.subject

def RangeQuery.lines (q : RangeQuery) : Nat := limitParam q.limit defaultRangeLimit maxRangeLimit

/-- What the database has of some messages, newest first. -/
def stored (connID : Str) (all : List Record) (p : Record → Bool) : List NatsMessage :=
  picked (fun r => r.stored.wire connID) all p

omit [Filter.Compiler] in
theorem after_stored (connID : Str) (all : List Record) (p : Record → Bool) (c : Option Mark) :
    after NatsMessage.mark (stored connID all p) c =
      (after Record.mark (all.filter p).reverse c).map fun r => r.stored.wire connID := by
  rw [stored, picked, after_map]
  rfl

/-- Every page of the range keeps enough of what it reads. -/
def RangeEnough (q : RangeQuery) (all : List Record) (prg : Option Filter.Program) : Prop :=
  let scan := scanLimit q.lines prg (maxRangeLimit * 10)
  ∀ c, Valid all c → Enough (after NatsMessage.mark (stored q.connID all q.reads) c) (keeps prg) scan q.lines
    (decide (scan ≤ (after NatsMessage.mark (stored q.connID all q.reads) c).length))

omit [Tables] [Filter.Compiler] in
theorem full_measured (scanned : List NatsMessage) (scan : Nat) :
    Measured scanned scan (decide (scan ≤ scanned.length)) := by
  by_cases full : scan ≤ scanned.length
  · rw [decide_eq_true full]
    exact full
  · rw [decide_eq_false full]
    exact (not_le.mp full).le

omit [Tables] [Filter.Compiler] in
/-- A page of one connection, kept and cut back. -/
theorem takePage_eq (prg : Option Filter.Program) {limit : Nat} (max : Nat) (room : 0 < limit) (scanned : List NatsMessage) :
    takePage prg limit (scanLimit limit prg max) ([], false) (scanned.take (scanLimit limit prg max)) =
      ((scanAnswer scanned (keeps prg) (scanLimit limit prg max) limit
        (decide (scanLimit limit prg max ≤ scanned.length))).page, decide (scanLimit limit prg max ≤ scanned.length)) := by
  have sized : prg = none → (scanned.take (scanLimit limit prg max)).length ≤ limit := fun none => by
    rw [none, scanLimit]
    exact List.length_take_le ..
  rw [takePage, keep_eq _ room sized, scanAnswer, List.nil_append, Bool.false_or, List.length_take, Prod.mk.injEq,
    decide_eq_decide]
  exact ⟨rfl, min_eq_left_iff⟩

omit [Filter.Compiler] in
/-- What the database reads for a page of the range. -/
theorem Recorded.range_read {id : Str} (rec_ : Recorded h id earlier current mem) (rt : Runtime) {now : Int}
    (valid : Valid (earlier ++ current) c) (past : ∀ r ∈ earlier ++ current, r.timestamp ≤ now) {db : DB}
    (open_ : h.db = some db) (q : RangeQuery) (n : Nat) :
    db.rangePage rt id q.subject q.scope q.fromTs (if q.toTs = 0 then now else q.toTs) (cursorTs c) (cursorSeq c) n =
      (after NatsMessage.mark (stored id (earlier ++ current) q.reads) c).take n := by
  have inside (r : Record) (member : r ∈ earlier ++ current) (_ : ∀ k ∈ c, r.mark < k) :
      (between q.fromTs (if q.toTs = 0 then now else q.toTs) r.timestamp && q.scope.covers q.subject r.subject) =
        q.reads r := by
    rw [RangeQuery.reads, inRange, between]
    congr 2
    by_cases open_ : q.toTs = 0
    · rw [if_pos open_, decide_eq_true (past r member), decide_eq_true open_, Bool.true_or]
    · rw [if_neg open_, decide_eq_false open_, Bool.false_or]
  have page := rec_.range_page valid open_ rt q.scope n inside
  rwa [List.map_take, ← after_stored] at page

theorem Recorded.range_answer (rec_ : Recorded h q.connID earlier current mem) (rt : Runtime) {now : Int}
    (visible : List Str) (valid : Valid (earlier ++ current) c)
    (past : ∀ r ∈ earlier ++ current, r.timestamp ≤ now) {db : DB} (open_ : h.db = some db)
    (one : q.connID ≠ []) (named : q.subject ≠ []) (ranged : q.fromTs ≠ 0 ∨ q.toTs ≠ 0)
    (compiled : exprParam q.expr = .ok prg) :
    rangeAnswer (range rt h now visible (q.page c)) =
      scanAnswer (after NatsMessage.mark (stored q.connID (earlier ++ current) q.reads) c) (keeps prg)
        (scanLimit q.lines prg (maxRangeLimit * 10)) q.lines
        (decide (scanLimit q.lines prg (maxRangeLimit * 10) ≤
          (after NatsMessage.mark (stored q.connID (earlier ++ current) q.reads) c).length)) := by
  have page := rec_.range_read rt valid past open_ q (scanLimit q.lines prg (maxRangeLimit * 10))
  have times : timeRange q.fromTs q.toTs now = some (q.fromTs, if q.toTs = 0 then now else q.toTs) :=
    if_neg (by omega)
  have room : 0 < q.lines := limitParam_pos (by decide) (by decide)
  have taken := takePage_eq prg (maxRangeLimit * 10) room
    (after NatsMessage.mark (stored q.connID (earlier ++ current) q.reads) c)
  have ids : connIDs visible q.connID = [q.connID] := if_pos one
  have answered : rangeAnswer (range rt h now visible (q.page c)) =
      let page := takePage prg q.lines (scanLimit q.lines prg (maxRangeLimit * 10)) ([], false)
        (db.rangePage rt q.connID q.subject q.scope q.fromTs (if q.toTs = 0 then now else q.toTs) (cursorTs c)
          (cursorSeq c) (scanLimit q.lines prg (maxRangeLimit * 10)))
      ⟨page.1, page.2⟩ := by
    simp only [range, open_, RangeQuery.page, times, if_neg named, compiled, ids]
    rfl
  rw [answered, page, taken]
  rfl

omit [Filter.Compiler] in
theorem Recorded.stored_desc {connID : Str} (rec_ : Recorded h connID earlier current mem) (p : Record → Bool) :
    Descending NatsMessage.mark (stored connID (earlier ++ current) p) :=
  picked_desc rec_.order fun _ => rfl

omit [Filter.Compiler] in
theorem stored_valid {connID : Str} {all : List Record} {p : Record → Bool} :
    ∀ m ∈ stored connID all p, Valid all (some m.mark) := by
  rintro m member _ ⟨⟩
  obtain ⟨r, known, rfl⟩ := mem_picked member
  exact ⟨r, known, rfl⟩

/-- What is read for the range and matches is what was asked for. -/
def RangeRight (q : RangeQuery) (all : List Record) (prg : Option Filter.Program) : Prop :=
  ∀ r ∈ all, q.reads r = true → keeps prg (r.stored.wire q.connID) = true → q.wants r = true

omit [Tables] [Filter.Compiler] in
theorem RangeQuery.reads_of_wants {r : Record} (wanted : q.wants r = true) : q.reads r = true := by
  obtain ⟨within, about⟩ := Bool.and_eq_true_iff.mp wanted
  refine Bool.and_eq_true_iff.mpr ⟨within, ?_⟩
  rw [Bool.or_eq_true, Bool.and_eq_true] at about
  unfold RangeQuery.scope
  rcases about with own | ⟨branch, below⟩
  · cases q.branch with
    | false => exact own
    | true => exact Bool.or_eq_true_iff.mpr (Or.inl own)
  · rw [branch]
    exact Bool.or_eq_true_iff.mpr (Or.inr (like_of_below (of_decide_eq_true below)))

theorem Recorded.range_complete_iff (rec_ : Recorded h q.connID earlier current mem) (rt : Option Mark → Runtime)
    (now : Option Mark → Int) (past : ∀ c, ∀ r ∈ earlier ++ current, r.timestamp ≤ now c) (visible : List Str)
    {db : DB} (open_ : h.db = some db) (one : q.connID ≠ []) (named : q.subject ≠ [])
    (ranged : q.fromTs ≠ 0 ∨ q.toTs ≠ 0) (compiled : exprParam q.expr = .ok prg) :
    Complete NatsMessage.mark (rangePages rt h now visible q)
      ((stored q.connID (earlier ++ current) q.wants).filter (keeps prg)) (Valid (earlier ++ current)) ↔
        RangeRight q (earlier ++ current) prg ∧ RangeEnough q (earlier ++ current) prg := by
  have start : Valid (earlier ++ current) none := fun _ here => absurd here (Option.not_mem_none _)
  have right : (stored q.connID (earlier ++ current) q.reads).filter (keeps prg) =
      (stored q.connID (earlier ++ current) q.wants).filter (keeps prg) ↔ RangeRight q (earlier ++ current) prg := by
    refine (picked_agree rec_.order (fun _ => rfl) none).trans (forall₂_congr fun r member => ?_)
    have reads := RangeQuery.reads_of_wants (q := q) (r := r)
    constructor
    · intro same read kept
      rw [← same (fun _ here => absurd here (Option.not_mem_none _)) kept]
      exact read
    · exact fun right _ kept => Bool.eq_iff_iff.mpr ⟨fun read => right read kept, reads⟩
  rw [← right]
  exact complete_scans_iff ((rec_.stored_desc _).filter _) (rec_.stored_desc _) (limitParam_pos (by decide) (by decide))
    (fun m member => stored_valid m (List.mem_of_mem_filter member)) start (fun c _ => full_measured _ _)
    fun c valid => rec_.range_answer (rt c) visible valid (past c) open_ one named ranged compiled

end Range

section Search
variable [Tables] [Filter.Compiler] [Tokenizer] {h : HistoryHandler} {q : SearchQuery} {earlier current mem : List Record}
  {prg : Option Filter.Program} {c : Option Mark}

def SearchQuery.page (q : SearchQuery) (c : Option Mark) : SearchQuery :=
  { q with beforeTs := cursorTs c, beforeSeq := cursorSeq c }

def searchAnswer : Except Error SearchResponse → Answer NatsMessage
  | .ok resp => ⟨resp.messages, resp.more⟩
  | .error _ => ⟨[], false⟩

def searchPages (rt : Option Mark → Runtime) (h : HistoryHandler) (now : Option Mark → Int) (visible : List Str)
    (q : SearchQuery) (c : Option Mark) : Answer NatsMessage :=
  searchAnswer (search (rt c) h (now c) visible (q.page c))

def SearchQuery.lines (q : SearchQuery) : Nat := limitParam q.limit defaultSearchLimit maxSearchLimit

def SearchQuery.scan (q : SearchQuery) (prg : Option Filter.Program) : Nat := scanLimit q.lines prg (maxSearchLimit * 5)

def SearchQuery.about (q : SearchQuery) (subj : Str) : Bool := q.subject = [] || subj = q.subject || isBelow q.subject subj

omit [Tables] [Filter.Compiler] [Tokenizer] in
theorem SearchQuery.lines_pos : 0 < q.lines := limitParam_pos (by decide) (by decide)

/-- What a search has to show for what it reads page by page. -/
def pageOf (prg : Option Filter.Program) (q : SearchQuery) (read : List NatsMessage) : Answer NatsMessage :=
  scanAnswer read (keeps prg) (q.scan prg) q.lines (decide (q.scan prg ≤ read.length))

/-- A search of one connection keeps some of its page. -/
theorem search_one (rt : Runtime) (now : Int) (visible : List Str) (one : q.connID ≠ [])
    (compiled : exprParam q.expr = .ok prg) {read : List NatsMessage}
    (page : searchOne rt h now (q.page c) (q.scan prg) q.connID = read.take (q.scan prg)) :
    searchAnswer (search rt h now visible (q.page c)) = pageOf prg q read := by
  have ids : connIDs visible q.connID = [q.connID] := if_pos one
  have answered : searchAnswer (search rt h now visible (q.page c)) =
      let page := takePage prg q.lines (q.scan prg) ([], false) (searchOne rt h now (q.page c) (q.scan prg) q.connID)
      ⟨page.1, page.2⟩ := by
    simp only [search, SearchQuery.page, compiled, ids]
    rfl
  rw [answered, page]
  exact congrArg (fun page : List NatsMessage × Bool => Answer.mk page.1 page.2)
    (takePage_eq prg (maxSearchLimit * 5) q.lines_pos read)

section Memory

/-- What memory looks through. -/
def SearchQuery.finds (q : SearchQuery) (r : Record) : Bool :=
  q.about r.subject && mentions (strings.toLower (strings.trimSuffix q.q ['*'])) r

/-- What memory has of some messages, newest first. -/
def held (connID : Str) (mem : List Record) (p : Record → Bool) : List NatsMessage :=
  picked (fun r => r.wire connID) mem p

/-- What memory reads for the search and matches lies in the range asked for, and every
page keeps enough. -/
def MemoryRight (q : SearchQuery) (mem : List Record) (prg : Option Filter.Program) : Prop :=
  (∀ r ∈ mem, q.finds r = true → keeps prg (r.wire q.connID) = true → inRange q.fromTs q.toTs r = true) ∧
    ∀ c, Valid mem c → Enough (after NatsMessage.mark (held q.connID mem q.finds) c) (keeps prg) (q.scan prg) q.lines
      (decide (q.scan prg ≤ (after NatsMessage.mark (held q.connID mem q.finds) c).length))

omit [Filter.Compiler] in
/-- A page of memory goes by the sequence of the cursor alone. -/
theorem Recorded.found_page (rec_ : Recorded h q.connID earlier current mem) (rt : Runtime) (now : Int)
    (open_ : h.db = none) (n : Nat) :
    searchOne rt h now (q.page c) n q.connID =
      (((mem.filter q.finds).reverse.filter (olderSeq (cursorSeq c))).take n).map fun r => r.wire q.connID := by
  have found : ((mem.filter fun r => q.about r.subject).reverse.filter
      (mentions (strings.toLower (strings.trimSuffix q.q ['*'])))) = (mem.filter q.finds).reverse := by
    rw [List.filter_reverse, List.filter_filter]
    congr 1
    exact List.filter_congr fun r _ => Bool.and_comm ..
  rw [searchOne, open_]
  change h.history.search rt q.connID q.subject q.q n (cursorSeq c) = _
  rw [MemStore.search, rec_.memory_merge]
  refine congrArg (fun l : List Record => (l.take n).map fun r => r.wire q.connID) ?_
  rw [List.filter_filter]
  simp only [Bool.and_comm (mentions _ _)]
  rw [← List.filter_filter]
  exact congrArg (List.filter _) found

omit [Filter.Compiler] in
theorem Recorded.memory_page (rec_ : Recorded h q.connID earlier current mem) (rt : Runtime) (now : Int)
    (valid : Valid mem c) (open_ : h.db = none) (n : Nat) :
    searchOne rt h now (q.page c) n q.connID = (after NatsMessage.mark (held q.connID mem q.finds) c).take n := by
  have cut : (mem.filter q.finds).reverse.filter (olderSeq (cursorSeq c)) =
      after Record.mark (mem.filter q.finds).reverse c := by
    cases c with
    | none => exact List.filter_eq_self.mpr fun r _ => rfl
    | some k =>
      obtain ⟨r, known, rfl⟩ := valid k rfl
      exact rec_.older_eq (rec_.part.subset known) fun x here =>
        rec_.part.subset (List.mem_of_mem_filter (List.mem_reverse.mp here))
  rw [rec_.found_page rt now open_, cut, held, picked, after_map, ← List.map_take]
  rfl

theorem Recorded.search_memory_iff (rec_ : Recorded h q.connID earlier current mem) (rt : Option Mark → Runtime)
    (now : Option Mark → Int) (visible : List Str) (open_ : h.db = none) (one : q.connID ≠ [])
    (compiled : exprParam q.expr = .ok prg) :
    Complete NatsMessage.mark (searchPages rt h now visible q)
      ((held q.connID mem fun r => inRange q.fromTs q.toTs r && q.finds r).filter (keeps prg)) (Valid mem) ↔
        MemoryRight q mem prg := by
  have start : Valid mem none := fun _ here => absurd here (Option.not_mem_none _)
  have right : (held q.connID mem q.finds).filter (keeps prg) =
      (held q.connID mem fun r => inRange q.fromTs q.toTs r && q.finds r).filter (keeps prg) ↔
        ∀ r ∈ mem, q.finds r = true → keeps prg (r.wire q.connID) = true → inRange q.fromTs q.toTs r = true := by
    refine (picked_agree rec_.distinct (fun _ => rfl) none).trans (forall₂_congr fun r member => ?_)
    constructor
    · intro same found kept
      have both := same (fun _ here => absurd here (Option.not_mem_none _)) kept
      rw [found] at both
      exact (Bool.and_eq_true_iff.mp both.symm).1
    · intro within _ kept
      cases found : q.finds r with
      | false => rw [Bool.and_false]
      | true => rw [within found kept, Bool.and_true]
  unfold MemoryRight
  rw [← right]
  exact complete_scans_iff ((picked_desc rec_.distinct fun _ => rfl).filter _) (picked_desc rec_.distinct fun _ => rfl)
    q.lines_pos (fun m member => by
      rintro _ ⟨⟩
      obtain ⟨r, known, rfl⟩ := mem_picked (List.mem_of_mem_filter member)
      exact ⟨r, known, rfl⟩) start (fun c _ => full_measured _ _)
    fun c valid => search_one (rt c) (now c) visible one compiled (rec_.memory_page (rt c) (now c) valid open_ _)

end Memory
section Disk
variable {db : DB}

def SearchQuery.asked (q : SearchQuery) (now : Int) : Asked :=
  let (fromTs, toTs) := (timeRange q.fromTs q.toTs now).getD (0, now)
  ⟨q.connID, q.subject, q.q, fromTs, toTs⟩

/-- What the request is about. -/
def SearchQuery.wants (q : SearchQuery) (r : Record) : Bool :=
  inRange q.fromTs q.toTs r && q.about r.subject && scanMatches q.q r

/-- What a scan looks through for it. -/
def SearchQuery.reads (q : SearchQuery) (r : Record) : Bool :=
  inRange q.fromTs q.toTs r && (q.subject = [] || RangeScope.withBelow.covers q.subject r.subject) && scanMatches q.q r

/-- Whether the first page comes from the index. -/
def SearchQuery.indexed (q : SearchQuery) (db : DB) (now : Int) : Bool := db.file.rows.any ((q.asked now).hits db)

/-- What the index answers with. -/
def SearchQuery.hits (q : SearchQuery) (rt : Runtime) (db : DB) (now : Int) : List NatsMessage :=
  ((q.asked now).listed rt db none).map fun r => r.record.wire q.connID

omit [Tokenizer] [Tables] [Filter.Compiler] in
theorem SearchQuery.asked_between {now : Int} {r : Record} (dated : 0 < r.timestamp) (past : r.timestamp ≤ now) :
    between (q.asked now).fromTs (q.asked now).toTs r.timestamp = inRange q.fromTs q.toTs r := by
  unfold SearchQuery.asked timeRange between inRange
  by_cases whole : q.fromTs = 0 ∧ q.toTs = 0
  · simp only [whole, and_self, if_true, Option.getD_none, decide_eq_true past, decide_eq_true dated.le, decide_true,
      Bool.true_or]
  · rw [if_neg whole, Option.getD_some]
    by_cases open_ : q.toTs = 0
    · simp only [open_, if_true, decide_eq_true past, decide_true, Bool.true_or]
    · simp only [open_, if_false, decide_false, Bool.false_or]

section Reads
variable {r : Record}

omit [Tokenizer] [Filter.Compiler]

theorem SearchQuery.about_of_wants (wanted : q.wants r = true) : q.about r.subject = true := by
  simp only [SearchQuery.wants, Bool.and_eq_true] at wanted
  exact wanted.1.2

theorem SearchQuery.wants_of_reads (read : q.reads r = true) (about : q.about r.subject = true) : q.wants r = true := by
  simp only [SearchQuery.reads, SearchQuery.wants, Bool.and_eq_true] at read ⊢
  exact ⟨⟨read.1.1, about⟩, read.2⟩

theorem SearchQuery.reads_of_wants (wanted : q.wants r = true) : q.reads r = true := by
  simp only [SearchQuery.reads, SearchQuery.wants, Bool.and_eq_true] at wanted ⊢
  refine ⟨⟨wanted.1.1, ?_⟩, wanted.2⟩
  obtain ⟨⟨_, about⟩, _⟩ := wanted
  simp only [SearchQuery.about, RangeScope.covers, Bool.or_eq_true] at about ⊢
  rcases about with (every | own) | below
  · exact Or.inl every
  · exact Or.inr (Or.inl own)
  · exact Or.inr (Or.inr (like_of_below (of_decide_eq_true below)))

end Reads

omit [Filter.Compiler] in
/-- A page that the scan answers. -/
theorem Recorded.scanned_page (rec_ : Recorded h q.connID earlier current mem) (rt : Runtime) {now : Int}
    (date : Dated c) (past : ∀ r ∈ earlier ++ current, r.timestamp ≤ now)
    (open_ : h.db = some db) (scans : c = none → q.indexed db now = false) (n : Nat) :
    searchOne rt h now (q.page c) n q.connID =
      (after NatsMessage.mark (stored q.connID (earlier ++ current) q.reads) c).take n := by
  have page : searchOne rt h now (q.page c) n q.connID = (q.asked now).page rt db c n := by
    rw [searchOne, open_]
    rfl
  have left (r : Row) : (q.asked now).left db c r = ((q.asked now).scans r && c.all fun k => r.mark < k) := by
    cases c with
    | none =>
      have unfound : db.file.rows.any ((q.asked now).hits db) = false := scans rfl
      simp only [Asked.left, unfound, Bool.false_eq_true, if_false, Option.all_none, Bool.and_true]
    | some k => rfl
  rw [page, Asked.page_eq _ rt db date, Asked.listed, List.filter_congr fun r _ => left r, ← scanPage_eq _ rt db date,
    after_stored, ← List.map_take]
  refine rec_.select_page date open_ rt n fun r member => ?_
  rw [SearchQuery.reads, ← SearchQuery.asked_between (rec_.numbered r member).1 (past r member)]
  change (between (q.asked now).fromTs (q.asked now).toTs r.timestamp && beforeCursor (cursorTs c) (cursorSeq c) r &&
    (q.subject = [] || RangeScope.withBelow.covers q.subject r.subject) && scanMatches q.q r) = _
  simp only [Bool.and_assoc, Bool.and_comm, Bool.and_left_comm]

omit [Filter.Compiler] in
/-- The page that the index answers. -/
theorem indexed_page (rt : Runtime) {now : Int} (open_ : h.db = some db) (n : Nat) :
    searchOne rt h now (q.page none) n q.connID = (q.hits rt db now).take n := by
  have page : searchOne rt h now (q.page none) n q.connID = (q.asked now).page rt db none n := by
    rw [searchOne, open_]
    rfl
  rw [page, Asked.page_eq _ rt db dated_none, List.map_take]
  rfl

/-- A first page of hits shows the newest matches. -/
def FirstRight (wanted hits : List NatsMessage) (keep : NatsMessage → Bool) (scan limit : Nat) : Prop :=
  if scan ≤ hits.length then
    (∃ m ∈ hits.take scan, keep m = true) ∧ ((hits.take scan).filter keep).take limit <+: wanted
  else (hits.filter keep).take limit = wanted

omit [Tokenizer] [Tables] [Filter.Compiler] in
theorem meets_first {wanted hits : List NatsMessage} {keep : NatsMessage → Bool} {scan limit : Nat} (room : 0 < limit) :
    Meets NatsMessage.mark wanted none (scanAnswer hits keep scan limit (decide (scan ≤ hits.length))) ↔
      FirstRight wanted hits keep scan limit := by
  by_cases full : scan ≤ hits.length
  · rw [FirstRight, if_pos full, Meets, decide_eq_true full]
    refine and_congr_left fun _ => ?_
    simp only [scanAnswer, ne_eq, List.take_eq_nil_iff, not_or, room.ne', not_false_eq_true, true_and,
      List.filter_eq_nil_iff, not_forall, not_not, exists_prop]
  · rw [FirstRight, if_neg full, Meets, decide_eq_false full]
    simp only [scanAnswer, Bool.false_eq_true, if_false, List.take_of_length_le (not_le.mp full).le]
    rfl

/-- What is read for the search and matches is what was asked for, and every page keeps
enough of it; the index, where it answers first, has the newest matches. -/
def SearchRight (q : SearchQuery) (rt : Runtime) (db : DB) (now : Int) (all : List Record)
    (prg : Option Filter.Program) : Prop :=
  (∀ c, Valid all c → (c = none → q.indexed db now = false) →
    (∀ r ∈ all, (∀ k ∈ c, r.mark < k) → keeps prg (r.stored.wire q.connID) = true →
      q.reads r = true → q.about r.subject = true) ∧
    Enough (after NatsMessage.mark (stored q.connID all q.reads) c) (keeps prg) (q.scan prg) q.lines
      (decide (q.scan prg ≤ (after NatsMessage.mark (stored q.connID all q.reads) c).length))) ∧
  (q.indexed db now = true →
    FirstRight ((stored q.connID all q.wants).filter (keeps prg)) (q.hits rt db now) (keeps prg) (q.scan prg) q.lines)

theorem Recorded.search_complete_iff (rec_ : Recorded h q.connID earlier current mem) (rt : Option Mark → Runtime)
    (now : Option Mark → Int) (past : ∀ c, ∀ r ∈ earlier ++ current, r.timestamp ≤ now c) (visible : List Str)
    (open_ : h.db = some db) (one : q.connID ≠ []) (compiled : exprParam q.expr = .ok prg) :
    Complete NatsMessage.mark (searchPages rt h now visible q)
      ((stored q.connID (earlier ++ current) q.wants).filter (keeps prg)) (Valid (earlier ++ current)) ↔
        SearchRight q (rt none) db (now none) (earlier ++ current) prg := by
  have start : Valid (earlier ++ current) none := fun _ here => absurd here (Option.not_mem_none _)
  have desc : Descending NatsMessage.mark ((stored q.connID (earlier ++ current) q.wants).filter (keeps prg)) :=
    Descending.filter _ (picked_desc rec_.order fun _ => rfl)
  have closed (m : NatsMessage) (member : m ∈ (stored q.connID (earlier ++ current) q.wants).filter (keeps prg)) :=
    stored_valid m (List.mem_of_mem_filter member)
  have scans := scans_iff (fun c => c = none → q.indexed db (now none) = false) desc
    (picked_desc rec_.order (fun _ => rfl) : Descending NatsMessage.mark (stored q.connID (earlier ++ current) q.reads))
    q.lines_pos closed (fun k => nofun) (fun c _ _ => full_measured _ _)
    (fun c valid scanning => search_one (rt c) (now c) visible one compiled
      (rec_.scanned_page (rt c) (rec_.dated valid) (past c) open_ (fun none => none ▸ scanning none) _))
  have first : Meets NatsMessage.mark ((stored q.connID (earlier ++ current) q.wants).filter (keeps prg)) none
      (searchPages rt h now visible q none) ↔ FirstRight ((stored q.connID (earlier ++ current) q.wants).filter (keeps prg))
        (q.hits (rt none) db (now none)) (keeps prg) (q.scan prg) q.lines := by
    rw [← meets_first q.lines_pos, searchPages,
      search_one (rt none) (now none) visible one compiled (indexed_page (rt none) open_ _)]
    rfl
  have agree (c : Option Mark) : (after NatsMessage.mark (stored q.connID (earlier ++ current) q.reads) c).filter (keeps prg) =
      after NatsMessage.mark ((stored q.connID (earlier ++ current) q.wants).filter (keeps prg)) c ↔
        ∀ r ∈ earlier ++ current, (∀ k ∈ c, r.mark < k) → keeps prg (r.stored.wire q.connID) = true →
          q.reads r = true → q.about r.subject = true := by
    refine (picked_agree rec_.order (fun _ => rfl) c).trans ?_
    refine forall₂_congr fun r member => forall_congr' fun _ => forall_congr' fun _ => ?_
    rw [Bool.eq_iff_iff]
    exact ⟨fun same read => SearchQuery.about_of_wants (same.mp read),
      fun right => ⟨fun read => SearchQuery.wants_of_reads read (right read), SearchQuery.reads_of_wants⟩⟩
  rw [complete_iff desc closed, SearchRight, ← first]
  constructor
  · intro meets
    refine ⟨fun c valid scanning => ?_, fun _ => meets none start⟩
    obtain ⟨same, enough⟩ := scans.mp (fun c valid _ => meets c valid) c valid scanning
    exact ⟨(agree c).mp same, enough⟩
  · rintro ⟨scanned, indexed⟩ c valid
    by_cases scanning : c = none → q.indexed db (now none) = false
    · refine scans.mpr (fun c valid scanning => ?_) c valid scanning
      obtain ⟨right, enough⟩ := scanned c valid scanning
      exact ⟨(agree c).mpr right, enough⟩
    · obtain ⟨rfl, found⟩ := Classical.not_imp.mp scanning
      exact indexed (eq_true_of_ne_false found)

end Disk
end Search

section Filtered
variable [Tables] [Filter.Compiler] [Tokenizer] {h : HistoryHandler} {connID expr : Str} {earlier current mem : List Record}
  {prg : Option Filter.Program}

end Filtered

section Sample

/-- Every text is an expression that all messages match. -/
@[reducible] def allMatch : Filter.Compiler where
  compile _ := .ok ⟨fun _ => true, fun _ => true⟩

/-- Two messages of a run before on one subject. -/
def pairRecord (n : Nat) : Record := { subject := ['s'], data := .text ['1'], timestamp := n, sequence := n }

def pairRow (n : Nat) : Row where
  id := n
  conn := ['c']
  subject := ['s']
  ts := n
  seq := n
  kind := .string
  data := .text ['1']
  headers := none

def pairHandler : HistoryHandler where
  history := MemStore.newMemStoreShards (fun _ => 0) 0 0 1
  db := some {
    file := {
      version := ftsSchemaVersion
      rows := [pairRow 1, pairRow 2]
      triggers := false
      index := .empty
      ids := by decide }
    fullText := false }

theorem pairHandler_recorded : Recorded pairHandler ['c'] [pairRecord 1, pairRecord 2] [] [] where
  order := by decide
  sequences := List.Pairwise.nil
  numbered := by decide
  holds := ⟨by decide, fun i sh here subject => by
    obtain ⟨_, rfl⟩ := List.mem_replicate.mp (List.mem_of_getElem? here)
    simp only [List.filter_nil, ite_self]
    rfl⟩
  part := List.Sublist.refl _
  newest _ := List.suffix_rfl
  disk := by
    rintro db ⟨⟩
    exact List.Perm.refl _

/-- A request for the messages on `s` that match. -/
def pairQuery (limit : Nat) : GetQuery where
  subject := ['s']
  connID := ['c']
  expr := ['x']
  limit := some limit
  branchLimit := none
  noBranch := false
  before := 0
  branchBefore := 0
  beforeTs := 0
  branchBeforeTs := 0

end Sample
end NatsExplorer.Handler
