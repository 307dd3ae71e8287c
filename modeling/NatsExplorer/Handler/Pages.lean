import NatsExplorer.Handler.Recorded

/-! Scrolling back through the lists of one connection. The pages of a list are those
of one list in descending order: what memory has, and below it what the database has. -/
namespace NatsExplorer.Handler
open Go History Paging

/-- The request for what is before a message of the subject's own list. -/
def GetQuery.own (q : GetQuery) (c : Option Mark) : GetQuery :=
  { q with beforeTs := cursorTs c, before := cursorSeq c }

/-- The request for what is before a message of the list below the subject. -/
def GetQuery.below (q : GetQuery) (c : Option Mark) : GetQuery :=
  { q with branchBeforeTs := cursorTs c, branchBefore := cursorSeq c }

/-- What an answer says of the subject's own list, newest first. -/
def ownAnswer : Except Error HistoryResponse → Answer NatsMessage
  | .ok resp => ⟨resp.messages.reverse, resp.more⟩
  | .error _ => ⟨[], false⟩

def belowAnswer : Except Error HistoryResponse → Answer NatsMessage
  | .ok resp => ⟨resp.branch, resp.branchMore⟩
  | .error _ => ⟨[], false⟩

/-- What the filter of a request keeps. -/
def keeps (prg : Option Filter.Program) (m : NatsMessage) : Bool := prg.all fun prg => prg.onMessage m

section Shown
variable [Tables] {h : HistoryHandler} {connID subject : Str} {earlier current mem : List Record} {c : Option Mark}
  {rt : Runtime} {now : Int} {prg : Option Filter.Program} {limit scan : Nat}

/-- The whole list on the subject. -/
def ownList (h : HistoryHandler) (connID subject : Str) (all mem : List Record) : List NatsMessage :=
  continued NatsMessage.mark (inMemory connID mem fun subj => subj = subject)
    (onDisk h connID all (RangeScope.subject.covers subject))

/-- The whole list below the subject. -/
def belowList (h : HistoryHandler) (connID subject : Str) (all mem : List Record) : List NatsMessage :=
  continued NatsMessage.mark (inMemory connID mem (isBelow subject)) (onDisk h connID all (RangeScope.below.covers subject))

/-- Whether the list of the subject goes on after a page. -/
def ownFull (h : HistoryHandler) (connID subject : Str) (all mem : List Record) (n : Nat) (c : Option Mark) : Bool :=
  isFull NatsMessage.mark (inMemory connID mem fun subj => subj = subject)
    (onDisk h connID all (RangeScope.subject.covers subject)) n c

def belowFull (h : HistoryHandler) (connID subject : Str) (all mem : List Record) (n : Nat) (c : Option Mark) : Bool :=
  isFull NatsMessage.mark (inMemory connID mem (isBelow subject)) (onDisk h connID all (RangeScope.below.covers subject)) n c

theorem Recorded.ownList_desc (rec_ : Recorded h connID earlier current mem) :
    Descending NatsMessage.mark (ownList h connID subject (earlier ++ current) mem) :=
  (rec_.inMemory_desc _).continued (rec_.onDisk_desc _)

theorem Recorded.belowList_desc (rec_ : Recorded h connID earlier current mem) :
    Descending NatsMessage.mark (belowList h connID subject (earlier ++ current) mem) :=
  (rec_.inMemory_desc _).continued (rec_.onDisk_desc _)

omit [Tables] in
theorem keep_eq (msgs : List NatsMessage) (room : 0 < limit) (sized : prg = none → msgs.length ≤ limit) :
    Filter.keep prg msgs limit = (msgs.filter (keeps prg)).take limit := by
  cases prg with
  | none =>
    have every : msgs.filter (keeps none) = msgs := List.filter_eq_self.mpr fun m _ => rfl
    have short := sized rfl
    rw [every, List.take_of_length_le short, Filter.keep, if_neg (by omega)]
  | some prg =>
    simp only [Filter.keep, if_pos room]
    rfl

omit [Tables] in
theorem keepOwn_eq (msgs : List NatsMessage) (room : 0 < limit) (sized : prg = none → msgs.length ≤ limit) :
    (keepOwn prg msgs.reverse limit).reverse = (msgs.filter (keeps prg)).take limit := by
  cases prg with
  | none =>
    have every : msgs.filter (keeps none) = msgs := List.filter_eq_self.mpr fun m _ => rfl
    rw [every, List.take_of_length_le (sized rfl), keepOwn, List.reverse_reverse]
  | some prg =>
    have turned : msgs.reverse.filter prg.onMessage = (msgs.filter (keeps (some prg))).reverse := List.filter_reverse
    simp only [keepOwn, keepNewest, turned, List.length_reverse]
    split
    · rw [List.drop_reverse, List.reverse_reverse]
      congr 1
      omega
    · rw [List.reverse_reverse, List.take_of_length_le (by omega)]

omit [Tables] in
theorem limitParam_pos {n : Option Int} {default max : Nat} (first : 0 < default) (second : 0 < max) :
    0 < limitParam n default max := by
  unfold limitParam
  split
  · exact first
  · split
    · exact first
    · split
      · exact second
      · omega

variable [Filter.Compiler] {visible : List Str} {q : GetQuery}

/-- A request for one connection gets what that connection adds. -/
theorem get_one (one : q.connID ≠ []) (named : q.subject ≠ []) (compiled : exprParam q.expr = .ok prg) :
    get rt h now visible q = .ok (getOne rt h now q prg (limitParam q.limit defaultSubjectLimit maxSubjectLimit)
      (if q.noBranch then 0 else limitParam q.branchLimit defaultBranchLimit maxBranchLimit)
      ⟨q.subject, [], [], false, false⟩ q.connID) := by
  simp only [get, if_neg named, compiled, connIDs, if_pos one, List.foldl_cons, List.foldl_nil, List.length_singleton,
    lt_irrefl, if_false]
  rfl

omit [Filter.Compiler] in
/-- The branch does not touch the subject's own list. -/
theorem getOne_own (rt : Runtime) (h : HistoryHandler) (now : Int) (q : GetQuery) (prg : Option Filter.Program)
    (limit branchLimit : Nat) (id : Str) :
    let resp := getOne rt h now q prg limit branchLimit ⟨q.subject, [], [], false, false⟩ id
    let page := ownPage rt h now id q.subject (scanLimit limit prg maxSubjectLimit) q.beforeTs q.before
    resp.messages = keepOwn prg page.1 limit ∧ resp.more = page.2 := by
  simp only [getOne, List.nil_append, Bool.false_or]
  split <;> exact ⟨rfl, rfl⟩

omit [Filter.Compiler] in
theorem getOne_below (rt : Runtime) (h : HistoryHandler) (now : Int) (q : GetQuery) (prg : Option Filter.Program)
    (limit : Nat) {branchLimit : Nat} (id : Str) (room : 0 < branchLimit) :
    let resp := getOne rt h now q prg limit branchLimit ⟨q.subject, [], [], false, false⟩ id
    let page := belowPage rt h now id q.subject (scanLimit branchLimit prg maxBranchLimit) q.branchBeforeTs q.branchBefore
    resp.branch = Filter.keep prg page.1 branchLimit ∧ resp.branchMore = page.2 := by
  simp only [getOne, if_pos room, List.nil_append, Bool.false_or, and_self]

/-- How many messages of the subject's own list a request asks for. -/
def GetQuery.ownLimit (q : GetQuery) : Nat := limitParam q.limit defaultSubjectLimit maxSubjectLimit

def GetQuery.belowLimit (q : GetQuery) : Nat :=
  if q.noBranch then 0 else limitParam q.branchLimit defaultBranchLimit maxBranchLimit

omit [Tables] [Filter.Compiler] in
theorem GetQuery.belowLimit_pos (listed : q.noBranch = false) : 0 < q.belowLimit := by
  rw [GetQuery.belowLimit, listed, if_neg Bool.false_ne_true]
  exact limitParam_pos (by decide) (by decide)

/-- An answer shows a scan of its list. -/
theorem Recorded.own_answer (rec_ : Recorded h q.connID earlier current mem) (rt : Runtime) (visible : List Str)
    (valid : Valid (earlier ++ current) c) (past : ∀ r ∈ earlier ++ current, r.timestamp ≤ now)
    (one : q.connID ≠ []) (named : q.subject ≠ []) (compiled : exprParam q.expr = .ok prg) :
    ownAnswer (get rt h now visible (q.own c)) =
      scanAnswer (after NatsMessage.mark (ownList h q.connID q.subject (earlier ++ current) mem) c) (keeps prg)
        (scanLimit q.ownLimit prg maxSubjectLimit) q.ownLimit
        (ownFull h q.connID q.subject (earlier ++ current) mem (scanLimit q.ownLimit prg maxSubjectLimit) c) := by
  have own := rec_.ownPage_eq valid past rt q.subject (scanLimit q.ownLimit prg maxSubjectLimit)
  rw [readOn_eq (rec_.inMemory_desc _)] at own
  have room : 0 < q.ownLimit := limitParam_pos (by decide) (by decide)
  obtain ⟨messages, more⟩ := getOne_own rt h now (q.own c) prg q.ownLimit (q.own c).belowLimit q.connID
  rw [get_one (q := q.own c) one named compiled]
  refine (congrArg₂ Answer.mk (congrArg List.reverse messages) more).trans ?_
  simp only [GetQuery.own, own]
  rw [keepOwn_eq _ room fun none => ?_]
  · rfl
  · rw [none, scanLimit]
    exact List.length_take_le ..

theorem Recorded.below_answer (rec_ : Recorded h q.connID earlier current mem) (rt : Runtime) (visible : List Str)
    (valid : Valid (earlier ++ current) c) (past : ∀ r ∈ earlier ++ current, r.timestamp ≤ now)
    (one : q.connID ≠ []) (named : q.subject ≠ []) (compiled : exprParam q.expr = .ok prg)
    (listed : q.noBranch = false) :
    belowAnswer (get rt h now visible (q.below c)) =
      scanAnswer (after NatsMessage.mark (belowList h q.connID q.subject (earlier ++ current) mem) c) (keeps prg)
        (scanLimit q.belowLimit prg maxBranchLimit) q.belowLimit
        (belowFull h q.connID q.subject (earlier ++ current) mem (scanLimit q.belowLimit prg maxBranchLimit) c) := by
  have below := rec_.belowPage_eq valid past rt q.subject (scanLimit q.belowLimit prg maxBranchLimit)
  rw [readOn_eq (rec_.inMemory_desc _)] at below
  have room : 0 < q.belowLimit := q.belowLimit_pos listed
  obtain ⟨messages, more⟩ := getOne_below rt h now (q.below c) prg (q.below c).ownLimit q.connID room
  rw [get_one (q := q.below c) one named compiled]
  refine (congrArg₂ Answer.mk messages more).trans ?_
  simp only [GetQuery.below]
  rw [below, keep_eq _ room fun none => ?_]
  · rfl
  · rw [none, scanLimit]
    exact List.length_take_le ..

end Shown

section Picked
variable {l : List Record} {f : Record → NatsMessage} {p p' : Record → Bool} {c : Option Mark}
  {keep : NatsMessage → Bool}

/-- Some of a log, newest first, in one form. -/
def picked (f : Record → NatsMessage) (l : List Record) (p : Record → Bool) : List NatsMessage :=
  (l.filter p).reverse.map f

theorem picked_desc (order : l.Pairwise fun a b => a.mark < b.mark) (marks : ∀ r, (f r).mark = r.mark) :
    Descending NatsMessage.mark (picked f l p) := by
  refine List.pairwise_map.mpr (List.pairwise_reverse.mpr ?_)
  simp only [marks]
  exact order.sublist List.filter_sublist

theorem mem_picked {m : NatsMessage} (member : m ∈ picked f l p) : ∃ r ∈ l, f r = m := by
  obtain ⟨r, listed, rfl⟩ := List.mem_map.mp member
  exact ⟨r, List.mem_of_mem_filter (List.mem_reverse.mp listed), rfl⟩

theorem picked_inj (order : l.Pairwise fun a b => a.mark < b.mark) (marks : ∀ r, (f r).mark = r.mark) :
    picked f l p = picked f l p' ↔ ∀ r ∈ l, p r = p' r := by
  constructor
  · intro same r member
    have places := congrArg (List.map NatsMessage.mark) same
    simp only [picked, List.map_map, Function.comp_def, marks, ← List.filter_reverse] at places
    have desc : Descending Record.mark l.reverse := List.pairwise_reverse.mpr order
    exact desc.filter_inj places (List.mem_reverse.mpr member)
  · intro same
    rw [picked, picked, List.filter_congr same]

theorem after_picked (marks : ∀ r, (f r).mark = r.mark) (c : Option Mark) :
    after NatsMessage.mark (picked f l p) c = picked f l fun r => p r && c.all fun k => r.mark < k := by
  cases c with
  | none => simp only [after, picked, Option.all_none, Bool.and_true]
  | some k =>
    simp only [after, picked, List.filter_map, Function.comp_def, marks, ← List.filter_reverse, List.filter_filter,
      Option.all_some, Bool.and_comm]

theorem picked_filter (keep : NatsMessage → Bool) :
    (picked f l p).filter keep = picked f l fun r => p r && keep (f r) := by
  simp only [picked, List.filter_map, Function.comp_def, ← List.filter_reverse, List.filter_filter, Bool.and_comm]

/-- Two choices have the same matches before a cursor if they agree on them. -/
theorem picked_agree (order : l.Pairwise fun a b => a.mark < b.mark) (marks : ∀ r, (f r).mark = r.mark)
    (c : Option Mark) :
    (after NatsMessage.mark (picked f l p) c).filter keep = after NatsMessage.mark ((picked f l p').filter keep) c ↔
      ∀ r ∈ l, (∀ k ∈ c, r.mark < k) → keep (f r) = true → p r = p' r := by
  rw [after_filter, picked_filter, picked_filter, after_picked marks, after_picked marks, picked_inj order marks]
  refine forall₂_congr fun r member => ?_
  have before : (c.all fun k => r.mark < k) = true ↔ ∀ k ∈ c, r.mark < k := by
    cases c with
    | none => simp
    | some k => simp
  rw [← before]
  cases p r <;> cases p' r <;> cases keep (f r) <;> cases (c.all fun k => r.mark < k) <;> simp

end Picked

section Whole
variable [Tables] {h : HistoryHandler} {connID subject : Str} {earlier current mem : List Record}

/-- What the history has of everything recorded. -/
def kept (h : HistoryHandler) (all mem : List Record) : List Record :=
  match h.db with
  | none => mem
  | some _ => all

/-- A recorded message as the history has it; memory has the reply too. -/
def copy (mem : List Record) (connID : Str) (r : Record) : NatsMessage :=
  if r ∈ mem then r.wire connID else r.stored.wire connID

/-- The recorded messages of a scope, newest first. -/
def recordedList (h : HistoryHandler) (connID : Str) (all mem : List Record) (inScope : Str → Bool) : List NatsMessage :=
  ((kept h all mem).filter fun r => inScope r.subject).reverse.map (copy mem connID)

/-- What a list shows that goes on from memory in the database. -/
def Shown (mem : List Record) (inScope covered : Str → Bool) (r : Record) : Prop :=
  r ∈ mem ∧ inScope r.subject ∨ covered r.subject ∧ ∀ m ∈ mem, inScope m.subject → r.mark < m.mark

instance (mem : List Record) (inScope covered : Str → Bool) : DecidablePred (Shown mem inScope covered) := fun r => by
  unfold Shown
  infer_instance

/-- Where it comes from. -/
def shownCopy (mem : List Record) (inScope : Str → Bool) (connID : Str) (r : Record) : NatsMessage :=
  if r ∈ mem ∧ inScope r.subject then r.wire connID else r.stored.wire connID

theorem Recorded.continued_eq (rec_ : Recorded h connID earlier current mem) {db : DB} (open_ : h.db = some db)
    (inScope covered : Str → Bool) :
    continued NatsMessage.mark (inMemory connID mem inScope) (onDisk h connID (earlier ++ current) covered) =
      ((earlier ++ current).filter fun r => Shown mem inScope covered r).reverse.map (shownCopy mem inScope connID) := by
  have first : Descending Record.mark (mem.filter fun r => inScope r.subject).reverse :=
    List.pairwise_reverse.mpr (rec_.distinct.sublist List.filter_sublist)
  have second : Descending Record.mark ((earlier ++ current).filter fun r => covered r.subject).reverse :=
    List.pairwise_reverse.mpr (rec_.order.sublist List.filter_sublist)
  have records : ((earlier ++ current).filter fun r => Shown mem inScope covered r).reverse =
      continued Record.mark (mem.filter fun r => inScope r.subject).reverse
        ((earlier ++ current).filter fun r => covered r.subject).reverse := by
    refine Descending.ext (List.pairwise_reverse.mpr (rec_.order.sublist List.filter_sublist))
      (first.continued second) fun r => ?_
    simp only [mem_continued first, List.mem_reverse, List.mem_filter, decide_eq_true_eq, and_imp]
    constructor
    · rintro ⟨member, here | ⟨covers, below⟩⟩
      · exact Or.inl here
      · exact Or.inr ⟨⟨member, covers⟩, fun m here within => below m here within⟩
    · rintro (here | ⟨⟨member, covers⟩, below⟩)
      · exact ⟨List.mem_append_right _ (rec_.part.subset here.1), Or.inl here⟩
      · exact ⟨member, Or.inr ⟨covers, below⟩⟩
  rw [records, continued, continued, List.map_append, inMemory, onDisk, open_]
  simp only [after_map, next_map]
  congr 1
  · refine List.map_congr_left fun r member => ?_
    obtain ⟨here, within⟩ := List.mem_filter.mp (List.mem_reverse.mp member)
    rw [shownCopy, if_pos ⟨here, within⟩]
  · refine List.map_congr_left fun r member => ?_
    have below : ∀ m ∈ mem, inScope m.subject = true → r.mark < m.mark := fun m here within => by
      obtain ⟨k, cursor, least⟩ := first.next_le none (List.mem_reverse.mpr (List.mem_filter.mpr ⟨here, within⟩))
      exact ((mem_after.mp member).2 k cursor).trans_le least
    rw [shownCopy, if_neg fun here => lt_irrefl _ (below r here.1 here.2)]

/-- The matches of a list are the recorded ones exactly if it shows the right ones. -/
theorem Recorded.continued_filter_iff (rec_ : Recorded h connID earlier current mem) {db : DB} (open_ : h.db = some db)
    (inScope covered : Str → Bool) (keep : NatsMessage → Bool) :
    (continued NatsMessage.mark (inMemory connID mem inScope) (onDisk h connID (earlier ++ current) covered)).filter keep =
        (recordedList h connID (earlier ++ current) mem inScope).filter keep ↔
      ∀ r ∈ earlier ++ current, Shown mem inScope covered r ∧ keep (shownCopy mem inScope connID r) = true ↔
        inScope r.subject = true ∧ keep (copy mem connID r) = true := by
  have first (r : Record) : (shownCopy mem inScope connID r).mark = r.mark := by unfold shownCopy; split <;> rfl
  have second (r : Record) : (copy mem connID r).mark = r.mark := by unfold copy; split <;> rfl
  have lists : recordedList h connID (earlier ++ current) mem inScope =
      picked (copy mem connID) (earlier ++ current) fun r => inScope r.subject := by
    rw [recordedList, kept, open_]
    rfl
  have shown := rec_.continued_eq open_ inScope covered
  rw [lists, shown]
  change (picked _ _ _).filter keep = _ ↔ _
  rw [picked_filter, picked_filter]
  constructor
  · intro same r member
    have places := congrArg (List.map NatsMessage.mark) same
    simp only [picked, List.map_map, Function.comp_def, first, second, ← List.filter_reverse] at places
    have all : Descending Record.mark (earlier ++ current).reverse := List.pairwise_reverse.mpr rec_.order
    have agree := all.filter_inj places (List.mem_reverse.mpr member)
    rw [Bool.eq_iff_iff, Bool.and_eq_true, Bool.and_eq_true, decide_eq_true_eq] at agree
    exact agree
  · intro same
    have right : (earlier ++ current).filter (fun r => Shown mem inScope covered r && keep (shownCopy mem inScope connID r)) =
        (earlier ++ current).filter fun r => inScope r.subject && keep (copy mem connID r) := by
      refine List.filter_congr fun r member => ?_
      rw [Bool.eq_iff_iff, Bool.and_eq_true, Bool.and_eq_true, decide_eq_true_eq]
      exact same r member
    rw [picked, picked, right]
    refine List.map_congr_left fun r member => ?_
    have within := (Bool.and_eq_true_iff.mp (List.mem_filter.mp (List.mem_reverse.mp member)).2).1
    simp only [shownCopy, copy, within, and_true]

/-- What a list shows is what is recorded exactly if it shows the right messages. -/
theorem Recorded.continued_eq_iff (rec_ : Recorded h connID earlier current mem) {db : DB} (open_ : h.db = some db)
    (inScope covered : Str → Bool) :
    continued NatsMessage.mark (inMemory connID mem inScope) (onDisk h connID (earlier ++ current) covered) =
        recordedList h connID (earlier ++ current) mem inScope ↔
      ∀ r ∈ earlier ++ current, Shown mem inScope covered r ↔ inScope r.subject = true := by
  have every := rec_.continued_filter_iff open_ inScope covered fun _ => true
  simpa only [List.filter_true, and_true] using every

theorem Recorded.onDisk_known {covered : Str → Bool} {m : NatsMessage}
    (member : m ∈ onDisk h connID (earlier ++ current) covered) : ∃ r ∈ earlier ++ current, r.mark = m.mark := by
  unfold onDisk at member
  split at member
  · cases member
  · obtain ⟨r, listed, rfl⟩ := List.mem_map.mp member
    exact ⟨r, List.mem_of_mem_filter (List.mem_reverse.mp listed), rfl⟩

/-- Every message of a list is a cursor. -/
theorem Recorded.continued_valid (rec_ : Recorded h connID earlier current mem) {inScope covered : Str → Bool} :
    ∀ m ∈ continued NatsMessage.mark (inMemory connID mem inScope) (onDisk h connID (earlier ++ current) covered),
      Valid (earlier ++ current) (some m.mark) := by
  rintro m member _ ⟨⟩
  rcases (mem_continued (rec_.inMemory_desc _)).mp member with here | there
  · exact rec_.inMemory_known here
  · exact onDisk_known there.1

/-- Without a database a list is what memory has. -/
theorem continued_memory (none_ : h.db = none) (inScope covered : Str → Bool) :
    continued NatsMessage.mark (inMemory connID mem inScope) (onDisk h connID (earlier ++ current) covered) =
      recordedList h connID (earlier ++ current) mem inScope := by
  have empty (c : Option Mark) : after NatsMessage.mark ([] : List NatsMessage) c = [] := by cases c <;> rfl
  rw [continued, onDisk, none_, empty, List.append_nil, inMemory, recordedList, kept, none_]
  refine List.map_congr_left fun r member => ?_
  rw [copy, if_pos (List.mem_of_mem_filter (List.mem_reverse.mp member))]

/-- Of one subject memory has the newest messages, so its list is whole. -/
theorem Recorded.ownList_eq (rec_ : Recorded h connID earlier current mem) :
    ownList h connID subject (earlier ++ current) mem =
      recordedList h connID (earlier ++ current) mem fun subj => subj = subject := by
  cases open_ : h.db with
  | none => exact continued_memory open_ _ _
  | some db =>
    refine (rec_.continued_eq_iff open_ _ _).mpr fun r member => ?_
    simp only [Shown, RangeScope.covers, decide_eq_true_eq]
    refine ⟨fun shown => shown.elim And.right And.left, fun own => ?_⟩
    rcases List.mem_append.mp member with before | now
    · refine Or.inr ⟨own, fun m here _ => ?_⟩
      exact (List.pairwise_append.mp rec_.order).2.2 r before m (rec_.part.subset here)
    · obtain ⟨old, split⟩ := rec_.newest subject
      have listed : r ∈ current.filter fun r => r.subject = subject := List.mem_filter.mpr ⟨now, decide_eq_true own⟩
      rw [← split] at listed
      rcases List.mem_append.mp listed with gone | here
      · refine Or.inr ⟨own, fun m here same => ?_⟩
        have order : (current.filter fun r => r.subject = subject).Pairwise fun a b => a.mark < b.mark :=
          (List.pairwise_append.mp rec_.order).2.1.sublist List.filter_sublist
        rw [← split] at order
        exact (List.pairwise_append.mp order).2.2 r gone m (List.mem_filter.mpr ⟨here, decide_eq_true same⟩)
      · exact Or.inl ⟨List.mem_of_mem_filter here, own⟩

/-- Where the list below a subject is whole: there is no database, or everything below
the subject that memory does not have is older than all it has there, and nothing
older than that lies below the subject in another case only. -/
def Whole (h : HistoryHandler) (subject : Str) (all mem : List Record) : Prop :=
  h.db = none ∨ ∀ r ∈ all,
    (isBelow subject r.subject = true → r ∈ mem ∨ ∀ m ∈ mem, isBelow subject m.subject = true → r.mark < m.mark) ∧
      (RangeScope.below.covers subject r.subject = true →
        (∀ m ∈ mem, isBelow subject m.subject = true → r.mark < m.mark) → isBelow subject r.subject = true)

theorem Recorded.belowList_eq_iff (rec_ : Recorded h connID earlier current mem) :
    belowList h connID subject (earlier ++ current) mem =
        recordedList h connID (earlier ++ current) mem (isBelow subject) ↔ Whole h subject (earlier ++ current) mem := by
  cases open_ : h.db with
  | none => exact iff_of_true (continued_memory open_ _ _) (Or.inl open_)
  | some db =>
    have there : ¬ h.db = none := by rw [open_]; nofun
    refine (rec_.continued_eq_iff open_ _ _).trans (Iff.trans ?_ (or_iff_right there).symm)
    refine forall₂_congr fun r member => ?_
    have covers (below : isBelow subject r.subject = true) : RangeScope.below.covers subject r.subject = true :=
      like_of_below (of_decide_eq_true below)
    unfold Shown
    constructor
    · intro shown
      refine ⟨fun below => ?_, fun covered older => shown.mp (Or.inr ⟨covered, older⟩)⟩
      exact (shown.mpr below).imp And.left And.right
    · rintro ⟨first, second⟩
      refine ⟨fun shown => shown.elim And.right fun there => second there.1 there.2, fun below => ?_⟩
      exact (first below).imp (fun here => ⟨here, below⟩) fun older => ⟨covers below, older⟩

end Whole

section Scrolled
variable [Tables] [Filter.Compiler] {h : HistoryHandler} {q : GetQuery} {earlier current mem : List Record}

theorem exprParam_none (plain : strings.trimSpace q.expr = []) : exprParam q.expr = .ok none := by
  simp only [exprParam, if_pos plain]

/-- Without an expression the pages are the list. -/
theorem Recorded.own_pages (rec_ : Recorded h q.connID earlier current mem) (rt : Option Mark → Runtime)
    (now : Option Mark → Int) (past : ∀ c, ∀ r ∈ earlier ++ current, r.timestamp ≤ now c) (visible : List Str)
    (one : q.connID ≠ []) (named : q.subject ≠ []) (plain : strings.trimSpace q.expr = []) :
    ∃ pages, Follow NatsMessage.mark (fun c => ownAnswer (get (rt c) h (now c) visible (q.own c))) none pages ∧
      pages.flatten = ownList h q.connID q.subject (earlier ++ current) mem := by
  have start : Valid (earlier ++ current) none := nofun
  exact follow_scans q.ownLimit rec_.ownList_desc (limitParam_pos (by decide) (by decide))
    (fun _ => rfl) rec_.continued_valid (fun c _ => isFull_measured (rec_.inMemory_desc _) _ _ c)
    (fun c valid => rec_.own_answer (rt c) visible valid (past c) one named (exprParam_none plain)) start

theorem Recorded.below_pages (rec_ : Recorded h q.connID earlier current mem) (rt : Option Mark → Runtime)
    (now : Option Mark → Int) (past : ∀ c, ∀ r ∈ earlier ++ current, r.timestamp ≤ now c) (visible : List Str)
    (one : q.connID ≠ []) (named : q.subject ≠ []) (plain : strings.trimSpace q.expr = []) (listed : q.noBranch = false) :
    ∃ pages, Follow NatsMessage.mark (fun c => belowAnswer (get (rt c) h (now c) visible (q.below c))) none pages ∧
      pages.flatten = belowList h q.connID q.subject (earlier ++ current) mem := by
  have start : Valid (earlier ++ current) none := nofun
  exact follow_scans q.belowLimit rec_.belowList_desc (q.belowLimit_pos listed)
    (fun _ => rfl) rec_.continued_valid (fun c _ => isFull_measured (rec_.inMemory_desc _) _ _ c)
    (fun c valid => rec_.below_answer (rt c) visible valid (past c) one named (exprParam_none plain) listed) start

end Scrolled

section Sample

def sampleRecord : Record := { subject := ['A', '.', 'x'], data := .text ['1'], timestamp := 1, sequence := 1 }

def sampleRow : Row where
  id := 1
  conn := ['c']
  subject := ['A', '.', 'x']
  ts := 1
  seq := 1
  kind := .string
  data := .text ['1']
  headers := none

theorem sampleRow_once : ([sampleRow].map Row.id).Nodup := List.nodup_singleton 1

/-- An empty memory, and a database with one message of a run before. -/
def sampleHandler : HistoryHandler where
  history := MemStore.newMemStoreShards (fun _ => 0) 0 0 1
  db := some {
    file := {
      version := ftsSchemaVersion
      rows := [sampleRow]
      triggers := false
      index := .empty
      ids := sampleRow_once }
    fullText := false }

theorem sampleHandler_recorded : Recorded sampleHandler ['c'] [sampleRecord] [] [] where
  order := List.pairwise_singleton ..
  sequences := List.Pairwise.nil
  numbered := by decide
  holds := ⟨by decide, fun i sh here subject => by
    obtain ⟨_, rfl⟩ := List.mem_replicate.mp (List.mem_of_getElem? here)
    simp only [List.filter_nil, ite_self]
    rfl⟩
  part := List.Sublist.refl _
  newest _ := List.suffix_rfl
  disk := by
    rintro db ⟨⟩
    exact List.Perm.refl _

def sampleQuery (subject : Str) : GetQuery where
  subject := subject
  connID := ['c']
  expr := []
  limit := none
  branchLimit := none
  noBranch := false
  before := 0
  branchBefore := 0
  beforeTs := 0
  branchBeforeTs := 0

@[reducible] def noExpressions : Filter.Compiler where
  compile _ := .error []

end Sample
end NatsExplorer.Handler
