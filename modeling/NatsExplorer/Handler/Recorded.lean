import NatsExplorer.Handler.History
import NatsExplorer.Library.Paging

/-! What the pages of one connection's history are pages of. Memory has the newest
messages of every subject, the database all of them; a list starts in memory and goes
on below its oldest message in the database. -/
namespace NatsExplorer
open Go

def NatsMessage.mark (m : NatsMessage) : Mark := toLex (m.timestamp, m.sequence)

namespace Handler
open History Paging

/-- Everything recorded of a connection, and what the stores have of it. The sequences
of a run start over after those of the runs before, whose messages are all older. -/
structure Recorded (h : HistoryHandler) (connID : Str) (earlier current mem : List Record) : Prop where
  order : (earlier ++ current).Pairwise fun a b => a.mark < b.mark
  sequences : current.Pairwise fun a b => a.sequence < b.sequence
  numbered : ∀ r ∈ earlier ++ current, 0 < r.timestamp ∧ 0 < r.sequence
  holds : h.history.Holds connID mem
  part : mem.Sublist current
  newest : ∀ subject, (mem.filter fun r => r.subject = subject) <:+ current.filter fun r => r.subject = subject
  disk : ∀ db, h.db = some db → db.Keeps connID (earlier ++ current)

/-- The cursor of a request; zeros are none. -/
def cursorTs (c : Option Mark) : Int := (c.map fun k => (ofLex k).1).getD 0

def cursorSeq (c : Option Mark) : Nat := (c.map fun k => (ofLex k).2).getD 0

/-- A cursor is the place of a recorded message. -/
def Valid (all : List Record) (c : Option Mark) : Prop := ∀ k ∈ c, ∃ r ∈ all, r.mark = k

def isBelow (subject subj : Str) : Bool := strings.hasPrefix subj (subject ++ ['.'])

/-- What memory has of a scope, newest first. -/
def inMemory [Tables] (connID : Str) (mem : List Record) (inScope : Str → Bool) : List NatsMessage :=
  (mem.filter fun r => inScope r.subject).reverse.map fun r => r.wire connID

/-- What the database has of a scope, newest first. -/
def onDisk [Tables] (h : HistoryHandler) (connID : Str) (all : List Record) (inScope : Str → Bool) : List NatsMessage :=
  match h.db with
  | none => []
  | some _ => (all.filter fun r => inScope r.subject).reverse.map fun r => r.stored.wire connID

section Cursor
variable {h : HistoryHandler} {connID : Str} {earlier current mem l : List Record} {c : Option Mark}

theorem Recorded.distinct (rec_ : Recorded h connID earlier current mem) : mem.Pairwise fun a b => a.mark < b.mark :=
  (List.pairwise_append.mp rec_.order).2.1.sublist rec_.part

theorem Recorded.arrived (rec_ : Recorded h connID earlier current mem) : MemStore.Arrived mem := by
  intro subject
  refine ((rec_.distinct.and (rec_.sequences.sublist rec_.part)).sublist List.filter_sublist).imp ?_
  rintro a b ⟨place, number⟩
  refine ⟨?_, number⟩
  rcases (Prod.Lex.toLex_lt_toLex).mp place with before | same
  · exact before.le
  · exact same.1.le

theorem Recorded.positive (rec_ : Recorded h connID earlier current mem) (valid : Valid (earlier ++ current) c) :
    ∀ k ∈ c, 0 < cursorTs c ∧ 0 < cursorSeq c := by
  rintro k here
  obtain ⟨r, member, rfl⟩ := valid k here
  cases here
  exact rec_.numbered r member

/-- What is before the cursor of a request. -/
theorem lt_cursor {k : Mark} {ts : Int} {seq : Nat} :
    (decide (ts < (ofLex k).1) || (decide (ts = (ofLex k).1) && decide (seq < (ofLex k).2))) =
      decide ((toLex (ts, seq) : Mark) < k) := by
  have place : (toLex (ts, seq) : Mark) < k ↔ ts < (ofLex k).1 ∨ ts = (ofLex k).1 ∧ seq < (ofLex k).2 :=
    Prod.Lex.toLex_lt_toLex (x := (ts, seq)) (y := ofLex k)
  rw [← Bool.decide_and, ← Bool.decide_or, decide_eq_decide]
  exact place.symm

theorem Recorded.olderThan_eq (rec_ : Recorded h connID earlier current mem) (valid : Valid (earlier ++ current) c)
    (msgs : List NatsMessage) : olderThan msgs (cursorTs c) (cursorSeq c) = after NatsMessage.mark msgs c := by
  cases c with
  | none => rfl
  | some k =>
    rw [olderThan, if_neg (rec_.positive valid k rfl).1.ne']
    exact List.filter_congr fun m _ => lt_cursor

theorem Recorded.dated (rec_ : Recorded h connID earlier current mem) (valid : Valid (earlier ++ current) c) :
    ∀ k ∈ c, 0 < (ofLex k).1 := by
  rintro k here
  obtain ⟨r, member, rfl⟩ := valid k here
  exact (rec_.numbered r member).1

theorem beforeCursor_eq (dated : ∀ k ∈ c, 0 < (ofLex k).1) (l : List Record) :
    l.filter (beforeCursor (cursorTs c) (cursorSeq c)) = after Record.mark l c := by
  cases c with
  | none => exact List.filter_eq_self.mpr fun r _ => rfl
  | some k =>
    refine List.filter_congr fun r _ => ?_
    have date : 0 < cursorTs (some k) := dated k rfl
    rw [beforeCursor, decide_eq_true date, Bool.not_true, Bool.false_or]
    exact lt_cursor

/-- In one run sequences and places agree. -/
theorem Recorded.sequence_lt (rec_ : Recorded h connID earlier current mem) {a b : Record} (first : a ∈ current)
    (second : b ∈ current) : a.sequence < b.sequence ↔ a.mark < b.mark := by
  let Agree (a b : Record) : Prop :=
    (a.sequence < b.sequence ↔ a.mark < b.mark) ∧ (b.sequence < a.sequence ↔ b.mark < a.mark)
  have : Std.Symm Agree := ⟨fun _ _ => And.symm⟩
  have run : current.Pairwise Agree := by
    refine ((List.pairwise_append.mp rec_.order).2.1.and rec_.sequences).imp fun ⟨place, number⟩ => ?_
    exact ⟨iff_of_true number place, iff_of_false number.asymm place.asymm⟩
  have own (a : Record) : Agree a a := ⟨iff_of_false (lt_irrefl _) (lt_irrefl _), iff_of_false (lt_irrefl _) (lt_irrefl _)⟩
  exact (run.forall_of_forall (fun a _ => own a) first second).1

/-- So a sequence of the run cuts where its place does. -/
theorem Recorded.older_eq (rec_ : Recorded h connID earlier current mem) {r : Record} (known : r ∈ current)
    (inside : ∀ x ∈ l, x ∈ current) :
    l.filter (olderSeq (cursorSeq (some r.mark))) = after Record.mark l (some r.mark) := by
  refine List.filter_congr fun x here => ?_
  have number : 0 < r.sequence := (rec_.numbered r (List.mem_append_right _ known)).2
  rw [olderSeq, show cursorSeq (some r.mark) = r.sequence from rfl, decide_eq_false number.ne', Bool.false_or,
    decide_eq_decide]
  exact rec_.sequence_lt (inside x here) known

/-- Within one run the sequences say what the places say; a cursor of an earlier run
is before everything. -/
theorem Recorded.memory_cut (rec_ : Recorded h connID earlier current mem) (valid : Valid (earlier ++ current) c)
    (sub : ∀ r ∈ l, r ∈ mem) (n : Nat) :
    after Record.mark ((l.filter (olderSeq (cursorSeq c))).take n) c = (after Record.mark l c).take n := by
  cases c with
  | none =>
    have every : l.filter (olderSeq 0) = l := List.filter_eq_self.mpr fun r _ => rfl
    exact congrArg (List.take n) every
  | some k =>
    obtain ⟨r, member, rfl⟩ := valid k rfl
    have inside (x : Record) (here : x ∈ l) : x ∈ current := rec_.part.subset (sub x here)
    rcases List.mem_append.mp member with before | same
    · have above (x : Record) (here : x ∈ l) : ¬ x.mark < r.mark :=
        ((List.pairwise_append.mp rec_.order).2.2 r before x (inside x here)).not_gt
      have none_ : after Record.mark l (some r.mark) = [] :=
        List.filter_eq_nil_iff.mpr fun x here => by rw [decide_eq_true_eq]; exact above x here
      rw [none_, List.take_nil]
      exact List.filter_eq_nil_iff.mpr fun x here => by
        rw [decide_eq_true_eq]
        exact above x (List.mem_of_mem_filter (List.mem_of_mem_take here))
    · rw [rec_.older_eq same inside]
      exact List.filter_eq_self.mpr fun x here => decide_eq_true ((mem_after.mp (List.mem_of_mem_take here)).2 _ rfl)

end Cursor

section Pages
variable [Tables] {h : HistoryHandler} {connID subject : Str} {earlier current mem : List Record} {c : Option Mark}
  {rt : Runtime} {now : Int}

theorem Recorded.inMemory_desc (rec_ : Recorded h connID earlier current mem) (inScope : Str → Bool) :
    Descending NatsMessage.mark (inMemory connID mem inScope) :=
  Descending.map (List.pairwise_reverse.mpr (rec_.distinct.sublist List.filter_sublist))

theorem Recorded.onDisk_desc (rec_ : Recorded h connID earlier current mem) (inScope : Str → Bool) :
    Descending NatsMessage.mark (onDisk h connID (earlier ++ current) inScope) := by
  unfold onDisk
  cases h.db with
  | none => exact Descending.nil
  | some db => exact Descending.map (List.pairwise_reverse.mpr (rec_.order.sublist List.filter_sublist))

theorem Recorded.memory_own (rec_ : Recorded h connID earlier current mem) (valid : Valid (earlier ++ current) c)
    (n : Nat) : olderThan (h.history.subject connID subject n (cursorSeq c)) (cursorTs c) (cursorSeq c) =
      ((after NatsMessage.mark (inMemory connID mem fun subj => subj = subject) c).take n).reverse := by
  have cut := rec_.memory_cut valid (l := (mem.filter fun r => r.subject = subject).reverse)
    (fun r here => List.mem_of_mem_filter (List.mem_reverse.mp here)) n
  rw [rec_.holds.subject_eq rec_.arrived, rec_.olderThan_eq valid, inMemory, after_map, after_map]
  rw [← List.filter_reverse, after_reverse, ← List.map_take, ← List.map_reverse]
  exact congrArg (fun l => l.reverse.map fun r => r.wire connID) cut

omit [Tables] in
/-- A walk over the subjects in scope reads the newest of them. -/
theorem Recorded.memory_merge (rec_ : Recorded h connID earlier current mem) (inScope : Str → Bool)
    (keep : Record → Bool) (n seq : Nat) :
    mergeNewest rt keep n (h.history.cursors rt connID inScope seq) =
      (((mem.filter fun r => inScope r.subject).reverse.filter (olderSeq seq)).filter keep).take n := by
  obtain ⟨all, perm, order, same⟩ := rec_.holds.merge_eq rec_.arrived rt inScope keep n seq
  have desc : Descending Record.mark ((mem.filter fun r => inScope r.subject).reverse.filter (olderSeq seq)) :=
    (List.pairwise_reverse.mpr (rec_.distinct.sublist List.filter_sublist)).sublist List.filter_sublist
  have only := desc.eq_of_perm order (((List.reverse_perm _).filter _).trans (by
    rw [List.filter_filter]
    exact (List.Perm.of_eq (List.filter_congr fun r _ => Bool.and_comm ..)).trans perm.symm))
  rw [same, ← only]

theorem Recorded.memory_below (rec_ : Recorded h connID earlier current mem) (valid : Valid (earlier ++ current) c)
    (n : Nat) : olderThan (h.history.branch rt connID subject n (cursorSeq c)) (cursorTs c) (cursorSeq c) =
      (after NatsMessage.mark (inMemory connID mem (isBelow subject)) c).take n := by
  have cut := rec_.memory_cut valid (l := (mem.filter fun r => strings.hasPrefix r.subject (subject ++ ['.'])).reverse)
    (fun r here => List.mem_of_mem_filter (List.mem_reverse.mp here)) n
  rw [MemStore.branch, rec_.memory_merge, List.filter_true, rec_.olderThan_eq valid, inMemory, after_map, after_map,
    ← List.map_take]
  exact congrArg (List.map fun r => r.wire connID) cut

/-- A page of the database is a page of what it reads. -/
theorem Recorded.select_page (rec_ : Recorded h connID earlier current mem) (dated : ∀ k ∈ c, 0 < (ofLex k).1)
    {db : DB} (open_ : h.db = some db) (rt : Runtime) (n : Nat) {wanted reads : Record → Bool}
    (inside : ∀ r ∈ earlier ++ current, wanted r.stored = (reads r && beforeCursor (cursorTs c) (cursorSeq c) r)) :
    (db.select rt connID wanted n).map (fun r => r.wire connID) =
      ((after Record.mark ((earlier ++ current).filter reads).reverse c).take n).map fun r => r.stored.wire connID := by
  have chosen : (earlier ++ current).filter (fun r => wanted r.stored) =
      after Record.mark ((earlier ++ current).filter reads) c := by
    rw [← beforeCursor_eq dated, List.filter_filter]
    refine List.filter_congr fun r member => ?_
    rw [inside r member, Bool.and_comm]
  rw [(rec_.disk db open_).select_eq rec_.order, List.map_map, after_reverse, ← chosen]
  rfl

theorem Recorded.range_page (rec_ : Recorded h connID earlier current mem) (valid : Valid (earlier ++ current) c)
    {db : DB} (open_ : h.db = some db) (rt : Runtime) (scope : RangeScope) {fromTs toTs : Int} (n : Nat) {inScope : Record → Bool}
    (inside : ∀ r ∈ earlier ++ current, (∀ k ∈ c, r.mark < k) →
      (between fromTs toTs r.timestamp && scope.covers subject r.subject) = inScope r) :
    db.rangePage rt connID subject scope fromTs toTs (cursorTs c) (cursorSeq c) n =
      ((after Record.mark ((earlier ++ current).filter inScope).reverse c).take n).map fun r => r.stored.wire connID := by
  refine rec_.select_page (rec_.dated valid) open_ rt n fun r member => ?_
  change (between fromTs toTs r.timestamp && beforeCursor (cursorTs c) (cursorSeq c) r && scope.covers subject r.subject) = _
  cases before : beforeCursor (cursorTs c) (cursorSeq c) r with
  | false => simp only [Bool.and_false, Bool.false_and]
  | true =>
    have here : r ∈ after Record.mark (earlier ++ current) c := by
      rw [← beforeCursor_eq (rec_.dated valid)]
      exact List.mem_filter.mpr ⟨member, before⟩
    rw [← inside r member (mem_after.mp here).2]
    simp only [Bool.and_true]

/-- A page of the database from the cursor on. -/
theorem Recorded.disk_page (rec_ : Recorded h connID earlier current mem) (valid : Valid (earlier ++ current) c)
    (past : ∀ r ∈ earlier ++ current, r.timestamp ≤ now) (scope : RangeScope) {limit : Nat} (room : 0 < limit) :
    olderOnDisk rt h.db now connID subject scope (cursorTs c) (cursorSeq c) limit =
      ((after NatsMessage.mark (onDisk h connID (earlier ++ current) (scope.covers subject)) c).take limit,
        decide (limit < (after NatsMessage.mark (onDisk h connID (earlier ++ current) (scope.covers subject)) c).length)) := by
  cases open_ : h.db with
  | none =>
    have empty : after NatsMessage.mark ([] : List NatsMessage) c = [] := by cases c <;> rfl
    simp only [olderOnDisk, onDisk, open_, empty, List.take_nil, List.length_nil, Nat.not_lt_zero, decide_false]
  | some db =>
    have inside (r : Record) (member : r ∈ earlier ++ current) (before : ∀ k ∈ c, r.mark < k) :
        (between 0 (if cursorTs c = 0 then now else cursorTs c) r.timestamp && scope.covers subject r.subject) =
          scope.covers subject r.subject := by
      have from_ : 0 ≤ r.timestamp := (rec_.numbered r member).1.le
      have until_ : r.timestamp ≤ if cursorTs c = 0 then now else cursorTs c := by
        cases c with
        | none => exact past r member
        | some k =>
          rw [if_neg (rec_.positive valid k rfl).1.ne']
          rcases Prod.Lex.toLex_lt_toLex.mp (before k rfl) with earlier | same
          · exact earlier.le
          · exact same.1.le
      rw [between, decide_eq_true from_, decide_eq_true until_, Bool.true_and, Bool.true_and]
    have page := rec_.range_page valid open_ rt scope (limit + 1) inside
    have rows : after NatsMessage.mark (onDisk h connID (earlier ++ current) (scope.covers subject)) c =
        (after Record.mark ((earlier ++ current).filter fun r => scope.covers subject r.subject).reverse c).map
          fun r => r.stored.wire connID := by
      simp only [onDisk, open_, after_map]
      rfl
    rw [List.map_take, ← rows] at page
    simp only [olderOnDisk, if_neg room.ne', page, List.length_take]
    generalize after NatsMessage.mark (onDisk h connID (earlier ++ current) (scope.covers subject)) c = left
    by_cases more : limit < left.length
    · rw [if_pos (by omega), List.take_take, min_eq_left (by omega), decide_eq_true more]
    · rw [if_neg (by omega), List.take_of_length_le (by omega), List.take_of_length_le (by omega),
        decide_eq_false more]

omit [Tables] in
/-- A page of recorded messages leaves a cursor of one. -/
theorem valid_next (valid : Valid (earlier ++ current) c) {page : List NatsMessage}
    (known : ∀ m ∈ page, ∃ r ∈ earlier ++ current, r.mark = m.mark) :
    Valid (earlier ++ current) (next NatsMessage.mark c page) := by
  by_cases filled : page = []
  · rw [filled, next_nil]
    exact valid
  · obtain ⟨m, member, cursor⟩ := next_mem NatsMessage.mark c filled
    rw [cursor]
    rintro _ ⟨⟩
    exact known m member

theorem Recorded.inMemory_known (rec_ : Recorded h connID earlier current mem) {inScope : Str → Bool} {m : NatsMessage}
    (member : m ∈ inMemory connID mem inScope) : ∃ r ∈ earlier ++ current, r.mark = m.mark := by
  obtain ⟨r, listed, rfl⟩ := List.mem_map.mp member
  exact ⟨r, List.mem_append_right _ (rec_.part.subset (List.mem_of_mem_filter (List.mem_reverse.mp listed))), rfl⟩

omit [Tables] in
theorem goOn_next (c : Option Mark) (page : List NatsMessage) :
    goOn page.getLast? (cursorTs c) (cursorSeq c) =
      (cursorTs (next NatsMessage.mark c page), cursorSeq (next NatsMessage.mark c page)) := by
  unfold goOn next
  cases page.getLast? <;> rfl

theorem Recorded.ownPage_eq (rec_ : Recorded h connID earlier current mem) (valid : Valid (earlier ++ current) c)
    (past : ∀ r ∈ earlier ++ current, r.timestamp ≤ now) (rt : Runtime) (subject : Str) (n : Nat) :
    ownPage rt h now connID subject n (cursorTs c) (cursorSeq c) =
      ((readOn NatsMessage.mark (inMemory connID mem fun subj => subj = subject)
          (onDisk h connID (earlier ++ current) (RangeScope.subject.covers subject)) c n).1.reverse,
        (readOn NatsMessage.mark (inMemory connID mem fun subj => subj = subject)
          (onDisk h connID (earlier ++ current) (RangeScope.subject.covers subject)) c n).2) := by
  have known (m : NatsMessage) (member : m ∈ (after NatsMessage.mark (inMemory connID mem fun subj => subj = subject) c).take n) :=
    rec_.inMemory_known ((after_sublist _ _ c).subset (List.mem_of_mem_take member))
  have sized := List.length_take (i := n) (l := after NatsMessage.mark (inMemory connID mem fun subj => subj = subject) c)
  simp only [ownPage, rec_.memory_own valid, readOn, List.length_reverse, List.head?_reverse, goOn_next]
  generalize (after NatsMessage.mark (inMemory connID mem fun subj => subj = subject) c).take n = page at known sized ⊢
  split
  · rfl
  · rename_i short
    rw [rec_.disk_page (valid_next valid known) past _ (by omega)]
    simp only [List.reverse_append]

theorem Recorded.belowPage_eq (rec_ : Recorded h connID earlier current mem) (valid : Valid (earlier ++ current) c)
    (past : ∀ r ∈ earlier ++ current, r.timestamp ≤ now) (rt : Runtime) (subject : Str) (n : Nat) :
    belowPage rt h now connID subject n (cursorTs c) (cursorSeq c) =
      readOn NatsMessage.mark (inMemory connID mem (isBelow subject))
        (onDisk h connID (earlier ++ current) (RangeScope.below.covers subject)) c n := by
  have known (m : NatsMessage) (member : m ∈ (after NatsMessage.mark
      (inMemory connID mem (isBelow subject)) c).take n) :=
    rec_.inMemory_known ((after_sublist _ _ c).subset (List.mem_of_mem_take member))
  have sized := List.length_take (i := n) (l := after NatsMessage.mark
    (inMemory connID mem (isBelow subject)) c)
  simp only [belowPage, rec_.memory_below valid, readOn, goOn_next]
  generalize (after NatsMessage.mark (inMemory connID mem (isBelow subject)) c).take n =
    page at known sized ⊢
  split
  · rfl
  · rename_i short
    rw [rec_.disk_page (valid_next valid known) past _ (by omega)]

end Pages
end Handler
end NatsExplorer
