import NatsExplorer.History.FullText
import NatsExplorer.History.MemQuery
import NatsExplorer.Library.Descending

/-! The pages the database answers with (`internal/history/sqlite.go`): the newest rows
of a scope in a time range and before a cursor, and the search, which asks the word
index for its first page and scans for the others. -/
namespace NatsExplorer
open Go

/-- What the database keeps of a record. -/
def Record.stored (r : Record) : Record := { r with reply := [], hash := 0 }

/-- A row has no column for the reply. -/
theorem Record.stored_wire_iff [Tables] (r : Record) (connID : Str) : r.stored.wire connID = r.wire connID ↔ r.reply = [] := by
  constructor
  · exact fun same => (congrArg NatsMessage.reply same).symm
  · intro none
    unfold Record.wire
    rw [none]
    rfl

namespace History

/-- What a page covers: one subject, one subject and everything under it, or only what
is under it. -/
inductive RangeScope where
  | subject
  | withBelow
  | below
  deriving DecidableEq

def RangeScope.covers (subject : Str) : RangeScope → Str → Bool
  | .subject, subj => subj = subject
  | .withBelow, subj => subj = subject || like (likePrefix subject ++ ['.', '%']) subj
  | .below, subj => like (likePrefix subject ++ ['.', '%']) subj

def between (fromTs toTs ts : Int) : Bool := fromTs ≤ ts && ts ≤ toTs

/-- `ts < ? OR (ts = ? AND seq < ?)`, which a page without a cursor leaves out. -/
def beforeCursor (beforeTs : Int) (beforeSeq : Nat) (r : Record) : Bool :=
  !(0 < beforeTs) || r.timestamp < beforeTs || (r.timestamp = beforeTs && r.sequence < beforeSeq)

/-- `q` in the subject or in the payload, as the scan looks for it; the kind of a row is
`binary` where its payload is no text. -/
def scanMatches [Tables] (q : Str) (r : Record) : Bool :=
  let needle := ['%'] ++ likePrefix (strings.toLower q) ++ ['%']
  q = [] || like needle (r.subject.map asciiLower) ||
    match r.data with
    | .text runes => like needle (runes.map asciiLower)
    | .binary _ => false

namespace DB

/-- `SELECT … ORDER BY ts DESC, seq DESC LIMIT ?` -/
def select (rt : Runtime) (d : DB) (connID : Str) (wanted : Record → Bool) (limit : Nat) : List Record :=
  ((rt.sortSlice newerRow (d.file.rows.filter fun r => r.conn = connID && wanted r.record)).take limit).map Row.record

variable [Tables]

def rangePage (rt : Runtime) (d : DB) (connID subject : Str) (scope : RangeScope) (fromTs toTs beforeTs : Int)
    (beforeSeq limit : Nat) : List NatsMessage :=
  (d.select rt connID (fun r =>
    between fromTs toTs r.timestamp && beforeCursor beforeTs beforeSeq r && scope.covers subject r.subject) limit).map
      fun r => r.wire connID

/-- How many messages a time range holds; an empty subject counts all of them. -/
def countRange (d : DB) (connID subject : Str) (branch : Bool) (fromTs toTs : Int) : Nat :=
  (d.file.rows.filter fun r => r.conn = connID && between fromTs toTs r.ts &&
    (subject = [] || (if branch then RangeScope.withBelow else .subject).covers subject r.subject)).length

def scanPage (rt : Runtime) (d : DB) (connID subject q : Str) (fromTs toTs beforeTs : Int)
    (beforeSeq limit : Nat) : List NatsMessage :=
  (d.select rt connID (fun r =>
    between fromTs toTs r.timestamp && beforeCursor beforeTs beforeSeq r &&
      (subject = [] || RangeScope.withBelow.covers subject r.subject) && scanMatches q r) limit).map
        fun r => r.wire connID

/-- The index has no cursor of its own, so a paged search scans. -/
def searchPage [Tokenizer] (rt : Runtime) (d : DB) (connID subject q : Str) (fromTs toTs beforeTs : Int)
    (beforeSeq limit : Nat) : List NatsMessage :=
  let scan := d.scanPage rt connID subject q fromTs toTs beforeTs beforeSeq limit
  if d.fullText && beforeTs = 0 && strings.trimSpace q ≠ [] then
    match d.searchFTS rt connID subject q fromTs toTs limit with
    | none => scan
    | some [] => scan
    | some rows => rows.map fun r => r.record.wire connID
  else scan

end DB

theorem newerRow_iff {a b : Row} : newerRow a b = true ↔ b.record.mark < a.record.mark := by
  simp only [newerRow, Record.mark, Row.record, Prod.Lex.toLex_lt_toLex, Bool.or_eq_true, Bool.and_eq_true,
    decide_eq_true_eq, @eq_comm _ b.ts a.ts]

theorem newerRow_eq_false {a b : Row} : newerRow a b = false ↔ a.record.mark ≤ b.record.mark := by
  rw [← Bool.not_eq_true, newerRow_iff, not_lt]

theorem newerRow_weak : StrictWeak newerRow where
  asymm _ _ first := newerRow_eq_false.mpr (newerRow_iff.mp first).le
  trans _ _ _ first second := newerRow_eq_false.mpr ((newerRow_eq_false.mp first).trans (newerRow_eq_false.mp second))

namespace DB
variable {d : DB} {connID : Str} {all : List Record} {rt : Runtime}

/-- The database has every message of a connection. -/
def Keeps (d : DB) (connID : Str) (all : List Record) : Prop :=
  ((d.file.rows.filter fun r => r.conn = connID).map Row.record).Perm (all.map Record.stored)

/-- The rows a selection orders. -/
theorem Keeps.rows_perm (keeps : d.Keeps connID all) (rt : Runtime) (wanted : Record → Bool) :
    ((rt.sortSlice newerRow (d.file.rows.filter fun r => r.conn = connID && wanted r.record)).map Row.record).Perm
      ((all.filter fun r => wanted r.stored).map Record.stored) := by
  refine ((rt.sortSlice_perm newerRow _).map _).trans ?_
  have both := keeps.filter wanted
  rw [List.filter_map, List.filter_map, List.filter_filter] at both
  simpa only [Function.comp_def, Bool.and_comm] using both

/-- A page is the newest of what is asked for. -/
theorem Keeps.select_eq (keeps : d.Keeps connID all) (distinct : all.Pairwise fun a b => a.mark < b.mark)
    (wanted : Record → Bool) (limit : Nat) :
    d.select rt connID wanted limit =
      ((all.filter fun r => wanted r.stored).reverse.take limit).map Record.stored := by
  have desc : Paging.Descending Record.mark (((all.filter fun r => wanted r.stored).map Record.stored).reverse) := by
    refine List.pairwise_reverse.mpr (List.pairwise_map.mpr ?_)
    exact distinct.sublist List.filter_sublist
  have rows : (((rt.sortSlice newerRow (d.file.rows.filter fun r => r.conn = connID && wanted r.record)).map Row.record).Pairwise
      fun a b => b.mark ≤ a.mark) := by
    refine List.pairwise_map.mpr ((rt.sortSlice_sorted _ newerRow_weak).imp newerRow_eq_false.mp)
  have perm := (List.reverse_perm _).trans (keeps.rows_perm rt wanted).symm
  rw [select, List.map_take, ← desc.eq_of_perm rows perm, List.map_take, List.map_reverse]

/-- Without a limit in the way it is all of it. -/
theorem Keeps.select_perm (keeps : d.Keeps connID all) {limit : Nat} (enough : all.length ≤ limit) (rt : Runtime)
    (wanted : Record → Bool) :
    (d.select rt connID wanted limit).Perm ((all.filter fun r => wanted r.stored).map Record.stored) := by
  have perm := keeps.rows_perm rt wanted
  have few := perm.length_eq
  rw [List.length_map, List.length_map] at few
  rw [select, List.take_of_length_le (few.trans_le ((List.length_filter_le ..).trans enough))]
  exact perm

end DB
end History
end NatsExplorer
