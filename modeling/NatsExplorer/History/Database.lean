import NatsExplorer.History.Like
import NatsExplorer.Message
import Mathlib.Algebra.BigOperators.Group.Multiset.Basic
import Mathlib.Data.List.Nodup

/-! The database file and its word index (`internal/history/sqlite.go`, `fts.go`,
`clear.go`): the table of messages, the two triggers that tell the index what is
inserted and deleted, and the flag that says whether the index is asked. The index
is what FTS5 keeps, the ids it was given and where every token of them stands. -/
namespace NatsExplorer.History
open Go

/-- `unicode61` -/
class Tokenizer where
  tokens : Str → List Str

structure Row where
  id : Nat
  conn : Str
  subject : Str
  ts : Int
  seq : Nat
  kind : Kind
  data : Data
  headers : Option Header
  deriving DecidableEq

namespace Row

/-- `CASE WHEN kind = 'binary' THEN '' ELSE CAST(data AS TEXT) END` -/
def body (r : Row) : Str :=
  match r.kind, r.data with
  | .binary, _ => []
  | _, .text runes => runes
  | _, .binary _ => []

/-- The row `insert` makes of a record. -/
def ofRecord [Tables] (id : Nat) (conn : Str) (rec : Record) : Row where
  id := id
  conn := conn
  subject := rec.subject
  ts := rec.timestamp
  seq := rec.sequence
  kind := rec.kind
  data := rec.data
  headers := if 0 < rec.header.length then some rec.header else none

/-- The record `scan` makes of a row; the reply is not stored. -/
def record (r : Row) : Record where
  subject := r.subject
  data := r.data
  header := r.headers.getD []
  timestamp := r.ts
  sequence := r.seq

end Row

inductive Column where
  | subject
  | body
  deriving DecidableEq

structure Posting where
  token : Str
  column : Column
  rowid : Nat
  position : Nat
  deriving DecidableEq

structure Index where
  rowids : List Nat
  postings : Multiset Posting

section Index
variable [Tokenizer]

def columnPostings (id : Nat) (column : Column) (text : Str) : Multiset Posting :=
  ((Tokenizer.tokens text).zipIdx.map fun (token, i) => Posting.mk token column id i : List Posting)

def postingsOf (id : Nat) (subject body : Str) : Multiset Posting :=
  columnPostings id .subject subject + columnPostings id .body body

namespace Index

def empty : Index := ⟨[], 0⟩

def insert (ix : Index) (id : Nat) (subject body : Str) : Index where
  rowids := ix.rowids ++ [id]
  postings := ix.postings + postingsOf id subject body

/-- The `'delete'` command takes away the tokens of the values it is given. -/
def delete (ix : Index) (id : Nat) (subject body : Str) : Index where
  rowids := ix.rowids.filter (· ≠ id)
  postings := ix.postings - postingsOf id subject body

def rebuild (rows : List Row) : Index where
  rowids := rows.map Row.id
  postings := (rows.map fun r => postingsOf r.id r.subject r.body).sum

end Index

theorem rowid_of_mem {p : Posting} {id : Nat} {subject body : Str}
    (member : p ∈ postingsOf id subject body) : p.rowid = id := by
  simp only [postingsOf, columnPostings, Multiset.mem_add, Multiset.mem_coe, List.mem_map] at member
  rcases member with ⟨_, _, rfl⟩ | ⟨_, _, rfl⟩ <;> rfl

end Index

/-- What is on disk between two runs. -/
structure File where
  /-- `PRAGMA user_version` -/
  version : Nat
  rows : List Row
  /-- `messages_ai` and `messages_ad`, which come and go together. -/
  triggers : Bool
  index : Index
  ids : (rows.map Row.id).Nodup

def ftsSchemaVersion : Nat := 2

namespace File

def fresh : File where
  version := 0
  rows := []
  triggers := false
  index := .empty
  ids := List.nodup_nil

section Schema
variable [Tokenizer]

/-- Creates the index and, on an existing database, fills it once. -/
def ensureFTS (f : File) : File :=
  if f.version < ftsSchemaVersion then
    { f with
      version := ftsSchemaVersion
      triggers := true
      index := if 0 < f.rows.length then .rebuild f.rows else .empty }
  else { f with triggers := true }

end Schema

/-- An `INTEGER PRIMARY KEY` without `AUTOINCREMENT`. -/
def nextId (f : File) : Nat := (f.rows.map Row.id).foldr max 0 + 1

theorem id_lt_nextId {f : File} {r : Row} (member : r ∈ f.rows) : r.id < f.nextId := by
  have below {ids : List Nat} {id : Nat} (member : id ∈ ids) : id ≤ ids.foldr max 0 := by
    induction ids with
    | nil => cases member
    | cons first ids ih =>
      rcases List.mem_cons.mp member with rfl | member
      · exact le_max_left ..
      · exact (ih member).trans (le_max_right ..)
  exact Nat.lt_succ_of_le (below (List.mem_map_of_mem member))

section Writes
variable [Tokenizer]

def insertRow [Tables] (f : File) (entry : Str × Record) : File :=
  let r := Row.ofRecord f.nextId entry.1 entry.2
  { f with
    rows := f.rows ++ [r]
    index := if f.triggers then f.index.insert r.id r.subject r.body else f.index
    ids := by
      rw [List.map_append, List.nodup_append]
      refine ⟨f.ids, List.nodup_singleton _, ?_⟩
      rintro id old _ new rfl
      obtain ⟨r', member, same⟩ := List.mem_map.mp old
      rw [List.map_singleton, List.mem_singleton] at new
      exact absurd (same.trans new) (id_lt_nextId member).ne }

/-- The transaction of a batch. -/
def insert [Tables] (f : File) (batch : List (Str × Record)) : File := batch.foldl insertRow f

/-- `DELETE FROM messages WHERE …`; the trigger passes no payload on. -/
def deleteWhere (f : File) (gone : Row → Bool) : File where
  version := f.version
  rows := f.rows.filter fun r => !gone r
  triggers := f.triggers
  index :=
    if f.triggers then
      (f.rows.filter gone).foldl (fun ix r => ix.delete r.id r.subject []) f.index
    else f.index
  ids := f.ids.sublist (List.filter_sublist.map _)

/-- What is older than the retention. -/
def expire (f : File) (before : Int) : File := f.deleteWhere fun r => r.ts < before

def olderRow (a b : Row) : Bool := a.ts < b.ts || (a.ts = b.ts && a.id < b.id)

/-- One round of trimming: the oldest rows. -/
def trim (f : File) (count : Nat) : File :=
  let oldest := (Runtime.insertion olderRow f.rows).take count
  f.deleteWhere fun r => r.id ∈ oldest.map Row.id

/-- An empty id means every connection. -/
def deleteConnection (f : File) (connID : Str) : File :=
  f.deleteWhere fun r => connID = [] || r.conn = connID

def deleteSubject (f : File) (connID subject : Str) (branch : Bool) : File :=
  f.deleteWhere fun r => r.conn = connID &&
    (r.subject = subject || (branch && like (likePrefix subject ++ ['.', '%']) r.subject))

end Writes
end File

/-- An open database. -/
structure DB where
  file : File
  fullText : Bool

namespace DB
variable [Tokenizer]

def openDB (f : File) : DB where
  file := f.ensureFTS
  fullText := true

def setFullText (d : DB) (on : Bool) : DB :=
  if d.fullText = on then d
  else
    { file := { d.file with
        triggers := on
        index := if on then .rebuild d.file.rows else .empty }
      fullText := on }

theorem setFullText_fullText (d : DB) (on : Bool) : (d.setFullText on).fullText = on := by
  unfold setFullText
  split
  · assumption
  · rfl

end DB
end NatsExplorer.History
