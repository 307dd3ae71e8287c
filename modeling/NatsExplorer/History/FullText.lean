import NatsExplorer.History.Persistence

/-! The indexed search (`internal/history/fts.go`). Every word of the query is a
phrase; the index holds a phrase for a row where its tokens stand one after the
other in one column. What stands there is what the triggers left behind. -/
namespace NatsExplorer.History
open Go

/-- A quoted phrase; the quoting is undone by the query parser. -/
structure Phrase where
  text : Str
  isPrefix : Bool
  deriving DecidableEq

def keepWordChars (r : Char) : Bool :=
  ('a' ≤ r && r ≤ 'z') || ('A' ≤ r && r ≤ 'Z') || ('0' ≤ r && r ≤ '9') || 127 < r.toNat

/-- What a user typed as phrases that must all appear. -/
def ftsQuery [Tables] (q : Str) : List Phrase :=
  (strings.fields q).filterMap fun field =>
    let word := strings.trimSuffix field ['*']
    if strings.trimSpace (word.filter keepWordChars) = [] then none
    else some ⟨word, strings.hasSuffix field ['*']⟩

namespace Phrase

/-- Whether a token of a text is the one asked for; the last one of a prefix
search only begins it. -/
def accepts (p : Phrase) (last : Bool) (asked token : Str) : Bool :=
  if p.isPrefix && last then strings.hasPrefix token asked else token = asked

def begins (p : Phrase) : List Str → List Str → Bool
  | [], _ => true
  | _ :: _, [] => false
  | asked :: more, token :: tokens =>
    p.accepts (more = []) asked token && p.begins more tokens

variable [Tokenizer]

/-- The tokens of the phrase stand in a text; a phrase without tokens stands nowhere. -/
def standsIn (p : Phrase) (text : Str) : Bool :=
  Tokenizer.tokens p.text ≠ [] &&
    (Tokenizer.tokens text).tails.any fun rest => p.begins (Tokenizer.tokens p.text) rest

end Phrase

/-- The row has the words of the phrase in its subject or its textual payload. -/
def Row.contains [Tokenizer] (r : Row) (p : Phrase) : Bool :=
  p.standsIn r.subject || p.standsIn r.body

namespace Index

def tokenAt (ix : Index) (rowid : Nat) (column : Column) (position : Nat) (ok : Str → Bool) : Bool :=
  0 < ix.postings.countP fun x =>
    x.rowid = rowid ∧ x.column = column ∧ x.position = position ∧ ok x.token = true

def stands (ix : Index) (p : Phrase) (rowid : Nat) (column : Column) : List Str → Nat → Bool
  | [], _ => true
  | asked :: more, i =>
    ix.tokenAt rowid column i (p.accepts (more = []) asked) && ix.stands p rowid column more (i + 1)

/-- `MATCH` of one phrase. -/
def holds [Tokenizer] (ix : Index) (rowid : Nat) (p : Phrase) : Bool :=
  Tokenizer.tokens p.text ≠ [] &&
    0 < ix.postings.countP fun x => x.rowid = rowid ∧
      ix.stands p rowid x.column (Tokenizer.tokens p.text) x.position = true

/-- Everything the index says of a row is said by the row itself. -/
def Truthful [Tokenizer] (ix : Index) (r : Row) : Prop :=
  ∀ x ∈ ix.postings, x.rowid = r.id → x ∈ postingsOf r.id r.subject r.body

end Index

section Occurrence
variable [Tokenizer] {ix : Index} {r : Row} {p : Phrase}

/-- The text of a column. -/
def Row.column (r : Row) : Column → Str
  | .subject => r.subject
  | .body => r.body

theorem mem_columnPostings {id : Nat} {column : Column} {text : Str} {x : Posting} :
    x ∈ columnPostings id column text ↔
      x.rowid = id ∧ x.column = column ∧ (Tokenizer.tokens text)[x.position]? = some x.token := by
  obtain ⟨token, column', rowid, position⟩ := x
  simp only [columnPostings, Multiset.mem_coe, List.mem_map, Prod.exists, Posting.mk.injEq,
    List.mem_zipIdx_iff_getElem?]
  constructor
  · rintro ⟨_, _, listed, rfl, rfl, rfl, rfl⟩
    exact ⟨rfl, rfl, listed⟩
  · rintro ⟨rfl, rfl, listed⟩
    exact ⟨_, _, listed, rfl, rfl, rfl, rfl⟩

theorem mem_postingsOf {x : Posting} :
    x ∈ postingsOf r.id r.subject r.body ↔
      x.rowid = r.id ∧ (Tokenizer.tokens (r.column x.column))[x.position]? = some x.token := by
  rw [postingsOf, Multiset.mem_add, mem_columnPostings, mem_columnPostings]
  cases x.column <;> simp [Row.column]

/-- A token of a truthful index stands in the text. -/
theorem tokenAt_text (truthful : ix.Truthful r) {column : Column} {i : Nat} {ok : Str → Bool}
    (found : ix.tokenAt r.id column i ok = true) :
    ∃ token, (Tokenizer.tokens (r.column column))[i]? = some token ∧ ok token = true := by
  simp only [Index.tokenAt, decide_eq_true_eq, Multiset.countP_pos] at found
  obtain ⟨x, member, row, rfl, rfl, accepted⟩ := found
  exact ⟨x.token, (mem_postingsOf.mp (truthful x member row)).2, accepted⟩

theorem stands_begins (truthful : ix.Truthful r) {column : Column} {asked : List Str} {i : Nat}
    (found : ix.stands p r.id column asked i = true) :
    p.begins asked ((Tokenizer.tokens (r.column column)).drop i) = true := by
  induction asked generalizing i with
  | nil => rfl
  | cons word more ih =>
    simp only [Index.stands, Bool.and_eq_true] at found
    obtain ⟨token, here, accepted⟩ := tokenAt_text truthful found.1
    obtain ⟨inside, same⟩ := List.getElem?_eq_some_iff.mp here
    rw [List.drop_eq_getElem_cons inside, Phrase.begins, same, accepted, Bool.true_and]
    exact ih found.2

/-- Where the index tells the truth, what it finds is there. -/
theorem holds_contains (truthful : ix.Truthful r) (found : ix.holds r.id p = true) :
    r.contains p = true := by
  simp only [Index.holds, Bool.and_eq_true, decide_eq_true_eq, Multiset.countP_pos] at found
  obtain ⟨some, x, _, _, here⟩ := found
  have standing : p.standsIn (r.column x.column) = true := by
    rw [Phrase.standsIn, Bool.and_eq_true]
    refine ⟨decide_eq_true some, List.any_eq_true.mpr ⟨_, ?_, stands_begins truthful here⟩⟩
    exact (List.mem_tails _ _).mpr (List.drop_suffix _ _)
  rw [Row.contains, Bool.or_eq_true]
  cases column : x.column with
  | subject => exact Or.inl (by rwa [column] at standing)
  | body => exact Or.inr (by rwa [column] at standing)

end Occurrence

/-- `ORDER BY ts DESC, seq DESC`; rows that agree come in any order. -/
def newerRow (a b : Row) : Bool := b.ts < a.ts || (a.ts = b.ts && b.seq < a.seq)

/-- `m.subject = ? OR m.subject LIKE ? ESCAPE '\'`, which an empty subject leaves out. -/
def withBelow (subject : Str) (r : Row) : Bool :=
  subject = [] || r.subject = subject || like (likePrefix subject ++ ['.', '%']) r.subject

namespace DB
variable [Tokenizer]

def matchRows (rt : Runtime) (d : DB) (phrases : List Phrase) (connID subject : Str)
    (fromTs toTs : Int) (limit : Nat) : List Row :=
  (rt.sortSlice newerRow (d.file.rows.filter fun r =>
    phrases.all (d.file.index.holds r.id) && r.conn = connID && (fromTs ≤ r.ts && r.ts ≤ toTs) &&
      withBelow subject r)).take limit

/-- `searchFTS`; `none` is a query that is not usable. -/
def searchFTS [Tables] (rt : Runtime) (d : DB) (connID subject q : Str) (fromTs toTs : Int)
    (limit : Nat) : Option (List Row) :=
  if ftsQuery q = [] then none
  else some (d.matchRows rt (ftsQuery q) connID subject fromTs toTs limit)

theorem searchFTS_mem [Tables] {rt : Runtime} {d : DB} {connID subject q : Str} {fromTs toTs : Int}
    {limit : Nat} {rows : List Row} {r : Row}
    (found : d.searchFTS rt connID subject q fromTs toTs limit = some rows) (member : r ∈ rows) :
    r ∈ d.file.rows ∧ ∀ p ∈ ftsQuery q, d.file.index.holds r.id p = true := by
  unfold searchFTS at found
  split at found
  · cases found
  · cases found
    obtain ⟨stored, matched⟩ := List.mem_filter.mp (rt.mem_sortSlice.mp (List.mem_of_mem_take member))
    simp only [Bool.and_eq_true, List.all_eq_true] at matched
    exact ⟨stored, matched.1.1.1⟩

end DB
end NatsExplorer.History
