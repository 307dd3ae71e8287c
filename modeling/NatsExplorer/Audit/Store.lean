import NatsExplorer.Go.JsonText
import NatsExplorer.Library.Recent

/-! Who changed what through the API (`internal/audit/audit.go`): the store in memory, and the one that appends lines
to a file and reads them back for each query. -/
namespace NatsExplorer.Audit
open Go

structure Entry where
  time : Int64 := 0
  user : Str := []
  role : Str := []
  ip : Str := []
  method : Str := []
  path : Str := []
  connID : Str := []
  status : Int64 := 0
  summary : Str := []

/-- What a listing is narrowed to; results come newest first. -/
structure Query where
  limit : Int := 0
  user : Str := []
  method : Str := []
  since : Int64 := 0

/-- What the stores have in common. -/
structure Store (S : Type) where
  append : S → Entry → S
  query : S → Query → Except String (List Entry)

section Matching
variable [json.Folding]

/-- `strings.EqualFold` -/
def equalFold (s t : Str) : Bool := json.foldName s = json.foldName t

def Query.Matches (q : Query) (e : Entry) : Bool :=
  if q.user ≠ [] ∧ !equalFold e.user q.user then false
  else if q.method ≠ [] ∧ !equalFold e.method q.method then false
  else q.since = 0 || q.since ≤ e.time

/-- From the newest entry on, until there are as many as the limit allows. -/
def newestLoop (q : Query) : List Entry → List Entry → List Entry
  | [], out => out
  | e :: older, out =>
    if q.Matches e then
      if 0 < q.limit ∧ q.limit ≤ (out ++ [e]).length then out ++ [e] else newestLoop q older (out ++ [e])
    else newestLoop q older out

def newestFirst (entries : List Entry) (q : Query) : List Entry := newestLoop q entries.reverse []

/-- `MemStore`, which keeps the last entries. -/
def memStore (max : ℕ) : Store (List Entry) where
  append entries e :=
    let entries := entries ++ [e]
    if max < entries.length then entries.drop (entries.length - max) else entries
  query entries q := .ok (newestFirst entries q)

end Matching

/-! ### The lines of the file -/

/-- What `json.Marshal` makes of an entry; a connection that is not named is left out. -/
def Entry.value (e : Entry) : json.Value :=
  .object ([("time".toList, .number (json.decimal e.time.toInt)), ("user".toList, .string e.user), ("role".toList, .string e.role),
      ("ip".toList, .string e.ip), ("method".toList, .string e.method), ("path".toList, .string e.path)] ++
    (if e.connID = [] then [] else [("connId".toList, .string e.connID)]) ++
    [("status".toList, .number (json.decimal e.status.toInt)), ("summary".toList, .string e.summary)])

def marshal (e : Entry) : Str := json.print e.value

section Reading
open json.Decoder

def int64 : json.Decoder Int64 := field Int64.toInt (fun _ n => Int64.ofInt n) int

def entryFields : List (String × json.Decoder Entry) := [
  ("time", field Entry.time (fun e t => { e with time := t }) int64),
  ("user", field Entry.user (fun e s => { e with user := s }) string),
  ("role", field Entry.role (fun e s => { e with role := s }) string),
  ("ip", field Entry.ip (fun e s => { e with ip := s }) string),
  ("method", field Entry.method (fun e s => { e with method := s }) string),
  ("path", field Entry.path (fun e s => { e with path := s }) string),
  ("connId", field Entry.connID (fun e s => { e with connID := s }) string),
  ("status", field Entry.status (fun e n => { e with status := n }) int64),
  ("summary", field Entry.summary (fun e s => { e with summary := s }) string)]

variable [json.Folding]

/-- `json.Unmarshal` into an empty entry -/
def unmarshal (line : Str) : Option Entry := (json.parse line).bind ((struct entryFields).into {})

end Reading

/-- What the buffer of the scanner holds, the end of the line included. -/
def maxLine : ℕ := 2 ^ 20

def tooLong : String := "bufio.Scanner: token too long"

/-- The lines in front of one that the buffer cannot hold, and the error at that one. Nothing behind the last end of a line is no line. -/
def scanLines : List Str → List Str × Option String
  | [] => ([], none)
  | line :: rest =>
    if maxLine ≤ byteLen line then ([], some tooLong)
    else if line = [] ∧ rest = [] then ([], none)
    else (strings.trimSuffix line ['\r'] :: (scanLines rest).1, (scanLines rest).2)

variable [json.Folding]

/-- `FileStore`. There is no file before the first entry. -/
def fileStore : Store (Option Str) where
  append file e := some (file.getD [] ++ (marshal e ++ ['\n']))
  query
    | none, _ => .ok []
    | some text, q =>
      match scanLines (text.splitOn '\n') with
      | (lines, none) => .ok (newestFirst (lines.filterMap unmarshal) q)
      | (_, some err) => .error err

/-! ### Runs -/

inductive Call where
  | append (e : Entry)
  | query (q : Query)

/-- What a store answers, call by call. -/
def Store.run {S : Type} (store : Store S) : S → List Call → List (Except String (List Entry))
  | _, [] => []
  | s, .append e :: calls => store.run (store.append s e) calls
  | s, .query q :: calls => store.query s q :: store.run s calls

def Query.cut (q : Query) (l : List Entry) : List Entry := if 0 < q.limit then l.take q.limit.toNat else l

/-- What there is to answer: the matching entries, newest first. -/
def newest (q : Query) (entries : List Entry) : List Entry := q.cut (entries.filter q.Matches).reverse

/-- The right answers where a store shows this part of what was appended. -/
def answers (part : List Entry → List Entry) : List Entry → List Call → List (Except String (List Entry))
  | _, [] => []
  | log, .append e :: calls => answers part (log ++ [e]) calls
  | log, .query q :: calls => .ok (newest q (part log)) :: answers part log calls

/-! ### The entries of a listing -/

section Listing
variable (q : Query)

theorem newestLoop_eq (entries : List Entry) {out : List Entry} (room : 0 < q.limit → out.length < q.limit) :
    newestLoop q entries out = q.cut (out ++ entries.filter q.Matches) := by
  induction entries generalizing out with
  | nil =>
    rw [newestLoop, List.filter_nil, List.append_nil, Query.cut]
    split
    · rename_i limited
      have := room limited
      rw [List.take_of_length_le (by omega)]
    · rfl
  | cons e older ih =>
    rw [newestLoop]
    by_cases matched : q.Matches e = true
    · have grown : out ++ e :: older.filter q.Matches = (out ++ [e]) ++ older.filter q.Matches := List.append_cons ..
      rw [if_pos matched, List.filter_cons_of_pos matched, grown]
      split
      · rename_i full
        obtain ⟨limited, full⟩ := full
        have := room limited
        rw [List.length_append, List.length_singleton] at full
        rw [Query.cut, if_pos limited, List.take_append_of_le_length, List.take_of_length_le]
        all_goals
          rw [List.length_append, List.length_singleton]
          omega
      · rename_i more
        exact ih fun limited => by
          have := fun full => more ⟨limited, full⟩
          omega
    · rw [if_neg matched, List.filter_cons_of_neg matched]
      exact ih room

theorem newestFirst_eq (entries : List Entry) : newestFirst entries q = newest q entries := by
  have start : 0 < q.limit → ((([] : List Entry).length : Int) < q.limit) := fun limited => limited
  rw [newestFirst, newestLoop_eq q entries.reverse start, List.nil_append, List.filter_reverse, newest]

end Listing

/-! ### The store in memory -/

theorem memStore_append (max : ℕ) (log : List Entry) (e : Entry) :
    (memStore max).append (Recent.last max log) e = Recent.last max (log ++ [e]) := by
  have appended : (memStore max).append (Recent.last max log) e = Recent.last max (Recent.last max log ++ [e]) := by
    simp only [memStore]
    split
    · rfl
    · rename_i short
      exact (Recent.last_all (Nat.le_of_not_lt short)).symm
  rw [appended]
  cases max with
  | zero => rw [Recent.last_zero, Recent.last_zero]
  | succ n => rw [Recent.last_append, Recent.last_append, Recent.last_last (Nat.le_succ n)]

theorem memStore_run (max : ℕ) (log : List Entry) (calls : List Call) :
    (memStore max).run (Recent.last max log) calls = answers (Recent.last max) log calls := by
  induction calls generalizing log with
  | nil => rfl
  | cons call calls ih =>
    cases call with
    | append e => rw [Store.run, memStore_append, answers, ih]
    | query q =>
      have answer : (memStore max).query (Recent.last max log) q = .ok (newest q (Recent.last max log)) :=
        congrArg Except.ok (newestFirst_eq q _)
      rw [Store.run, answer, answers, ih]

/-! ### The store in a file -/

section Lines

omit [json.Folding] in
theorem value_fits (e : Entry) : json.Fits json.maxNestingDepth e.value := by
  refine .object ?_
  rw [List.forall_mem_append, List.forall_mem_append]
  refine ⟨⟨?_, ?_⟩, ?_⟩
  · simp only [List.forall_mem_cons]
    exact ⟨.number _, .string _, .string _, .string _, .string _, .string _, nofun⟩
  · split
    · exact nofun
    · exact List.forall_mem_singleton.mpr (.string _)
  · simp only [List.forall_mem_cons]
    exact ⟨.number _, .string _, nofun⟩

omit [json.Folding] in
theorem int64_into (a n : Int64) : int64.into a (.number (json.decimal n.toInt)) = some n := by
  have read := json.parseInt_decimal n.le_toInt n.toInt_lt
  have into : int64.into a (.number (json.decimal n.toInt)) = (json.parseInt (json.decimal n.toInt)).map fun n => Int64.ofInt n := rfl
  rw [into, read, Option.map_some, Int64.ofInt_toInt]

theorem into_time (a : Entry) (t : Int64) :
    json.Decoder.member entryFields a ("time".toList, .number (json.decimal t.toInt)) = some { a with time := t } := by
  change (int64.into a.time (.number (json.decimal t.toInt))).map (fun t => { a with time := t }) = _
  rw [int64_into]
  rfl

theorem into_status (a : Entry) (n : Int64) :
    json.Decoder.member entryFields a ("status".toList, .number (json.decimal n.toInt)) = some { a with status := n } := by
  change (int64.into a.status (.number (json.decimal n.toInt))).map (fun n => { a with status := n }) = _
  rw [int64_into]
  rfl

/-- An entry is filled from its own members. -/
theorem into_value (e : Entry) : (json.Decoder.struct entryFields).into {} e.value = some e := by
  obtain ⟨time, user, role, ip, method, path, connID, status, summary⟩ := e
  have filled (a : Entry) : ((json.Decoder.member entryFields a ("status".toList, .number (json.decimal status.toInt))).bind fun a =>
      json.Decoder.member entryFields a ("summary".toList, .string summary)) = some { a with status := status, summary := summary } := by
    rw [into_status]
    rfl
  let start : Entry := { time := time, user := user, role := role, ip := ip, method := method, path := path }
  unfold Entry.value
  dsimp only
  change (json.Decoder.member entryFields {} ("time".toList, .number (json.decimal time.toInt)) >>= _) = _
  rw [into_time]
  split
  · subst connID
    exact filled start
  · exact filled { start with connID := connID }

theorem unmarshal_marshal (e : Entry) : unmarshal (marshal e) = some e := by
  rw [unmarshal, marshal, json.parse_print (value_fits e), Option.bind_some, into_value]

omit [json.Folding]

/-- The text of the file when these entries were appended. -/
def written (log : List Entry) : Str := log.flatMap fun e => marshal e ++ ['\n']

theorem written_append (log : List Entry) (e : Entry) : written (log ++ [e]) = written log ++ (marshal e ++ ['\n']) := by
  simp [written]

theorem not_in_line {c : Char} (control : c.toNat < 0x20) (e : Entry) : c ∉ marshal e := fun member =>
  absurd ((value_fits e).plain c member) (Nat.not_le_of_lt control)

theorem written_lines (log : List Entry) : (written log).splitOn '\n' = log.map marshal ++ [[]] := by
  induction log with
  | nil => rfl
  | cons e log ih =>
    have apart : ∀ c ∈ marshal e, (c == '\n') = false := fun c member => beq_false_of_ne fun same =>
      not_in_line (by decide) e (same ▸ member)
    have text : written (e :: log) = marshal e ++ '\n' :: written log := by simp [written]
    rw [text, List.splitOn, List.splitOnP_append_cons_of_forall_mem apart _ (by decide), ← List.splitOn, ih]
    rfl

theorem trim_line (e : Entry) : strings.trimSuffix (marshal e) ['\r'] = marshal e := by
  have other : strings.hasSuffix (marshal e) ['\r'] = false :=
    decide_eq_false fun ends => not_in_line (by decide) e (ends.subset List.mem_cons_self)
  rw [strings.trimSuffix, other]
  rfl

theorem marshal_some (e : Entry) : marshal e ≠ [] := List.cons_ne_nil _ _

def Short (e : Entry) : Prop := byteLen (marshal e) < maxLine

/-- Where every line fits, each is found. -/
theorem scan_written {log : List Entry} (short : ∀ e ∈ log, Short e) :
    scanLines (log.map marshal ++ [[]]) = (log.map marshal, none) := by
  induction log with
  | nil => rfl
  | cons e log ih =>
    obtain ⟨fits, short⟩ := List.forall_mem_cons.mp short
    rw [List.map_cons, List.cons_append, scanLines, if_neg (Nat.not_le_of_lt fits), if_neg fun last => marshal_some e last.1, ih short,
      trim_line]

/-- One line that does not fit, and the scanner gives up. -/
theorem scan_long {log : List Entry} {e : Entry} (appended : e ∈ log) (long : ¬ Short e) :
    (scanLines (log.map marshal ++ [[]])).2 = some tooLong := by
  induction log with
  | nil => cases appended
  | cons first log ih =>
    rw [List.map_cons, List.cons_append, scanLines]
    split
    · rfl
    · rename_i fits
      rw [if_neg fun last => marshal_some first last.1]
      rcases List.mem_cons.mp appended with rfl | later
      · exact absurd (Nat.lt_of_not_le fits) long
      · exact ih later

end Lines

variable {file : Option Str} {log : List Entry}

/-- The file has a line for each entry. -/
def Holds (file : Option Str) (log : List Entry) : Prop := file.getD [] = written log

theorem Holds.append (holds : Holds file log) (e : Entry) : Holds (fileStore.append file e) (log ++ [e]) := by
  have grown : Holds (fileStore.append file e) (log ++ [e]) ↔ file.getD [] ++ (marshal e ++ ['\n']) = written (log ++ [e]) := Iff.rfl
  rw [grown, holds, written_append]

theorem read_back (log : List Entry) : (log.map marshal).filterMap unmarshal = log := by
  have back : unmarshal ∘ marshal = some := funext unmarshal_marshal
  rw [List.filterMap_map, back, List.filterMap_some]

/-- Where there is no file yet, nothing was appended. -/
theorem Holds.query_eq (holds : Holds file log) (q : Query) : fileStore.query file q =
    match scanLines (log.map marshal ++ [[]]) with
    | (lines, none) => .ok (newestFirst (lines.filterMap unmarshal) q)
    | (_, some err) => .error err := by
  rw [← written_lines, ← holds]
  cases file <;> rfl

theorem Holds.query (holds : Holds file log) (short : ∀ e ∈ log, Short e) (q : Query) :
    fileStore.query file q = .ok (newest q log) := by
  rw [holds.query_eq, scan_written short]
  dsimp only
  rw [read_back, newestFirst_eq]

/-- An entry too long for the scanner is in front of all that is appended later. -/
theorem Holds.query_long (holds : Holds file log) {e : Entry} (appended : e ∈ log) (long : ¬ Short e) (q : Query) :
    fileStore.query file q = .error tooLong := by
  have stopped := scan_long appended long
  rw [holds.query_eq]
  cases scanned : scanLines (log.map marshal ++ [[]]) with
  | mk lines err =>
    rw [scanned] at stopped
    cases stopped
    rfl

theorem Holds.query_iff (holds : Holds file log) (q : Query) : fileStore.query file q = .ok (newest q log) ↔ ∀ e ∈ log, Short e := by
  refine ⟨fun right e appended => ?_, fun short => holds.query short q⟩
  by_contra long
  rw [holds.query_long appended long] at right
  cases right

/-! ### What the stores answer -/

omit [json.Folding] in
/-- A query is the first call, or one of the others. -/
theorem forall_query {call : Call} {calls : List Call} {P : List Call → Prop} :
    (∀ earlier q later, call :: calls = earlier ++ .query q :: later → P earlier) ↔
      (∀ q, call = .query q → P []) ∧ ∀ earlier q later, calls = earlier ++ .query q :: later → P (call :: earlier) := by
  constructor
  · intro each
    refine ⟨fun q first => each [] q calls (by rw [first]; rfl), fun earlier q later split => ?_⟩
    exact each (call :: earlier) q later (by rw [split]; rfl)
  · rintro ⟨first, others⟩ earlier q later split
    cases earlier with
    | nil => exact first q (List.cons.inj split).1
    | cons call' earlier =>
      obtain ⟨rfl, rest⟩ := List.cons.inj split
      exact others earlier q later rest

/-- The answers are right exactly where each query comes behind lines that fit. -/
theorem Holds.run (holds : Holds file log) (calls : List Call) :
    fileStore.run file calls = answers id log calls ↔
      ∀ earlier q later, calls = earlier ++ .query q :: later → ∀ e, e ∈ log ∨ .append e ∈ earlier → Short e := by
  induction calls generalizing file log with
  | nil => exact ⟨fun _ earlier q later none => absurd none (by simp), fun _ => rfl⟩
  | cons call calls ih =>
    rw [forall_query]
    cases call with
    | append e =>
      rw [Store.run, answers, ih (holds.append e), and_iff_right nofun]
      simp only [List.mem_append, List.mem_cons, List.not_mem_nil, false_or, Call.append.injEq, or_assoc]
    | query q =>
      rw [Store.run, answers, List.cons.injEq, ih holds]
      have answered := holds.query_iff q
      simp only [List.mem_cons, reduceCtorEq, false_or, List.not_mem_nil, or_false]
      refine and_congr_left fun _ => answered.trans ⟨fun short _ _ => short, fun short => short q rfl⟩

/-- The file answers for all that was appended, and the memory for the last of it, exactly where no query comes
behind an entry whose line is too long. -/
theorem stores_agree (max : ℕ) (calls : List Call) :
    (fileStore.run none calls = answers id [] calls ∧ (memStore max).run [] calls = answers (Recent.last max) [] calls) ↔
      ∀ earlier q later, calls = earlier ++ .query q :: later → ∀ e, .append e ∈ earlier → byteLen (marshal e) < maxLine := by
  have memory := memStore_run max [] calls
  rw [Recent.last_nil] at memory
  have start : Holds none [] := rfl
  rw [start.run, and_iff_left memory]
  simp only [List.not_mem_nil, false_or]
  rfl

/-! ### An entry that is too long -/

omit [json.Folding] in
/-- The line of an entry has its path and its summary in it. -/
theorem length_le_marshal (e : Entry) : e.path.length + e.summary.length ≤ byteLen (marshal e) := by
  have path := json.length_le_quote e.path
  have summary := json.length_le_quote e.summary
  have parts := json.sum_le_object _ |>.trans_eq (congrArg byteLen (rfl : _ = marshal e))
  simp only [List.map_append, List.map_cons, List.map_nil, List.sum_append, List.sum_cons, List.sum_nil, json.print] at parts
  omega

/-- What is recorded of a request with a path of 600 kB that no other case of `Summarize` takes up. -/
def longEntry : Entry where
  method := "DELETE".toList
  path := "/api/".toList ++ List.replicate 600000 'a'
  status := 404
  summary := List.replicate 600000 'a'

omit [json.Folding] in
theorem longEntry_hides : let _ : json.Folding := ⟨id⟩
    fileStore.run none [.append longEntry, .query {}] ≠ answers id [] [.append longEntry, .query {}] := by
  intro _ same
  have start : Holds none [] := rfl
  have short := (start.run _).mp same [.append longEntry] {} [] rfl longEntry (Or.inr List.mem_cons_self)
  have long := length_le_marshal longEntry
  have path : longEntry.path.length = 600005 := by
    rw [longEntry, List.length_append, List.length_replicate]
    rfl
  have summary : longEntry.summary.length = 600000 := List.length_replicate
  have limit : byteLen (marshal longEntry) < 1048576 := short
  omega

end NatsExplorer.Audit
