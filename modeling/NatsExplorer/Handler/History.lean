import NatsExplorer.History.Queries

/-! What the browser asks of the history (`internal/handler/history.go`): the lists of
a subject and of what is below it, a time range, and the search. A page is read from
memory and goes on in the database where memory ends. -/
namespace NatsExplorer.Handler
open Go History

def defaultSubjectLimit : Nat := 500
def maxSubjectLimit : Nat := 5000
def defaultBranchLimit : Nat := 200
def maxBranchLimit : Nat := 2000
def defaultRangeLimit : Nat := 1000
def maxRangeLimit : Nat := 10000
def defaultSearchLimit : Nat := 200
def maxSearchLimit : Nat := 2000

structure HistoryHandler where
  history : MemStore
  db : Option DB

/-- What `writeError` sends. -/
structure Error where
  status : Nat
  message : Str
  deriving DecidableEq, Repr

/-- `n` is the number of the parameter, if it is one. -/
def limitParam (n : Option Int) (default max : Nat) : Nat :=
  match n with
  | none => default
  | some n => if n ≤ 0 then default else if (max : Int) < n then max else n.toNat

/-- How many messages to read when a filter has to run over them first. -/
def scanLimit (limit : Nat) (prg : Option Filter.Program) (max : Nat) : Nat :=
  match prg with
  | none => limit
  | some _ => if limit * 20 < max then limit * 20 else max

def timeRange (fromTs toTs now : Int) : Option (Int × Int) :=
  if fromTs = 0 ∧ toTs = 0 then none else some (fromTs, if toTs = 0 then now else toTs)

def older (a b : NatsMessage) : Bool :=
  if a.timestamp ≠ b.timestamp then a.timestamp < b.timestamp else a.sequence < b.sequence

/-- The connection of the request, or all the caller may see. -/
def connIDs (visible : List Str) (connID : Str) : List Str := if connID ≠ [] then [connID] else visible

/-- Keeps the messages before the cursor; a zero timestamp is none. -/
def olderThan (msgs : List NatsMessage) (ts : Int) (seq : Nat) : List NatsMessage :=
  if ts = 0 then msgs
  else msgs.filter fun m => m.timestamp < ts || (m.timestamp = ts && m.sequence < seq)

/-- Filters an oldest-first list and keeps the last matches. -/
def keepNewest (prg : Filter.Program) (msgs : List NatsMessage) (limit : Nat) : List NatsMessage :=
  let out := msgs.filter prg.onMessage
  if 0 < limit ∧ limit < out.length then out.drop (out.length - limit) else out

/-- What a request keeps of the subject's own list. -/
def keepOwn (prg : Option Filter.Program) (msgs : List NatsMessage) (limit : Nat) : List NatsMessage :=
  match prg with
  | some prg => keepNewest prg msgs limit
  | none => msgs

section Expr
variable [Tables] [Filter.Compiler]

def exprParam (expr : Str) : Except Error (Option Filter.Program) :=
  let expr := strings.trimSpace expr
  if expr = [] then .ok none
  else
    match Filter.Compiler.compile expr with
    | .ok prg => .ok (some prg)
    | .error err => .error ⟨400, err⟩

end Expr

section Get
variable [Tables]

/-- Continues a backward page in the database. It reads one row more than it returns,
and that row says whether there is more. -/
def olderOnDisk (rt : Runtime) (db : Option DB) (now : Int) (connID subject : Str) (scope : RangeScope)
    (ts : Int) (seq limit : Nat) : List NatsMessage × Bool :=
  match db with
  | none => ([], false)
  | some db =>
    if limit = 0 then ([], false)
    else
      let toTs := if ts = 0 then now else ts
      let msgs := db.rangePage rt connID subject scope 0 toTs ts seq (limit + 1)
      if limit < msgs.length then (msgs.take limit, true) else (msgs, false)

structure GetQuery where
  subject : Str
  connID : Str
  expr : Str
  limit : Option Int
  branchLimit : Option Int
  /-- `branchLimit` is the text `0`. -/
  noBranch : Bool
  before : Nat
  branchBefore : Nat
  beforeTs : Int
  branchBeforeTs : Int

structure HistoryResponse where
  subject : Str
  /-- Oldest first. -/
  messages : List NatsMessage
  /-- Newest first. -/
  branch : List NatsMessage
  branchMore : Bool
  more : Bool
  deriving DecidableEq, Repr

/-- Where the database goes on: at the oldest message of a page, or at its cursor. -/
def goOn (oldest : Option NatsMessage) (ts : Int) (seq : Nat) : Int × Nat :=
  match oldest with
  | some m => (m.timestamp, m.sequence)
  | none => (ts, seq)

/-- The list of one connection on the subject itself, before the filter. -/
def ownPage (rt : Runtime) (h : HistoryHandler) (now : Int) (id subject : Str) (scan : Nat) (beforeTs : Int)
    (before : Nat) : List NatsMessage × Bool :=
  let msgs := olderThan (h.history.subject id subject scan before) beforeTs before
  if msgs.length = scan then (msgs, true)
  else
    let at_ := goOn msgs.head? beforeTs before
    let (older, more) := olderOnDisk rt h.db now id subject .subject at_.1 at_.2 (scan - msgs.length)
    (older.reverse ++ msgs, more)

/-- The list of one connection below the subject, before the filter. -/
def belowPage (rt : Runtime) (h : HistoryHandler) (now : Int) (id subject : Str) (scan : Nat) (beforeTs : Int)
    (before : Nat) : List NatsMessage × Bool :=
  let below := olderThan (h.history.branch rt id subject scan before) beforeTs before
  if below.length = scan then (below, true)
  else
    let at_ := goOn below.getLast? beforeTs before
    let (older, more) := olderOnDisk rt h.db now id subject .below at_.1 at_.2 (scan - below.length)
    (below ++ older, more)

/-- What one connection adds to the answer. -/
def getOne (rt : Runtime) (h : HistoryHandler) (now : Int) (q : GetQuery) (prg : Option Filter.Program)
    (limit branchLimit : Nat) (resp : HistoryResponse) (id : Str) : HistoryResponse :=
  let (msgs, more) := ownPage rt h now id q.subject (scanLimit limit prg maxSubjectLimit) q.beforeTs q.before
  let resp := { resp with more := resp.more || more, messages := resp.messages ++ keepOwn prg msgs limit }
  if 0 < branchLimit then
    let (below, more) := belowPage rt h now id q.subject (scanLimit branchLimit prg maxBranchLimit)
      q.branchBeforeTs q.branchBefore
    { resp with
      branchMore := resp.branchMore || more
      branch := resp.branch ++ Filter.keep prg below branchLimit }
  else resp

/-- The lists of several connections, by time and cut back. -/
def mergeResponse (limit branchLimit : Nat) (resp : HistoryResponse) : HistoryResponse :=
  let messages := Runtime.insertion older resp.messages
  let branch := Runtime.insertion (fun a b => older b a) resp.branch
  { resp with
    messages := if limit < messages.length then messages.drop (messages.length - limit) else messages
    more := resp.more || limit < messages.length
    branch := if branchLimit < branch.length then branch.take branchLimit else branch
    branchMore := resp.branchMore || branchLimit < branch.length }

variable [Filter.Compiler]

def get (rt : Runtime) (h : HistoryHandler) (now : Int) (visible : List Str) (q : GetQuery) :
    Except Error HistoryResponse := do
  if q.subject = [] then throw ⟨400, "subject is required".toList⟩
  let limit := limitParam q.limit defaultSubjectLimit maxSubjectLimit
  let branchLimit := if q.noBranch then 0 else limitParam q.branchLimit defaultBranchLimit maxBranchLimit
  let prg ← exprParam q.expr
  let ids := connIDs visible q.connID
  let resp := ids.foldl (getOne rt h now q prg limit branchLimit) ⟨q.subject, [], [], false, false⟩
  pure (if 1 < ids.length then mergeResponse limit branchLimit resp else resp)

end Get

section Range
variable [Tables] [Filter.Compiler]

structure RangeQuery where
  subject : Str
  connID : Str
  expr : Str
  fromTs : Int
  toTs : Int
  limit : Option Int
  branch : Bool
  beforeTs : Int
  beforeSeq : Nat
  count : Bool

structure RangeResponse where
  subject : Str
  fromTs : Int
  toTs : Int
  /-- Newest first. -/
  messages : List NatsMessage
  more : Bool
  expr : Str
  total : Option Nat
  deriving DecidableEq, Repr

/-- The pages of several connections, by time and cut back. -/
def mergePages (ids : List Str) (limit : Nat) (out : List NatsMessage) (more : Bool) : List NatsMessage × Bool :=
  if 1 < ids.length then
    let out := Runtime.insertion (fun a b => older b a) out
    if limit < out.length then (out.take limit, true) else (out, more)
  else (out, more)

/-- A full page means there are at least that many rows: filtering may hide them, but
there is more to fetch. -/
def takePage (prg : Option Filter.Program) (limit scan : Nat) (out : List NatsMessage × Bool)
    (msgs : List NatsMessage) : List NatsMessage × Bool :=
  (out.1 ++ Filter.keep prg msgs limit, out.2 || msgs.length = scan)

def range (rt : Runtime) (h : HistoryHandler) (now : Int) (visible : List Str) (q : RangeQuery) :
    Except Error RangeResponse :=
  match h.db with
  | none => .error ⟨404, "the persistent history is switched off".toList⟩
  | some db => do
    let some (fromTs, toTs) := timeRange q.fromTs q.toTs now
      | throw ⟨400, "subject and from/to are required".toList⟩
    if q.subject = [] then throw ⟨400, "subject and from/to are required".toList⟩
    let limit := limitParam q.limit defaultRangeLimit maxRangeLimit
    let prg ← exprParam q.expr
    let scope := if q.branch then RangeScope.withBelow else .subject
    let ids := connIDs visible q.connID
    let scan := scanLimit limit prg (maxRangeLimit * 10)
    let pages := ids.map fun id => db.rangePage rt id q.subject scope fromTs toTs q.beforeTs q.beforeSeq scan
    let (out, more) := pages.foldl (takePage prg limit scan) ([], false)
    let (out, more) := mergePages ids limit out more
    let total := if q.count ∧ prg.isNone then
        some (ids.map fun id => db.countRange id q.subject q.branch fromTs toTs).sum
      else none
    pure ⟨q.subject, fromTs, toTs, out, more, q.expr, total⟩

end Range

section Search
variable [Tables] [Filter.Compiler] [Tokenizer]

structure SearchQuery where
  subject : Str
  q : Str
  connID : Str
  expr : Str
  fromTs : Int
  toTs : Int
  limit : Option Int
  beforeTs : Int
  beforeSeq : Nat

structure SearchResponse where
  subject : Str
  q : Str
  expr : Str
  /-- Newest first. -/
  messages : List NatsMessage
  more : Bool
  deriving DecidableEq, Repr

/-- Where the database is there a search without a range goes to it too. -/
def searchOne (rt : Runtime) (h : HistoryHandler) (now : Int) (q : SearchQuery) (scan : Nat) (id : Str) :
    List NatsMessage :=
  match h.db with
  | none => h.history.search rt id q.subject q.q scan q.beforeSeq
  | some db =>
    let (fromTs, toTs) := (timeRange q.fromTs q.toTs now).getD (0, now)
    db.searchPage rt id q.subject q.q fromTs toTs q.beforeTs q.beforeSeq scan

def search (rt : Runtime) (h : HistoryHandler) (now : Int) (visible : List Str) (q : SearchQuery) :
    Except Error SearchResponse := do
  let limit := limitParam q.limit defaultSearchLimit maxSearchLimit
  let prg ← exprParam q.expr
  let ids := connIDs visible q.connID
  let scan := scanLimit limit prg (maxSearchLimit * 5)
  let (out, more) := (ids.map (searchOne rt h now q scan)).foldl (takePage prg limit scan) ([], false)
  let (out, more) := mergePages ids limit out more
  pure ⟨q.subject, q.q, q.expr, out, more⟩

end Search
end NatsExplorer.Handler
