import NatsExplorer.Auth.Tokens
import NatsExplorer.Go.Json

/-! The gate before the API for accounts narrowed to some connections
(`restrict.go`), and the connection the handler behind a route then acts on
(`server.go`, `internal/handler`). The two read the request on their own. -/
namespace NatsExplorer.Restrict
open Go Auth

structure Request where
  method : Str
  /-- `r.URL.Path` below the mount point. -/
  path : Str
  /-- Empty where the path has its default encoding. -/
  rawPath : Str
  query : List (Str × Str)
  body : List UInt8

structure Response where
  status : Nat
  error : String

/-- The name of every connection under its id, live or an imported bundle. -/
structure Store where
  connections : Map Str Str
  virtual : Map Str Str

/-- The name in `GetStatus`. -/
def Store.statusName (s : Store) (connID : Str) : Str :=
  match s.connections.lookup connID with
  | some name => name
  | none => (s.virtual.lookup connID).getD []

def Store.exists (s : Store) (connID : Str) : Bool :=
  (s.connections.lookup connID).isSome || (s.virtual.lookup connID).isSome

def allows (id : Identity) (s : Store) (connID : Str) : Bool :=
  id.allowsConn connID (s.statusName connID)

/-- The first `connId` of the query, or the empty text. -/
def Request.connId (r : Request) : Str :=
  ((r.query.find? fun p => p.1 = "connId".toList).map Prod.snd).getD []

def connectPath : Str := "/api/connect".toList
def disconnectPath : Str := "/api/disconnect".toList
def bodyLimit : Nat := 2 ^ 20

section Gate

/-- The path the gate looks at. -/
def gatePath (basePath : Str) (r : Request) : Str :=
  if 0 < basePath.length ∧ strings.hasPrefix r.path basePath then r.path.drop basePath.length
  else r.path

/-- `^/api/(?:cluster|server|monitoring|connections)/([^/]+)` -/
def connInPath (path : Str) : Option Str :=
  match path.splitOn '/' with
  | [] :: api :: kind :: conn :: _ =>
    if api = "api".toList ∧ conn ≠ [] ∧
        kind ∈ ["cluster", "server", "monitoring", "connections"].map String.toList then some conn
    else none
  | _ => none

variable [json.Recognizer]

/-- The `id` and the `name` in the body of a connect or a disconnect. -/
def gateBody (body : List UInt8) : Option (Str × Str) :=
  match json.unmarshal (body.take bodyLimit) with
  | none => none
  | some v =>
    let id := json.stringField "id".toList v
    let name := json.stringField "name".toList v
    if id.2 && name.2 then some (id.1, name.1) else none

/-- The connections the request names, as far as the gate sees. -/
def named (basePath : Str) (r : Request) : List Str :=
  (if r.connId = [] then [] else [r.connId]) ++ (connInPath (gatePath basePath r)).toList ++
    (if gatePath basePath r = disconnectPath then
      (((gateBody r.body).map Prod.fst).filter (· ≠ [])).toList
    else [])

/-- What `restrictConnections` refuses a request with. -/
def refusal (id : Identity) (basePath : Str) (s : Store) (r : Request) : Option String :=
  let path := gatePath basePath r
  if !id.restricted then none
  else if path = "/api/disconnect-all".toList then
    some "this account may only disconnect its own connections, one at a time"
  else if path = "/api/history".toList ∧ r.method = "DELETE".toList ∧ r.connId = [] then
    some "this account may only clear the history of its own connections: name one"
  else if path = connectPath then
    match gateBody r.body with
    | none => none
    | some (connID, name) =>
      if id.allowsConn connID name then none
      else some ("this account may not open a connection named " ++ String.ofList name)
  else
    ((named basePath r).find? fun c => !allows id s c).map fun c =>
      "this account may not use the connection " ++ String.ofList c

/-- A body the gate has read is passed on as far as it read it. -/
def forwarded (basePath : Str) (r : Request) : Request :=
  if gatePath basePath r = connectPath ∨ gatePath basePath r = disconnectPath then
    { r with body := r.body.take bodyLimit }
  else r

def restrictConnections (id : Identity) (basePath : Str)
    (next : Store → Request → Response × Store) (s : Store) (r : Request) : Response × Store :=
  match refusal id basePath s r with
  | some msg => (⟨403, msg⟩, s)
  | none => next s (if id.restricted then forwarded basePath r else r)

end Gate

section Handlers

inductive Handler where
  | connect
  | disconnect
  | publish
  /-- The connection is a segment of the path. -/
  | inPath (connID : Str)
  /-- The connection is in the query, if anywhere. -/
  | inQuery

/-- The routes with a `{connId}`, always the second segment; `none` is a parameter. -/
def pathRoutes : List (String × List (Option String)) :=
  [("PUT", [some "connections", none, some "subscriptions"]),
    ("GET", [some "connections", none, some "log"]),
    ("GET", [some "cluster", none]),
    ("GET", [some "cluster", none, some "overview"]),
    ("GET", [some "cluster", none, some "topology"]),
    ("POST", [some "cluster", none, some "reload"]),
    ("POST", [some "cluster", none, some "meta-stepdown"]),
    ("GET", [some "server", none]),
    ("GET", [some "monitoring", none, none])]

def fits : List (Option String) → List Str → Bool
  | [], [] => true
  | p :: route, s :: segments => (p.all fun word => s = word.toList) && fits route segments
  | _, _ => false

/-- The router looks at the path as it was sent. -/
def routePath (r : Request) : Str := if r.rawPath = [] then r.path else r.rawPath

def handlerOf (r : Request) : Handler :=
  match (routePath r).splitOn '/' with
  | [] :: api :: segments =>
    let route method (pattern : List (Option String)) : Bool :=
      api = "api".toList && r.method = String.toList method && fits pattern segments
    if route "POST" [some "connect"] then .connect
    else if route "POST" [some "disconnect"] then .disconnect
    else if route "POST" [some "publish"] || route "POST" [some "request"] then .publish
    else if pathRoutes.any fun p => route p.1 p.2 then .inPath (segments.getD 1 [])
    else .inQuery
  | _ => .inQuery

/-- `AdminForWrites` -/
def adminForWrites (id : Identity) (r : Request) : Bool :=
  r.method = "GET".toList || r.method = "HEAD".toList || id.role = .admin

/-- What the other fields of a body need to decode. -/
class Bodies where
  config : json.Value → Bool
  publish : json.Value → Bool

variable [json.Recognizer] [Bodies]

/-- The existing connection that a connect replaces. -/
def replaced (s : Store) (r : Request) : Option Str :=
  match json.decode r.body with
  | none => none
  | some v =>
    let id := json.stringField "id".toList v
    if id.2 && (json.stringField "name".toList v).2 && Bodies.config v && s.exists id.1 then some id.1
    else none

/-- The `connId` in the body of a disconnect, whose decoding is not checked. -/
def disconnected (r : Request) : Str :=
  match json.decode r.body with
  | none => []
  | some v => (json.stringField "connId".toList v).1

/-- The `connId` in the body of a publish or request that is accepted. -/
def published (r : Request) : Option Str :=
  match json.decode r.body with
  | none => none
  | some v =>
    let conn := json.stringField "connId".toList v
    let subject := json.stringField "subject".toList v
    if conn.2 && subject.2 && Bodies.publish v && subject.1 ≠ [] then some conn.1 else none

def given (connID : Str) : Option Str := if connID = [] then none else some connID

/-- The connection the handler behind the route acts on. -/
def target (id : Identity) (s : Store) (r : Request) : Option Str :=
  if !adminForWrites id r then none
  else
    match handlerOf r with
    | .connect => replaced s r
    | .disconnect => given (disconnected r)
    | .publish => (published r).bind fun conn => given (if conn = [] then r.connId else conn)
    | .inPath connID => given connID
    | .inQuery => given r.connId

/-- A connection the request names where only the handler looks: in the body, in a
segment the decoded path does not show, or in the query of what looks like a connect. -/
def hidden (id : Identity) (basePath : Str) (s : Store) (r : Request) : Option Str :=
  if !adminForWrites id r then none
  else
    let query := if gatePath basePath r = connectPath then given r.connId else none
    match handlerOf r with
    | .connect => replaced s r
    | .disconnect => given (disconnected r)
    | .publish => (published r).bind fun conn => if conn = [] then query else some conn
    | .inPath connID =>
      if connInPath (gatePath basePath r) = some connID then none else given connID
    | .inQuery => query

end Handlers

section Passing
variable [json.Recognizer] {id : Identity} {basePath : Str} {s : Store} {r : Request}

omit [json.Recognizer] in
theorem forwarded_same (basePath : Str) (r : Request) :
    gatePath basePath (forwarded basePath r) = gatePath basePath r ∧
      (forwarded basePath r).connId = r.connId := by
  unfold forwarded
  split <;> exact ⟨rfl, rfl⟩

/-- What the gate lets through names no other connection where the gate looks. -/
theorem named_allowed (restricted : id.connections ≠ []) (passed : refusal id basePath s r = none)
    (other : gatePath basePath r ≠ connectPath) {c : Str} (member : c ∈ named basePath r) :
    allows id s c = true := by
  have narrow : id.restricted = true := Identity.restricted_iff.mpr restricted
  simp only [refusal, narrow, Bool.not_true, Bool.false_eq_true, if_false, if_neg other] at passed
  split at passed
  · cases passed
  · split at passed
    · cases passed
    · rw [Option.map_eq_none_iff, List.find?_eq_none] at passed
      simpa using passed c member

theorem connId_allowed (restricted : id.connections ≠ []) (passed : refusal id basePath s r = none)
    (other : gatePath basePath r ≠ connectPath) {c : Str} (query : given r.connId = some c) :
    allows id s c = true := by
  unfold given at query
  split at query
  · cases query
  · rename_i some
    cases query
    refine named_allowed restricted passed other ?_
    rw [named, if_neg some]
    exact List.mem_append_left _ (List.mem_append_left _ (List.mem_singleton_self _))

theorem inPath_allowed (restricted : id.connections ≠ []) (passed : refusal id basePath s r = none)
    {c : Str} (segment : connInPath (gatePath basePath r) = some c) : allows id s c = true := by
  have other : gatePath basePath r ≠ connectPath := by
    intro same
    have none : connInPath connectPath = none := by decide
    rw [same, none] at segment
    cases segment
  refine named_allowed restricted passed other ?_
  rw [named, segment]
  exact List.mem_append_left _ (List.mem_append_right _ (List.mem_singleton_self _))

end Passing

variable [json.Recognizer] [Bodies] {id : Identity} {basePath : Str} {s : Store} {r : Request}

/-- What only the handler sees is what it acts on. -/
theorem target_of_hidden {c : Str} (found : hidden id basePath s r = some c) :
    target id s r = some c := by
  unfold hidden at found
  unfold target
  split at found
  · cases found
  · rename_i reached
    rw [if_neg reached]
    have query {shown : Prop} [Decidable shown] (found : (if shown then given r.connId else none) = some c) :
        given r.connId = some c := by
      split at found
      · exact found
      · cases found
    cases handler : handlerOf r with
    | connect => simpa only [handler] using found
    | disconnect => simpa only [handler] using found
    | publish =>
      simp only [handler] at found ⊢
      cases body : published r with
      | none =>
        rw [body] at found
        cases found
      | some conn =>
        simp only [body, Option.bind_some] at found ⊢
        split at found
        · rename_i empty
          rw [if_pos empty]
          exact query found
        · rename_i given'
          rw [if_neg given', given, if_neg given']
          exact found
    | inPath connID =>
      simp only [handler] at found ⊢
      split at found
      · cases found
      · exact found
    | inQuery =>
      simp only [handler] at found ⊢
      exact query found

/-- What the handler acts on is hidden or has passed the gate. -/
theorem hidden_or_allowed (restricted : id.connections ≠ []) (passed : refusal id basePath s r = none)
    {c : Str} (acts : target id s (forwarded basePath r) = some c) :
    hidden id basePath s (forwarded basePath r) = some c ∨ allows id s c = true := by
  obtain ⟨path, connId⟩ := forwarded_same basePath r
  generalize forwarded basePath r = sent at acts path connId ⊢
  have query (acts : given sent.connId = some c) :
      (if gatePath basePath sent = connectPath then given sent.connId else none) = some c ∨
        allows id s c = true := by
    split
    · exact Or.inl acts
    · rename_i other
      rw [path] at other
      rw [connId] at acts
      exact Or.inr (connId_allowed restricted passed other acts)
  unfold target at acts
  unfold hidden
  split at acts
  · cases acts
  · rename_i reached
    rw [if_neg reached]
    cases handler : handlerOf sent with
    | connect =>
      simp only [handler] at acts ⊢
      exact Or.inl acts
    | disconnect =>
      simp only [handler] at acts ⊢
      exact Or.inl acts
    | publish =>
      simp only [handler] at acts ⊢
      cases body : published sent with
      | none =>
        rw [body] at acts
        cases acts
      | some conn =>
        simp only [body, Option.bind_some] at acts ⊢
        by_cases empty : conn = []
        · rw [if_pos empty] at acts ⊢
          exact query acts
        · rw [if_neg empty, given, if_neg empty] at acts
          rw [if_neg empty]
          exact Or.inl acts
    | inPath connID =>
      simp only [handler] at acts ⊢
      split
      · rename_i seen
        have same : connID = c := by
          unfold given at acts
          split at acts
          · cases acts
          · exact Option.some.inj acts
        rw [path, same] at seen
        exact Or.inr (inPath_allowed restricted passed seen)
      · exact Or.inl acts
    | inQuery =>
      simp only [handler] at acts ⊢
      exact query acts

end NatsExplorer.Restrict

namespace NatsExplorer.Restrict
open Go Auth

/-- `{"connId":"p"}` -/
def sampleBody : List UInt8 := [123, 34, 99, 111, 110, 110, 73, 100, 34, 58, 34, 112, 34, 125]

@[reducible] def sampleRecognizer : json.Recognizer where
  value text :=
    if text = sampleBody then some (.object [("connId".toList, .string ['p'])], []) else none
  foldName key := key.map asciiLower

@[reducible] def sampleBodies : Bodies := ⟨fun _ => true, fun _ => true⟩

/-- An admin of the connections that start with an `l`. -/
def sampleIdentity : Identity where
  name := ['m']
  role := .admin
  connections := [['l', '*']]

def sampleStore : Store where
  connections := ((∅ : Map Str Str).insert ['p'] ['p', 'r', 'o', 'd']).insert ['l'] ['l', 'a', 'b']
  virtual := ∅

def sampleRequest (method path : String) (body : List UInt8) : Request where
  method := method.toList
  path := path.toList
  rawPath := []
  query := []
  body := body

end NatsExplorer.Restrict
