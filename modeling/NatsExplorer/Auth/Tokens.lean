import NatsExplorer.Go.PathMatch
import NatsExplorer.Go.Text

/-! Who a request comes from and which connections it may see
(`internal/auth/auth.go`). -/
namespace NatsExplorer.Auth
open Go

inductive Role where
  | viewer
  | admin
  deriving DecidableEq, Repr

structure Identity where
  name : Str
  role : Role
  /-- Patterns of ids and names; empty is every connection. -/
  connections : List Str
  deriving DecidableEq, Repr

namespace Identity

def allowsConn (id : Identity) (connID name : Str) : Bool :=
  if id.connections.length = 0 then true
  else id.connections.any fun p =>
    path.Match p connID || (name ≠ [] && path.Match p name)

def restricted (id : Identity) : Bool := 0 < id.connections.length

theorem restricted_iff {id : Identity} : id.restricted = true ↔ id.connections ≠ [] := by
  simp only [restricted, decide_eq_true_eq, List.length_pos_iff]

theorem allowsConn_unrestricted {id : Identity} (all : id.connections = []) (connID name : Str) :
    id.allowsConn connID name = true := by
  simp only [allowsConn, all, List.length_nil, if_true]

theorem allowsConn_iff {id : Identity} (some : id.connections ≠ []) (connID name : Str) :
    id.allowsConn connID name = true ↔
      ∃ p ∈ id.connections, path.Match p connID = true ∨ (name ≠ [] ∧ path.Match p name = true) := by
  have length : id.connections.length ≠ 0 := mt List.length_eq_zero_iff.mp some
  simp [allowsConn, length]

/-- A connection without a name is judged by its id alone. -/
theorem allowsConn_unnamed {id : Identity} (some : id.connections ≠ []) (connID : Str) :
    id.allowsConn connID [] = true ↔ ∃ p ∈ id.connections, path.Match p connID = true := by
  simp [allowsConn_iff some]

/-- No list of patterns allows every connection. -/
theorem exists_refused {id : Identity} (some : id.connections ≠ []) :
    ∃ connID, id.allowsConn connID [] = false := by
  obtain ⟨connID, unmatched⟩ := path.exists_unmatched id.connections
  refine ⟨connID, ?_⟩
  by_contra allowed
  obtain ⟨p, member, matched⟩ := (allowsConn_unnamed some connID).mp (Bool.of_not_eq_false allowed)
  rw [unmatched p member] at matched
  cases matched

end Identity

variable [Tables]

/-- A comma-separated list of connection patterns. -/
def splitPatterns (s : Str) : List Str :=
  ((s.splitOn ',').map strings.trimSpace).filter (· ≠ [])

end NatsExplorer.Auth

/-! Personal tokens (`internal/auth/tokens.go`): made by an admin, kept as a hash,
and looked up by it when a request carries one. -/
namespace NatsExplorer.Auth
open Go

structure Token where
  id : Str
  name : Str
  role : Role
  connections : List Str
  created : Int
  lastUsed : Int
  hash : Str
  deriving DecidableEq, Repr

/-- What decides the mode, and whether there is a store. -/
structure Service where
  users : Bool
  oidc : Bool
  token : Bool
  store : Bool
  tokens : List Token

def tokenPrefix : Str := ['n', 'e', '_']

/-- The random part of a token and of its id, in hex, and the time. -/
structure Draw where
  plain : Str
  id : Str
  now : Int

def Token.identity (t : Token) : Identity where
  name := "token:".toList ++ t.name
  role := t.role
  connections := t.connections

inductive TokenError where
  | noAuth
  | noStore
  | noName
  | role (given : Str)
  deriving DecidableEq

/-- What `POST /tokens` answers when it refuses. -/
structure Refusal where
  status : Nat
  error : String
  deriving DecidableEq

def TokenError.text : TokenError → String
  | noAuth => "no authentication is configured, so there is nothing a token would stand in for: " ++
      "set AUTH_TOKEN or AUTH_USERS"
  | noStore => "personal tokens need a server with STORAGE_DIR, where they survive a restart"
  | noName => "a token needs a name"
  | role given => "role \"" ++ String.ofList given ++ "\" is not admin or viewer"

def TokenError.status : TokenError → Nat
  | noAuth | noStore => 409
  | _ => 400

def parseRole (given : Str) : Option Role :=
  if given = "viewer".toList then some .viewer
  else if given = "admin".toList then some .admin
  else none

namespace Service

def mode (s : Service) : String :=
  if s.users then "users" else if s.oidc then "oidc" else if s.token then "token" else "none"

variable [Tables] (hashToken : Str → Str)

/-- The token, in the clear and as it is kept. -/
def createToken (s : Service) (draw : Draw) (name role : Str) (connections : List Str) :
    Except TokenError (Str × Token × Service) :=
  let name := strings.trimSpace name
  if s.mode = "none" then .error .noAuth
  else if s.store = false then .error .noStore
  else if name = [] then .error .noName
  else
    match parseRole role with
    | none => .error (.role role)
    | some role =>
      let plain := tokenPrefix ++ draw.plain
      let t : Token := {
        id := draw.id
        name := name
        role := role
        connections := splitPatterns (List.intercalate [','] connections)
        created := draw.now
        lastUsed := 0
        hash := hashToken plain }
      .ok (plain, { t with hash := [] }, { s with tokens := s.tokens ++ [t] })

end Service

/-- The decoded body of `POST /tokens`. -/
structure TokenBody where
  name : Str
  role : Str
  connections : List Str

namespace Service
variable [Tables] (hashToken : Str → Str)

/-- The connections a token of this maker is asked for. -/
def asked (maker : Identity) (body : TokenBody) : List Str :=
  if maker.restricted ∧ body.connections.length = 0 then maker.connections else body.connections

/-- `POST /tokens`; a body that does not decode is `none`. -/
def postTokens (s : Service) (draw : Draw) (maker : Identity) (body : Option TokenBody) :
    Except Refusal (Str × Token × Service) :=
  if maker.role ≠ .admin then .error ⟨403, "tokens are managed by an admin"⟩
  else
    match body with
    | none => .error ⟨400, "invalid JSON body"⟩
    | some body =>
      let role := if body.role = [] then "viewer".toList else body.role
      match s.createToken hashToken draw body.name role (asked maker body) with
      | .error e => .error ⟨e.status, e.text⟩
      | .ok made => .ok made

/-- The identity a bearer value stands for. -/
def lookupToken (s : Service) (plain : Str) : Option Identity :=
  if strings.hasPrefix plain tokenPrefix then
    (s.tokens.find? fun t => t.hash = hashToken plain).map Token.identity
  else none

variable {hashToken} {s s' : Service} {draw : Draw} {maker : Identity} {body : TokenBody}
  {plain : Str} {t : Token}

theorem postTokens_ok (made : s.postTokens hashToken draw maker (some body) = .ok (plain, t, s')) :
    t.connections = splitPatterns (List.intercalate [','] (asked maker body)) ∧
      plain = tokenPrefix ++ draw.plain ∧
      s'.tokens = s.tokens ++ [{ t with hash := hashToken plain }] := by
  simp only [postTokens, createToken] at made
  split at made
  · cases made
  · split at made
    · cases made
    · rename_i made'
      cases made
      split at made'
      · cases made'
      · split at made'
        · cases made'
        · split at made'
          · cases made'
          · split at made'
            · cases made'
            · cases made'
              exact ⟨rfl, rfl, rfl⟩

/-- Where no other token shares its hash, the token stands for its own record. -/
theorem lookupToken_new (made : s.postTokens hashToken draw maker (some body) = .ok (plain, t, s'))
    (fresh : ∀ old ∈ s.tokens, old.hash ≠ hashToken plain) :
    s'.lookupToken hashToken plain = some t.identity := by
  obtain ⟨_, rfl, tokens⟩ := postTokens_ok made
  have starts : strings.hasPrefix (tokenPrefix ++ draw.plain) tokenPrefix = true :=
    decide_eq_true (List.prefix_append _ _)
  have older : s.tokens.find? (fun t => t.hash = hashToken (tokenPrefix ++ draw.plain)) = none :=
    List.find?_eq_none.mpr fun old member => by simpa using fresh old member
  simp only [lookupToken, starts, if_true, tokens, List.find?_append, older]
  rw [Option.none_or, List.find?_cons_of_pos]
  · rfl
  · exact decide_eq_true rfl

/-- The patterns the token ends up with, all within what the maker's match. -/
def Narrows (maker : Identity) (body : TokenBody) : Prop :=
  maker.connections = [] ∨
    (splitPatterns (List.intercalate [','] (asked maker body)) ≠ [] ∧
      ∀ p ∈ splitPatterns (List.intercalate [','] (asked maker body)), ∀ text,
        path.Match p text = true → ∃ q ∈ maker.connections, path.Match q text = true)

/-- A token sees no more than its maker where the maker is not narrowed, or where
the patterns asked for are not all blank and stay within the maker's. -/
theorem token_narrower_iff
    (made : s.postTokens hashToken draw maker (some body) = .ok (plain, t, s')) :
    (∀ connID name, t.identity.allowsConn connID name = true →
      maker.allowsConn connID name = true) ↔ Narrows maker body := by
  obtain ⟨patterns, _, _⟩ := postTokens_ok made
  rw [Narrows, ← patterns]
  constructor
  · intro narrower
    by_cases all : maker.connections = []
    · exact Or.inl all
    · right
      have some : t.connections ≠ [] := by
        intro none
        obtain ⟨connID, refused⟩ := Identity.exists_refused all
        have allowed := narrower connID [] (Identity.allowsConn_unrestricted none connID [])
        rw [refused] at allowed
        cases allowed
      refine ⟨some, fun p member text matched => ?_⟩
      have allowed : t.identity.allowsConn text [] = true :=
        (Identity.allowsConn_unnamed some text).mpr ⟨p, member, matched⟩
      exact (Identity.allowsConn_unnamed all text).mp (narrower text [] allowed)
  · rintro (all | ⟨some, within⟩) connID name allowed
    · exact Identity.allowsConn_unrestricted all connID name
    · obtain ⟨p, member, matched⟩ := (Identity.allowsConn_iff some connID name).mp allowed
      have covers {text : Str} (matched : path.Match p text = true) :
          ∃ q ∈ maker.connections, path.Match q text = true := within p member text matched
      have narrowed : maker.connections ≠ [] := by
        rcases matched with matched | ⟨_, matched⟩
        · obtain ⟨q, member, _⟩ := covers matched
          exact List.ne_nil_of_mem member
        · obtain ⟨q, member, _⟩ := covers matched
          exact List.ne_nil_of_mem member
      rw [Identity.allowsConn_iff narrowed]
      rcases matched with matched | ⟨named, matched⟩
      · obtain ⟨q, member, matched⟩ := covers matched
        exact ⟨q, member, Or.inl matched⟩
      · obtain ⟨q, member, matched⟩ := covers matched
        exact ⟨q, member, Or.inr ⟨named, matched⟩⟩

/-- The default keeps a maker's patterns, as the users file and the tokens spell them. -/
theorem default_narrows (none : body.connections = [])
    (trimmed : ∀ p ∈ maker.connections, ',' ∉ p ∧ strings.trimSpace p = p ∧ p ≠ []) :
    Narrows maker body := by
  by_cases all : maker.connections = []
  · exact Or.inl all
  · have asks : asked maker body = maker.connections := by
      simp only [asked, none, List.length_nil, Identity.restricted_iff.mpr all, and_self, if_true]
    have same : splitPatterns (List.intercalate [','] (asked maker body)) = maker.connections := by
      rw [asks, splitPatterns, List.splitOn_intercalate ',' (fun p member => (trimmed p member).1) all]
      rw [List.map_congr_left (fun p member => (trimmed p member).2.1), List.map_id']
      exact List.filter_eq_self.mpr fun p member => decide_eq_true (trimmed p member).2.2
    refine Or.inr ?_
    rw [same]
    exact ⟨all, fun p member text matched => ⟨p, member, matched⟩⟩

end Service

namespace Service

/-- An admin of the connections that start with an `a`. -/
def sampleMaker : Identity where
  name := ['m']
  role := .admin
  connections := [['a', '*']]

def sampleService : Service where
  users := true
  oidc := false
  token := false
  store := true
  tokens := []

theorem token_narrower_default : ∃ (t : Token), t.connections = [['a', '*']] ∧
    ∀ connID name, t.identity.allowsConn connID name = true →
      sampleMaker.allowsConn connID name = true := by
  let _ := asciiTables
  have made : ∃ plain t s', sampleService.postTokens id ⟨['1'], ['2'], 3⟩ sampleMaker
      (some ⟨['t'], [], []⟩) = .ok (plain, t, s') ∧ t.connections = [['a', '*']] :=
    ⟨_, _, _, rfl, by decide⟩
  obtain ⟨plain, t, s', made, patterns⟩ := made
  refine ⟨t, patterns, (token_narrower_iff made).mpr (default_narrows rfl ?_)⟩
  decide

/-- A blank entry is not empty when the default is chosen and is dropped when the
patterns are split. -/
theorem token_wider : ¬ ∀ (_ : Tables) (hashToken : Str → Str) (s : Service) (draw : Draw)
    (maker : Identity) (body : TokenBody) (plain : Str) (t : Token) (s' : Service),
    s.postTokens hashToken draw maker (some body) = .ok (plain, t, s') →
      ∀ connID name, t.identity.allowsConn connID name = true →
        maker.allowsConn connID name = true := by
  intro claim
  have wider := claim asciiTables id sampleService ⟨['1'], ['2'], 3⟩ sampleMaker
    ⟨['t'], [], [[' ']]⟩ _ _ _ rfl ['b'] [] (by decide)
  exact absurd wider (by decide)

end Service
end NatsExplorer.Auth
