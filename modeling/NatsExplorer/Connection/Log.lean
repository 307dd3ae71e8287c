import NatsExplorer.Connection.Saved
import NatsExplorer.Go.Url

/-! A connection's log (`internal/connection/log.go`): what is kept of it, and what is printed.
The texts are what nats.go and the servers say, beside the explorer's own words. -/
namespace NatsExplorer.Connection
open Go Go.strings

def logSize : Nat := 200

structure Event where
  happened : Int
  link : Str
  kind : Str
  server : Str
  cid : Nat
  detail : Str
  deriving DecidableEq

/-- A connection's `eventLog`, and the lines of the process about it. -/
structure Log where
  events : List Event := []
  printed : List Str := []
  deriving DecidableEq

/-- `eventLog.add` -/
def Log.add (l : Log) (e : Event) : Log :=
  { l with events := (if l.events.length = logSize then l.events.tail else l.events) ++ [e] }

def decimal (n : Nat) : Str := Nat.toDigits 10 n

def Event.line (name : Str) (e : Event) : Str :=
  "connection ".toList ++ name ++ " [".toList ++ e.link ++ "] ".toList ++ e.kind
    ++ (if e.server ≠ [] then ' ' :: e.server else [])
    ++ (if e.cid ≠ 0 then " cid ".toList ++ decimal e.cid else [])
    ++ (if e.detail ≠ [] then ": ".toList ++ e.detail else [])

/-- `record`, of an event with its time -/
def record (l : Log) (name : Str) (e : Event) : Log :=
  { l.add e with printed := l.printed ++ [e.line name] }

section
variable [Tables]

section
variable [url.Hosts]

/-- `url.Parse` reads a password in it. -/
def hasPassword (raw : Str) : Bool :=
  (url.Parse raw).any fun u => u.user.any (·.password.isSome)

def redactURL (raw : Str) : Str :=
  match url.Parse raw with
  | some u => if u.user.any (·.password.isSome) then u.redacted else raw
  | none => raw

def redactURLs (servers : List Str) : List Str := servers.map redactURL

end

/-- The stretch `scrubSecrets` takes for the password of a server URL; nothing where it is empty. -/
def passOf (raw : Str) : Option Str :=
  (index raw "://".toList).bind fun i => (lastIndex raw "@".toList).bind fun last =>
    if i < last then
      let user := (raw.take last).drop (i + 3)
      ((index user ":".toList).map fun c => user.drop (c + 1)).filter (· ≠ [])
    else none

def masked : Str := "xxxxx".toList

def scrubSecrets (text : Str) (servers : List Str) : Str :=
  servers.foldl (fun text raw => (passOf raw).elim text fun pass => replaceAll text pass masked) text

/-- What is written down: a connect that failed (`Store.Connect`), what befell a link (`eventAt`),
and what the server says of a drop (`explainDrop`). `server` is nats.go's `ConnectedUrlRedacted`. -/
inductive Happening (T : Type) where
  | failed (happened : Int) (error : T)
  | event (happened : Int) (link kind : Str) (server : T) (cid : Nat) (detail : T)
  | reason (happened : Int) (link : Str) (server : T) (cid : Nat) (detail : T)

variable [url.Hosts]

def logged (cfg : Config) (l : Log) : Happening Str → Log
  | .failed happened error =>
    let detail := List.intercalate ", ".toList (redactURLs cfg.servers) ++ ": ".toList ++ error
    record l cfg.name ⟨happened, "api".toList, "failed".toList, [], 0, scrubSecrets detail cfg.servers⟩
  | .event happened link kind server cid detail =>
    record l cfg.name ⟨happened, link, kind, server, cid, scrubSecrets detail cfg.servers⟩
  | .reason happened link server cid detail =>
    record l cfg.name ⟨happened, link, "reason".toList, server, cid, detail⟩

/-- A connection's log, from the request that opens it. -/
def connectionLog (generated : Str) (given : Config) (l : Log) (happenings : List (Happening Str)) : Log :=
  let cfg := given.withDefaults generated
  happenings.foldl (logged { cfg with servers := normalizeServers cfg.servers }) l

end

end NatsExplorer.Connection

/-! Two runs of one connection that differ in the secrets of its server URLs alone: their logs are
the same where `scrubSecrets` takes from each URL its password, and reads it, at its turn, only
where the password is quoted. It takes no token, none of a list's later passwords, and a password
only as it is written in the URL; and a connection nobody named goes by its first URL. -/
namespace NatsExplorer.Connection
open Go Go.strings Masking

/-! ### Where the secrets stand -/

/-- The secrets, as they are written in the URLs. -/
abbrev Secrets := Nat → Str

inductive Login where
  | nobody
  | token (k : Nat)
  | password (name : Str) (k : Nat)

/-- `tail` is what follows the `@`, the host first. -/
structure ServerURL where
  scheme : Str
  login : Login
  tail : Str
  proper : url.isScheme scheme = true

/-- A server of a configuration: a URL, and those behind it after a comma each. -/
structure Entry where
  first : ServerURL
  more : List ServerURL

def Login.parts (s : Secrets) : Login → List (Masking.Part Char)
  | .nobody => []
  | .token k => [.secret (s k), .plain "@".toList]
  | .password name k => [.plain (name ++ ":".toList), .secret (s k), .plain "@".toList]

def ServerURL.parts (s : Secrets) (u : ServerURL) : List (Masking.Part Char) :=
  .plain (u.scheme ++ "://".toList) :: u.login.parts s ++ [.plain u.tail]

def Entry.parts (s : Secrets) (e : Entry) : List (Masking.Part Char) :=
  e.first.parts s ++ e.more.flatMap fun u => .plain ",".toList :: u.parts s

def Entry.raw (s : Secrets) (e : Entry) : Str := text (e.parts s)

/-- A word of what is said: `quote` gives a secret as its speaker writes it (as it stands in the
URL, decoded, or encoded again). -/
inductive Word where
  | text (t : Str)
  | quote (how : Str → Str) (k : Nat)

def Word.part (s : Secrets) : Word → Masking.Part Char
  | .text t => .plain t
  | .quote how k => .secret (how (s k))

def said (s : Secrets) (ws : List Word) : List (Masking.Part Char) := ws.map (Word.part s)

def Happening.under (s : Secrets) : Happening (List Word) → Happening Str
  | .failed happened error => .failed happened (text (said s error))
  | .event happened link kind server cid detail => .event happened link kind (text (said s server)) cid (text (said s detail))
  | .reason happened link server cid detail => .reason happened link (text (said s server)) cid (text (said s detail))

/-- A configuration but for its secrets. -/
structure Setup where
  generated : Str
  given : Config
  servers : List Entry

def Setup.config (c : Setup) (s : Secrets) : Config := { c.given with servers := c.servers.map (Entry.raw s) }

section
variable [Tables] [url.Hosts]

def Setup.log (c : Setup) (s : Secrets) (l : Log) (happenings : List (Happening (List Word))) : Log :=
  connectionLog c.generated (c.config s) l (happenings.map (Happening.under s))

/-! ### When they stay out of the log -/

/-- What follows the first `@`, where only the first URL has a user. -/
def Entry.tail (e : Entry) : Str :=
  e.first.tail ++ e.more.flatMap fun u => ",".toList ++ (u.scheme ++ "://".toList ++ u.tail)

/-- The first URL has a user and a password, and none behind it has. -/
structure Entry.Single (e : Entry) (s : Secrets) (user : Str) (k : Nat) : Prop where
  login : e.first.login = .password user k
  only : ∀ u ∈ e.more, u.login = .nobody
  plain : url.Plain user
  colon : ':' ∉ user
  secret : url.Plain (s k)
  tail : '@' ∉ e.tail

/-- `redactURLs` takes the secrets out, or leaves a URL as it is written. -/
def Entry.Shows (e : Entry) (s : Secrets) : Prop :=
  if hasPassword (e.raw s) then Masking.Plain (e.parts s) ∨ ∃ name k, e.Single s name k
  else redactURL (covered masked (e.parts s)) = covered masked (e.parts s)

def Entry.shown (s : Secrets) (e : Entry) : List (Masking.Part Char) :=
  if hasPassword (e.raw s) then [.plain (redactURL (e.raw s))] else e.parts s

/-- What `scrubSecrets` takes out, in its order. -/
def Setup.picks (c : Setup) (s : Secrets) : List Str := (c.servers.map (Entry.raw s)).filterMap passOf

def Setup.failure (c : Setup) (s : Secrets) (error : List Word) : List (Masking.Part Char) :=
  List.intercalate [.plain ", ".toList] (c.servers.map (Entry.shown s)) ++ .plain ": ".toList :: said s error

def Setup.Keeps (c : Setup) (s : Secrets) : Happening (List Word) → Prop
  | .failed _ error => (∀ e ∈ c.servers, e.Shows s) ∧ Hides masked (c.picks s) (c.failure s error)
  | .event _ _ _ server _ detail => Masking.Plain (said s server) ∧ Hides masked (c.picks s) (said s detail)
  | .reason _ _ server _ detail => Masking.Plain (said s server) ∧ Masking.Plain (said s detail)

structure Setup.Discreet (c : Setup) (s : Secrets) (happenings : List (Happening (List Word))) : Prop where
  /-- The servers are as the configuration holds them. -/
  held : ∀ e ∈ c.servers, trimSpace (e.raw s) = e.raw s
  /-- The connection has a name, or one without a secret. -/
  named : c.given.name ≠ [] ∨ ∀ e, c.servers.head? = some e → Masking.Plain (e.parts s)
  keeps : ∀ h ∈ happenings, c.Keeps s h

/-! ### The log with the secrets masked -/

omit [Tables] [url.Hosts] in
theorem Word.hide_part (s s' : Secrets) (w : Word) : hide masked (w.part s) = hide masked (w.part s') := by
  cases w with
  | text t => rfl
  | quote how k => rfl

omit [Tables] [url.Hosts] in
theorem said_masked (s s' : Secrets) (ws : List Word) : covered masked (said s ws) = covered masked (said s' ws) := by
  rw [covered, covered, said, said, List.map_map, List.map_map]
  exact congrArg text (List.map_congr_left fun w _ => w.hide_part s s')

omit [Tables] [url.Hosts] in
theorem ServerURL.parts_masked (s s' : Secrets) (u : ServerURL) :
    (u.parts s).map (hide masked) = (u.parts s').map (hide masked) := by
  unfold ServerURL.parts
  cases u.login with
  | nobody => rfl
  | token k => rfl
  | password name k => rfl

omit [Tables] [url.Hosts] in
theorem Entry.parts_masked (s s' : Secrets) (e : Entry) : covered masked (e.parts s) = covered masked (e.parts s') := by
  unfold covered Entry.parts
  rw [List.map_append, List.map_append, List.map_flatMap, List.map_flatMap, e.first.parts_masked s s']
  congr 2
  refine List.flatMap_congr fun u _ => ?_
  rw [List.map_cons, List.map_cons, u.parts_masked s s']

omit [Tables] [url.Hosts] in
theorem Entry.Single.parts_eq {e : Entry} {s : Secrets} {name : Str} {k : Nat} (single : e.Single s name k) :
    e.parts s = [.plain (e.first.scheme ++ "://".toList), .plain (name ++ ":".toList), .secret (s k), .plain "@".toList,
      .plain e.first.tail] ++ e.more.flatMap fun u =>
        [.plain ",".toList, .plain (u.scheme ++ "://".toList), .plain u.tail] := by
  rw [Entry.parts, ServerURL.parts, single.login]
  refine congrArg₂ (· ++ ·) rfl (List.flatMap_congr fun u member => ?_)
  rw [ServerURL.parts, single.only u member]
  rfl

omit [Tables] [url.Hosts] in
theorem Entry.text_eq (e : Entry) (name : Str) (secret : Masking.Part Char) :
    text ([.plain (e.first.scheme ++ "://".toList), .plain (name ++ ":".toList), secret, .plain "@".toList,
      .plain e.first.tail] ++ e.more.flatMap fun u =>
        [.plain ",".toList, .plain (u.scheme ++ "://".toList), .plain u.tail]) =
      url.login e.first.scheme name secret.text e.tail := by
  have rest : text (e.more.flatMap fun u => [.plain ",".toList, .plain (u.scheme ++ "://".toList), .plain u.tail]) =
      e.more.flatMap fun u => ",".toList ++ (u.scheme ++ "://".toList ++ u.tail) := by
    rw [text, List.flatMap_assoc]
    refine List.flatMap_congr fun u _ => ?_
    simp [Masking.Part.text]
  rw [text_append, rest, url.login, Entry.tail]
  simp [Masking.Part.text]

omit [Tables] [url.Hosts] in
theorem Entry.Single.raw_eq {e : Entry} {s : Secrets} {name : Str} {k : Nat} (single : e.Single s name k) :
    e.raw s = url.login e.first.scheme name (s k) e.tail := by
  rw [Entry.raw, single.parts_eq, e.text_eq]
  rfl

omit [Tables] [url.Hosts] in
theorem Entry.Single.masked_eq {e : Entry} {s : Secrets} {name : Str} {k : Nat} (single : e.Single s name k) :
    covered masked (e.parts s) = url.login e.first.scheme name masked e.tail := by
  have written := e.text_eq name (.plain masked)
  rw [covered, single.parts_eq, List.map_append, List.map_flatMap]
  exact written

omit [Tables] [url.Hosts] in
theorem plain_masked : url.Plain masked where
  slash := by decide
  query := by decide
  fragment := by decide

theorem Entry.Single.redacted {e : Entry} {s : Secrets} {name : Str} {k : Nat} (single : e.Single s name k)
    (has : hasPassword (e.raw s) = true) : redactURL (e.raw s) = redactURL (covered masked (e.parts s)) := by
  rw [single.masked_eq, redactURL, redactURL]
  rw [hasPassword] at has
  cases read : url.Parse (e.raw s) with
  | none =>
    rw [read] at has
    exact absurd has Bool.false_ne_true
  | some u =>
    rw [read] at has
    have accepted : url.acceptedPassword masked = true := by decide
    rw [single.raw_eq] at read
    obtain ⟨v, read', user, same⟩ := url.redacted_login e.first.proper single.plain single.secret single.colon
      single.tail plain_masked accepted read
    have has' : v.user.any (·.password.isSome) = true := by
      rw [user]
      rfl
    simp only [read', has', if_true, same]
    exact if_pos has

theorem redactURL_without {raw : Str} (without : ¬ hasPassword raw = true) : redactURL raw = raw := by
  rw [redactURL]
  cases read : url.Parse raw with
  | none => rfl
  | some u =>
    refine if_neg fun has => without ?_
    rw [hasPassword, read]
    exact has

theorem Entry.shown_raw (e : Entry) (s : Secrets) : text (e.shown s) = redactURL (e.raw s) := by
  rw [Entry.shown]
  split_ifs with has
  · exact List.append_nil _
  · exact (redactURL_without has).symm

theorem Entry.Shows.shown_masked {e : Entry} {s : Secrets} (shows_ : e.Shows s) :
    covered masked (e.shown s) = redactURL (covered masked (e.parts s)) := by
  rw [Entry.Shows] at shows_
  rw [Entry.shown]
  split_ifs at shows_ ⊢ with has
  · have written : covered masked [.plain (redactURL (e.raw s))] = redactURL (e.raw s) := List.append_nil _
    rw [written]
    rcases shows_ with plain | ⟨name, k, single⟩
    · rw [covered_plain masked plain, Entry.raw]
    · exact single.redacted has
  · exact shows_.symm

omit [Tables] [url.Hosts] in
theorem passOf_some {raw pass : Str} (found : passOf raw = some pass) : pass ≠ [] := by
  obtain ⟨i, _, found⟩ := Option.bind_eq_some_iff.mp found
  obtain ⟨last, _, found⟩ := Option.bind_eq_some_iff.mp found
  split_ifs at found
  exact of_decide_eq_true (Option.filter_eq_some_iff.mp found).2

omit [Tables] [url.Hosts] in
theorem scrub_picks (t : Str) (servers : List Str) :
    scrubSecrets t servers = (servers.filterMap passOf).foldl (fun t p => Masking.replaceAll p masked t) t := by
  unfold scrubSecrets
  induction servers generalizing t with
  | nil => rfl
  | cons raw servers ih =>
    rw [List.foldl_cons, ih]
    cases found : passOf raw with
    | none => rw [List.filterMap_cons_none found, Option.elim_none]
    | some pass =>
      rw [List.filterMap_cons_some found, List.foldl_cons, Option.elim_some, strings.replaceAll,
        if_neg (passOf_some found)]

omit [Tables] [url.Hosts] in
theorem scrub_hides {servers : List Str} {ps : List (Masking.Part Char)} (hides : Hides masked (servers.filterMap passOf) ps) :
    scrubSecrets (text ps) servers = covered masked ps := by
  rw [scrub_picks, hides.replaced]

variable {c : Setup} {s : Secrets}

theorem Setup.failure_text (error : List Word) :
    text (c.failure s error) =
      List.intercalate ", ".toList (redactURLs (c.servers.map (Entry.raw s))) ++ ": ".toList ++ text (said s error) := by
  rw [Setup.failure, text_append, text_intercalate, List.map_map, redactURLs, List.map_map, List.append_assoc]
  refine congrArg₂ (· ++ ·) (congrArg _ (List.map_congr_left fun e _ => ?_)) rfl
  exact e.shown_raw s

theorem Setup.failure_masked (error : List Word) (shows_ : ∀ e ∈ c.servers, e.Shows s) :
    covered masked (c.failure s error) =
      List.intercalate ", ".toList (c.servers.map fun e => redactURL (covered masked (e.parts s))) ++ ": ".toList
        ++ covered masked (said s error) := by
  rw [Setup.failure, covered_append, covered_intercalate, List.map_map, List.append_assoc]
  refine congrArg₂ (· ++ ·) (congrArg _ (List.map_congr_left fun e member => ?_)) rfl
  exact (shows_ e member).shown_masked

/-- What is written down, with the mask for every secret. -/
def Setup.masks (c : Setup) (s : Secrets) (name : Str) (l : Log) : Happening (List Word) → Log
  | .failed happened error =>
    record l name ⟨happened, "api".toList, "failed".toList, [], 0,
      List.intercalate ", ".toList (c.servers.map fun e => redactURL (covered masked (e.parts s))) ++ ": ".toList
        ++ covered masked (said s error)⟩
  | .event happened link kind server cid detail =>
    record l name ⟨happened, link, kind, covered masked (said s server), cid, covered masked (said s detail)⟩
  | .reason happened link server cid detail =>
    record l name ⟨happened, link, "reason".toList, covered masked (said s server), cid, covered masked (said s detail)⟩

theorem Setup.masks_same (s' : Secrets) (name : Str) (l : Log) (h : Happening (List Word)) :
    c.masks s name l h = c.masks s' name l h := by
  cases h with
  | failed happened error =>
    have servers : (c.servers.map fun e => redactURL (covered masked (e.parts s))) =
        c.servers.map fun e => redactURL (covered masked (e.parts s')) :=
      List.map_congr_left fun e _ => congrArg redactURL (e.parts_masked s s')
    rw [Setup.masks, Setup.masks, servers, said_masked s s']
  | event happened link kind server cid detail =>
    rw [Setup.masks, Setup.masks, said_masked s s' server, said_masked s s' detail]
  | reason happened link server cid detail =>
    rw [Setup.masks, Setup.masks, said_masked s s' server, said_masked s s' detail]

/-- One happening is written down with its secrets masked. -/
theorem logged_masked {cfg : Config} (servers : cfg.servers = c.servers.map (Entry.raw s)) (l : Log)
    {h : Happening (List Word)} (keeps : c.Keeps s h) : logged cfg l (h.under s) = c.masks s cfg.name l h := by
  cases h with
  | failed happened error =>
    obtain ⟨shows_, hides⟩ := keeps
    rw [Setup.masks, ← Setup.failure_masked error shows_, ← scrub_hides hides, Setup.failure_text, ← servers]
    rfl
  | event happened link kind server cid detail =>
    obtain ⟨plain, hides⟩ := keeps
    rw [Setup.masks, covered_plain masked plain, ← scrub_hides hides, ← servers]
    rfl
  | reason happened link server cid detail =>
    obtain ⟨plain, plain'⟩ := keeps
    rw [Setup.masks, covered_plain masked plain, covered_plain masked plain']
    rfl

omit [Tables] [url.Hosts] in
theorem Entry.raw_scheme (e : Entry) (s : Secrets) : "://".toList <:+: e.raw s := by
  unfold Entry.raw Entry.parts ServerURL.parts
  rw [text_append, List.cons_append, text_cons]
  simp only [Masking.Part.text, List.append_assoc]
  exact (List.infix_append' e.first.scheme "://".toList _)

omit [url.Hosts] in
theorem normalizeServers_held {servers : List Entry} (held : ∀ e ∈ servers, trimSpace (e.raw s) = e.raw s) :
    normalizeServers (servers.map (Entry.raw s)) = servers.map (Entry.raw s) := by
  have trimmed : (servers.map (Entry.raw s)).map trimSpace = servers.map (Entry.raw s) := by
    rw [List.map_map]
    exact List.map_congr_left held
  have some : (servers.map (Entry.raw s)).filter (· ≠ []) = servers.map (Entry.raw s) := by
    refine List.filter_eq_self.mpr fun raw member => decide_eq_true ?_
    obtain ⟨e, _, rfl⟩ := List.mem_map.mp member
    intro empty
    have within := e.raw_scheme s
    rw [empty] at within
    exact absurd (List.eq_nil_of_infix_nil within) (by decide)
  have schemes : (servers.map (Entry.raw s)).map withScheme = servers.map (Entry.raw s) := by
    rw [List.map_map]
    refine List.map_congr_left fun e _ => ?_
    have has : contains (e.raw s) "://".toList = true := by
      simp only [contains, decide_eq_true_eq]
      exact e.raw_scheme s
    exact if_pos has
  rw [normalizeServers, trimmed, some, schemes]

omit [Tables] [url.Hosts] in
theorem Setup.name_same {s' : Secrets}
    (named : c.given.name ≠ [] ∨ ∀ e, c.servers.head? = some e → Masking.Plain (e.parts s))
    (named' : c.given.name ≠ [] ∨ ∀ e, c.servers.head? = some e → Masking.Plain (e.parts s')) :
    ((c.config s).withDefaults c.generated).name = ((c.config s').withDefaults c.generated).name := by
  by_cases given : c.given.name = []
  · have first : (c.servers.map (Entry.raw s)).headD [] = (c.servers.map (Entry.raw s')).headD [] := by
      cases servers : c.servers with
      | nil => rfl
      | cons e rest =>
        have plain := named.resolve_left (not_not.mpr given) e (congrArg List.head? servers)
        have plain' := named'.resolve_left (not_not.mpr given) e (congrArg List.head? servers)
        rw [List.map_cons, List.map_cons, List.headD_cons, List.headD_cons, Entry.raw, Entry.raw,
          ← covered_plain masked plain, ← covered_plain masked plain', e.parts_masked s s']
    have listed : c.servers.map (Entry.raw s) ≠ [] ↔ c.servers.map (Entry.raw s') ≠ [] := by
      rw [ne_eq, ne_eq, List.map_eq_nil_iff, List.map_eq_nil_iff]
    exact if_congr (and_congr_right fun _ => listed) first rfl
  · have kept (s : Secrets) : ((c.config s).withDefaults c.generated).name = c.given.name :=
      if_neg fun unnamed => given unnamed.1
    rw [kept, kept]

theorem Setup.log_masked {happenings : List (Happening (List Word))} (discreet : c.Discreet s happenings) (l : Log) :
    c.log s l happenings = happenings.foldl (c.masks s ((c.config s).withDefaults c.generated).name) l := by
  have servers : normalizeServers ((c.config s).withDefaults c.generated).servers = c.servers.map (Entry.raw s) :=
    normalizeServers_held discreet.held
  have keeps := discreet.keeps
  unfold Setup.log connectionLog
  rw [List.foldl_map, servers]
  clear discreet
  induction happenings generalizing l with
  | nil => rfl
  | cons h rest ih =>
    rw [List.foldl_cons, List.foldl_cons, logged_masked rfl l (keeps h List.mem_cons_self)]
    exact ih _ fun h member => keeps h (List.mem_cons_of_mem _ member)

theorem same_log (c : Setup) (s s' : Secrets) (l : Log) (happenings : List (Happening (List Word)))
    (discreet : c.Discreet s happenings) (discreet' : c.Discreet s' happenings) :
    c.log s l happenings = c.log s' l happenings := by
  have masks (name : Str) : c.masks s name = c.masks s' name :=
    funext fun l => funext fun h => Setup.masks_same s' name l h
  rw [Setup.log_masked discreet, Setup.log_masked discreet', Setup.name_same discreet.named discreet'.named, masks]

end

/-! ### Samples -/

def lab : Config := { (Config.unmarshal []).get rfl with name := "lab".toList }

@[reducible] def anyHost : url.Hosts where
  parseHost _ host := some host

def server (login : Login) : Entry := ⟨⟨"nats".toList, login, "h:4222".toList, by decide⟩, []⟩

def oneServer (login : Login) : Setup where
  generated := []
  given := lab
  servers := [server login]

section
attribute [local instance] asciiTables anyHost

def alice : Login := .password "al".toList 0

def quoted : List Word := [.text "parse nats://al:".toList, .quote id 0, .text "@h".toList]

def refused : List (Happening (List Word)) :=
  [.failed 1 [.text "no servers".toList], .event 2 "live".toList "error".toList [] 7 quoted]

theorem alice_discreet {s : Secrets} (held : trimSpace ((server alice).raw s) = (server alice).raw s)
    (has : hasPassword ((server alice).raw s) = true) (secret : url.Plain (s 0))
    (failure : Hides masked ((oneServer alice).picks s) ((oneServer alice).failure s [.text "no servers".toList]))
    (detail : Hides masked ((oneServer alice).picks s) (said s quoted)) : (oneServer alice).Discreet s refused where
  held e member := by
    rw [List.mem_singleton.mp member]
    exact held
  named := .inl (by decide)
  keeps h member := by
    have single : (server alice).Single s "al".toList 0 :=
      { login := rfl
        only := fun u member => absurd member List.not_mem_nil
        plain := ⟨by decide, by decide, by decide⟩
        colon := by decide
        secret := secret
        tail := by decide }
    rcases List.mem_cons.mp member with rfl | member
    · refine ⟨fun e member => ?_, failure⟩
      rw [List.mem_singleton.mp member, Entry.Shows, if_pos has]
      exact .inr ⟨_, _, single⟩
    · rw [List.mem_singleton.mp member]
      exact ⟨rfl, detail⟩

theorem same_of_two :
    (oneServer alice).log (fun _ => "hunter2".toList) {} refused =
      (oneServer alice).log (fun _ => "s3cr3t".toList) {} refused :=
  same_log _ _ _ _ _
    (alice_discreet (by decide) (by decide) ⟨by decide, by decide, by decide⟩ (by decide +kernel) (by decide +kernel))
    (alice_discreet (by decide) (by decide) ⟨by decide, by decide, by decide⟩ (by decide +kernel) (by decide +kernel))

/-- A token is shown as it is. -/
theorem token_told :
    (oneServer (.token 0)).log (fun _ => "alpha".toList) {} refused ≠
      (oneServer (.token 0)).log (fun _ => "beta".toList) {} refused := by
  decide +kernel

end

end NatsExplorer.Connection
