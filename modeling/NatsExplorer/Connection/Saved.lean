import Mathlib.Data.Finset.Dedup
import NatsExplorer.Go.Text

/-! A saved connection on its two ways to a server: posted by the dialog
(`lib/savedConnections.ts`, `handler/connection.go`) and read from the settings when the server
starts (`autoconnect.go`), and what `internal/connection` goes by when it opens one. `Retry` is
left out, and so is what no setting decides. -/
namespace NatsExplorer.Connection
open Go

/-! ### The browser's record -/

inductive AuthMethod where
  | none | token | userpass | nkey | jwt
  deriving DecidableEq

def AuthMethod.text : AuthMethod → Str
  | .none => "none".toList
  | .token => "token".toList
  | .userpass => "userpass".toList
  | .nkey => "nkey".toList
  | .jwt => "jwt".toList

inductive SystemTopicKey where
  | sys | js | kv | srv
  deriving DecidableEq

def SystemTopicKey.subject : SystemTopicKey → Str
  | .sys => "$SYS.>".toList
  | .js => "$JS.>".toList
  | .kv => "$KV.>".toList
  | .srv => "$SRV.>".toList

/-- `SYSTEM_TOPICS` -/
def systemTopics : List SystemTopicKey := [.sys, .js, .kv, .srv]

structure SavedConnection where
  id : Str
  name : Str
  servers : List Str
  authMethod : AuthMethod
  token : Option Str
  user : Option Str
  pass : Option Str
  nkeySeed : Option Str
  creds : Option Str
  tls : Option Bool
  tlsCa : Option Str
  tlsCert : Option Str
  tlsKey : Option Str
  tlsInsecure : Option Bool
  tlsFirst : Option Bool
  subscriptions : List Str
  sysTopics : SystemTopicKey → Option Bool
  autoConnect : Option Bool
  monitoringUrl : Option Str
  monitoringPort : Option Int
  jsDomain : Option Str
  jsApiPrefix : Option Str
  sysAuthMethod : Option AuthMethod
  sysToken : Option Str
  sysUser : Option Str
  sysPass : Option Str
  sysNkeySeed : Option Str
  sysCreds : Option Str
  sshEnabled : Option Bool
  sshHost : Option Str
  sshPort : Option Int
  sshUser : Option Str
  sshPassword : Option Str
  sshKey : Option Str
  sshPassphrase : Option Str
  sshHostKey : Option Str

/-- `newSavedConnection`, under an id that is given. -/
def newSavedConnection (id : Str) : SavedConnection where
  id := id
  name := []
  servers := ["nats://localhost:4222".toList]
  authMethod := .none
  token := none
  user := none
  pass := none
  nkeySeed := none
  creds := none
  tls := none
  tlsCa := none
  tlsCert := none
  tlsKey := none
  tlsInsecure := none
  tlsFirst := none
  subscriptions := [">".toList]
  sysTopics := fun _ => none
  autoConnect := none
  monitoringUrl := none
  monitoringPort := none
  jsDomain := none
  jsApiPrefix := none
  sysAuthMethod := none
  sysToken := none
  sysUser := none
  sysPass := none
  sysNkeySeed := none
  sysCreds := none
  sshEnabled := none
  sshHost := none
  sshPort := none
  sshUser := none
  sshPassword := none
  sshKey := none
  sshPassphrase := none
  sshHostKey := none

/-- What `trim` takes away: not `strings.TrimSpace`'s set, which has U+0085 and lacks U+FEFF. -/
def trimmed (c : Char) : Bool :=
  (9 ≤ c.toNat && c.toNat ≤ 13) || c.toNat = 0x20 || c.toNat = 0xa0 || c.toNat = 0x1680 ||
    (0x2000 ≤ c.toNat && c.toNat ≤ 0x200a) || c.toNat = 0x2028 || c.toNat = 0x2029 || c.toNat = 0x202f ||
    c.toNat = 0x205f || c.toNat = 0x3000 || c.toNat = 0xfeff

/-- `String.prototype.trim` -/
def trim (s : Str) : Str := ((s.dropWhile trimmed).reverse.dropWhile trimmed).reverse

/-- `|| undefined`, on a text, a flag and a number. -/
def textOrUndefined (s : Option Str) : Option Str := s.filter (· ≠ [])
def flagOrUndefined (b : Option Bool) : Option Bool := b.filter id
def numberOrUndefined (n : Option Int) : Option Int := n.filter (· ≠ 0)

structure SshConfig where
  host : Str
  port : Option Int
  user : Str
  password : Option Str
  privateKey : Option Str
  passphrase : Option Str
  hostKey : Option Str

structure ConnectionConfig where
  id : Str
  name : Option Str
  servers : List Str
  authMethod : AuthMethod
  token : Option Str
  user : Option Str
  pass : Option Str
  nkeySeed : Option Str
  creds : Option Str
  tls : Option Bool
  tlsCa : Option Str
  tlsCert : Option Str
  tlsKey : Option Str
  tlsInsecure : Option Bool
  tlsFirst : Option Bool
  subscriptions : List Str
  monitoringUrl : Option Str
  monitoringPort : Option Int
  jsDomain : Option Str
  jsApiPrefix : Option Str
  ssh : Option SshConfig
  sysAuthMethod : Option AuthMethod
  sysToken : Option Str
  sysUser : Option Str
  sysPass : Option Str
  sysNkeySeed : Option Str
  sysCreds : Option Str

/-- The bastion, when the connection goes through one. -/
def sshConfig (saved : SavedConnection) : Option SshConfig :=
  if saved.sshEnabled.getD false = false ∨ trim (saved.sshHost.getD []) = [] then none
  else some {
    host := trim (saved.sshHost.getD [])
    port := numberOrUndefined saved.sshPort
    user := trim (saved.sshUser.getD [])
    password := textOrUndefined saved.sshPassword
    privateKey := textOrUndefined (saved.sshKey.map trim)
    passphrase := textOrUndefined saved.sshPassphrase
    hostKey := textOrUndefined (saved.sshHostKey.map trim) }

/-- The method of the system account, unless there is none. -/
def systemMethod (saved : SavedConnection) : Option AuthMethod := saved.sysAuthMethod.filter (· ≠ .none)

def withTopics (saved : SavedConnection) : List Str :=
  systemTopics.foldl (fun subs st =>
    if (saved.sysTopics st).getD false ∧ st.subject ∉ subs then subs ++ [st.subject] else subs) saved.subscriptions

/-- Only the credentials matching the chosen methods are sent. -/
def toConnectionConfig (saved : SavedConnection) : ConnectionConfig where
  id := saved.id
  name := if saved.name ≠ [] then some saved.name else saved.servers.head?
  servers := saved.servers
  authMethod := saved.authMethod
  token := if saved.authMethod = .token then saved.token else none
  user := if saved.authMethod = .userpass then saved.user else none
  pass := if saved.authMethod = .userpass then saved.pass else none
  nkeySeed := if saved.authMethod = .nkey then saved.nkeySeed else none
  creds := if saved.authMethod = .jwt then saved.creds else none
  tls := saved.tls
  tlsCa := if saved.tls.getD false then textOrUndefined (saved.tlsCa.map trim) else none
  tlsCert := if saved.tls.getD false then textOrUndefined (saved.tlsCert.map trim) else none
  tlsKey := if saved.tls.getD false then textOrUndefined (saved.tlsKey.map trim) else none
  tlsInsecure := if saved.tls.getD false then flagOrUndefined saved.tlsInsecure else none
  tlsFirst := if saved.tls.getD false then flagOrUndefined saved.tlsFirst else none
  subscriptions := withTopics saved
  monitoringUrl := textOrUndefined saved.monitoringUrl
  monitoringPort := numberOrUndefined saved.monitoringPort
  jsDomain := textOrUndefined (saved.jsDomain.map trim)
  jsApiPrefix := textOrUndefined (saved.jsApiPrefix.map trim)
  ssh := sshConfig saved
  sysAuthMethod := systemMethod saved
  sysToken := if systemMethod saved = some .token then saved.sysToken else none
  sysUser := if systemMethod saved = some .userpass then saved.sysUser else none
  sysPass := if systemMethod saved = some .userpass then saved.sysPass else none
  sysNkeySeed := if systemMethod saved = some .nkey then saved.sysNkeySeed else none
  sysCreds := if systemMethod saved = some .jwt then saved.sysCreds else none

/-! ### The records as JSON -/

/-- JSON as far as the two records have it. -/
inductive Json where
  | text (s : Str)
  | flag (b : Bool)
  | number (n : Int)
  | texts (items : List Str)
  | record (fields : List (String × Json))

abbrev Fields := List (String × Json)

/-- `JSON.stringify`: an absent field is left out. -/
def stringify (fields : List (String × Option Json)) : Fields :=
  fields.filterMap fun field => field.2.map (Prod.mk field.1)

def SystemTopicKey.key : SystemTopicKey → String
  | .sys => "sys"
  | .js => "js"
  | .kv => "kv"
  | .srv => "srv"

def SavedConnection.fields (saved : SavedConnection) : List (String × Option Json) :=
  [("id", some (.text saved.id)), ("name", some (.text saved.name)), ("servers", some (.texts saved.servers)),
    ("authMethod", some (.text saved.authMethod.text)), ("token", saved.token.map .text), ("user", saved.user.map .text),
    ("pass", saved.pass.map .text), ("nkeySeed", saved.nkeySeed.map .text), ("creds", saved.creds.map .text),
    ("tls", saved.tls.map .flag), ("tlsCa", saved.tlsCa.map .text), ("tlsCert", saved.tlsCert.map .text),
    ("tlsKey", saved.tlsKey.map .text), ("tlsInsecure", saved.tlsInsecure.map .flag), ("tlsFirst", saved.tlsFirst.map .flag),
    ("subscriptions", some (.texts saved.subscriptions)),
    ("sysTopics", some (.record (stringify (systemTopics.map fun st => (st.key, (saved.sysTopics st).map .flag))))),
    ("autoConnect", saved.autoConnect.map .flag), ("monitoringUrl", saved.monitoringUrl.map .text),
    ("monitoringPort", saved.monitoringPort.map .number), ("jsDomain", saved.jsDomain.map .text),
    ("jsApiPrefix", saved.jsApiPrefix.map .text), ("sysAuthMethod", saved.sysAuthMethod.map fun m => .text m.text),
    ("sysToken", saved.sysToken.map .text), ("sysUser", saved.sysUser.map .text), ("sysPass", saved.sysPass.map .text),
    ("sysNkeySeed", saved.sysNkeySeed.map .text), ("sysCreds", saved.sysCreds.map .text),
    ("sshEnabled", saved.sshEnabled.map .flag), ("sshHost", saved.sshHost.map .text), ("sshPort", saved.sshPort.map .number),
    ("sshUser", saved.sshUser.map .text), ("sshPassword", saved.sshPassword.map .text), ("sshKey", saved.sshKey.map .text),
    ("sshPassphrase", saved.sshPassphrase.map .text), ("sshHostKey", saved.sshHostKey.map .text)]

def SshConfig.fields (ssh : SshConfig) : List (String × Option Json) :=
  [("host", some (.text ssh.host)), ("port", ssh.port.map .number), ("user", some (.text ssh.user)),
    ("password", ssh.password.map .text), ("privateKey", ssh.privateKey.map .text),
    ("passphrase", ssh.passphrase.map .text), ("hostKey", ssh.hostKey.map .text)]

def ConnectionConfig.fields (cfg : ConnectionConfig) : List (String × Option Json) :=
  [("id", some (.text cfg.id)), ("name", cfg.name.map .text), ("servers", some (.texts cfg.servers)),
    ("authMethod", some (.text cfg.authMethod.text)), ("token", cfg.token.map .text), ("user", cfg.user.map .text),
    ("pass", cfg.pass.map .text), ("nkeySeed", cfg.nkeySeed.map .text), ("creds", cfg.creds.map .text),
    ("tls", cfg.tls.map .flag), ("tlsCa", cfg.tlsCa.map .text), ("tlsCert", cfg.tlsCert.map .text),
    ("tlsKey", cfg.tlsKey.map .text), ("tlsInsecure", cfg.tlsInsecure.map .flag), ("tlsFirst", cfg.tlsFirst.map .flag),
    ("subscriptions", some (.texts cfg.subscriptions)), ("monitoringUrl", cfg.monitoringUrl.map .text),
    ("monitoringPort", cfg.monitoringPort.map .number), ("jsDomain", cfg.jsDomain.map .text),
    ("jsApiPrefix", cfg.jsApiPrefix.map .text), ("ssh", cfg.ssh.map fun ssh => .record (stringify ssh.fields)),
    ("sysAuthMethod", cfg.sysAuthMethod.map fun m => .text m.text), ("sysToken", cfg.sysToken.map .text),
    ("sysUser", cfg.sysUser.map .text), ("sysPass", cfg.sysPass.map .text), ("sysNkeySeed", cfg.sysNkeySeed.map .text),
    ("sysCreds", cfg.sysCreds.map .text)]

/-! ### The server's record -/

structure SSHConfig where
  host : Str
  port : Int
  user : Str
  password : Str
  privateKey : Str
  passphrase : Str
  hostKey : Str
  deriving DecidableEq

structure Config where
  id : Str
  name : Str
  servers : List Str
  authMethod : Str
  token : Str
  user : Str
  pass : Str
  nkeySeed : Str
  creds : Str
  tls : Bool
  tlsCA : Str
  tlsCert : Str
  tlsKey : Str
  tlsInsecure : Bool
  tlsFirst : Bool
  subscriptions : List Str
  monitoringPort : Int
  monitoringURL : Str
  jsDomain : Str
  jsAPIPrefix : Str
  ssh : Option SSHConfig
  sysAuthMethod : Str
  sysToken : Str
  sysUser : Str
  sysPass : Str
  sysNKeySeed : Str
  sysCreds : Str

/-! `Unmarshal` of a field: absent, its zero value; of another type, an error. -/

def textField : Option Json → Option Str
  | none => some []
  | some (.text s) => some s
  | some _ => none

def flagField : Option Json → Option Bool
  | none => some false
  | some (.flag b) => some b
  | some _ => none

def numberField : Option Json → Option Int
  | none => some 0
  | some (.number n) => some n
  | some _ => none

def textsField : Option Json → Option (List Str)
  | none => some []
  | some (.texts items) => some items
  | some _ => none

def SSHConfig.unmarshal (r : Fields) : Option SSHConfig := do
  let host ← textField (r.lookup "host")
  let port ← numberField (r.lookup "port")
  let user ← textField (r.lookup "user")
  let password ← textField (r.lookup "password")
  let privateKey ← textField (r.lookup "privateKey")
  let passphrase ← textField (r.lookup "passphrase")
  let hostKey ← textField (r.lookup "hostKey")
  return { host, port, user, password, privateKey, passphrase, hostKey }

def sshField : Option Json → Option (Option SSHConfig)
  | none => some none
  | some (.record r) => (SSHConfig.unmarshal r).map some
  | some _ => none

def topicField (entry : String × Json) : Option (String × Bool) := (flagField (some entry.2)).map (Prod.mk entry.1)

def topicsField : Option Json → Option (List (String × Bool))
  | none => some []
  | some (.record r) => r.mapM topicField
  | some _ => none

/-- `json.Unmarshal` into a `Config`. -/
def Config.unmarshal (r : Fields) : Option Config := do
  let id ← textField (r.lookup "id")
  let name ← textField (r.lookup "name")
  let servers ← textsField (r.lookup "servers")
  let authMethod ← textField (r.lookup "authMethod")
  let token ← textField (r.lookup "token")
  let user ← textField (r.lookup "user")
  let pass ← textField (r.lookup "pass")
  let nkeySeed ← textField (r.lookup "nkeySeed")
  let creds ← textField (r.lookup "creds")
  let tls ← flagField (r.lookup "tls")
  let tlsCA ← textField (r.lookup "tlsCa")
  let tlsCert ← textField (r.lookup "tlsCert")
  let tlsKey ← textField (r.lookup "tlsKey")
  let tlsInsecure ← flagField (r.lookup "tlsInsecure")
  let tlsFirst ← flagField (r.lookup "tlsFirst")
  let subscriptions ← textsField (r.lookup "subscriptions")
  let monitoringPort ← numberField (r.lookup "monitoringPort")
  let monitoringURL ← textField (r.lookup "monitoringUrl")
  let jsDomain ← textField (r.lookup "jsDomain")
  let jsAPIPrefix ← textField (r.lookup "jsApiPrefix")
  let ssh ← sshField (r.lookup "ssh")
  let sysAuthMethod ← textField (r.lookup "sysAuthMethod")
  let sysToken ← textField (r.lookup "sysToken")
  let sysUser ← textField (r.lookup "sysUser")
  let sysPass ← textField (r.lookup "sysPass")
  let sysNKeySeed ← textField (r.lookup "sysNkeySeed")
  let sysCreds ← textField (r.lookup "sysCreds")
  return { id, name, servers, authMethod, token, user, pass, nkeySeed, creds, tls, tlsCA, tlsCert, tlsKey, tlsInsecure,
           tlsFirst, subscriptions, monitoringPort, monitoringURL, jsDomain, jsAPIPrefix, ssh, sysAuthMethod, sysToken,
           sysUser, sysPass, sysNKeySeed, sysCreds }

/-! ### When the server starts -/

/-- `savedConnection` -/
structure StoredConnection where
  config : Config
  autoConnect : Bool
  sysTopics : List (String × Bool)

def StoredConnection.unmarshal (r : Fields) : Option StoredConnection := do
  let config ← Config.unmarshal r
  let autoConnect ← flagField (r.lookup "autoConnect")
  let sysTopics ← topicsField (r.lookup "sysTopics")
  return { config, autoConnect, sysTopics }

def systemTopicSubjects : List (String × Str) :=
  [("sys", "$SYS.>".toList), ("js", "$JS.>".toList), ("kv", "$KV.>".toList), ("srv", "$SRV.>".toList)]

def addTopic (subs : List Str) (topic : String × Bool) : List Str :=
  match systemTopicSubjects.lookup topic.1 with
  | some subj => if topic.2 then subs ++ [subj] else subs
  | none => subs

/-- What `connect` is called with for one entry. -/
def StoredConnection.startConfig (sc : StoredConnection) : Config :=
  { sc.config with
    subscriptions :=
      sc.sysTopics.foldl addTopic (if sc.config.subscriptions = [] then [">".toList] else sc.config.subscriptions) }

/-- One entry that does not decode, and none is opened. -/
def autoConnectSaved (reopen : List Str) (saved : List Fields) : List Config :=
  match saved.mapM StoredConnection.unmarshal with
  | some saved => (saved.filter fun sc => sc.autoConnect || sc.config.id ∈ reopen).map StoredConnection.startConfig
  | none => []

/-! ### From the dialog -/

/-- The defaults of `ConnectionHandler.Connect`; `generated` is its `generateID`. -/
def Config.withDefaults (generated : Str) (cfg : Config) : Config :=
  { cfg with
    id := if cfg.id = [] then generated else cfg.id
    name := if cfg.name = [] ∧ cfg.servers ≠ [] then cfg.servers.headD [] else cfg.name }

/-- What the handler hands to `Store.Connect`. -/
def connectRequest (generated : Str) (body : Fields) : Option Config :=
  (Config.unmarshal body).map (Config.withDefaults generated)

/-! ### What is opened -/

inductive Auth where
  | none
  | token (token : Str)
  | userInfo (user pass : Str)
  | nkey (seed : Str)
  | credentials (creds : Str)

/-- The PEM texts as they are parsed; empty is none. -/
structure TLSConfig where
  insecure : Bool
  handshakeFirst : Bool
  ca : Str
  cert : Str
  key : Str

structure Options where
  auth : Except String Auth
  tls : Option TLSConfig

inductive JetStreamAPI where
  | withAPIPrefix (apiPrefix : Str)
  | withDomain (domain : Str)
  | default

/-- `host` is the host of a server's URL. -/
inductive MonitoringBase where
  | url (base : Str)
  | host (server : Str) (port : Int)
  | unknown

structure Opening where
  servers : List Str
  name : Str
  bastion : Option SSHConfig
  api : Options
  live : Options
  system : Option Options
  jetStream : JetStreamAPI
  monitoring : MonitoringBase
  patterns : Finset Str

section Opening
variable [Tables]

/-- A seed is nkeys' to refuse, beyond that. -/
def authOptions (method token user pass nkeySeed creds : Str) : Except String Auth :=
  if method = "token".toList then .ok (.token token)
  else if method = "userpass".toList then .ok (.userInfo user pass)
  else if method = "nkey".toList then if nkeySeed = [] then .error "nkey seed required" else .ok (.nkey nkeySeed)
  else if method = "jwt".toList then
    if strings.trimSpace creds = [] then .error "credentials required" else .ok (.credentials creds)
  else .ok .none

/-- `tlsConfigFor`, up to what the texts are parsed to. -/
def tlsConfigFor (cfg : Config) : TLSConfig where
  insecure := cfg.tlsInsecure
  handshakeFirst := cfg.tlsFirst
  ca := strings.trimSpace cfg.tlsCA
  cert := strings.trimSpace cfg.tlsCert
  key := strings.trimSpace cfg.tlsKey

def secured (cfg : Config) : Option TLSConfig :=
  if cfg.tls ∨ cfg.tlsCA ≠ [] ∨ cfg.tlsCert ≠ [] ∨ cfg.tlsKey ≠ [] then some (tlsConfigFor cfg) else none

def buildOptions (cfg : Config) : Options where
  auth := authOptions cfg.authMethod cfg.token cfg.user cfg.pass cfg.nkeySeed cfg.creds
  tls := secured cfg

def buildSysOptions (cfg : Config) : Options where
  auth := authOptions cfg.sysAuthMethod cfg.sysToken cfg.sysUser cfg.sysPass cfg.sysNKeySeed cfg.sysCreds
  tls := secured cfg

def withScheme (s : Str) : Str := if strings.contains s "://".toList then s else "nats://".toList ++ s

def normalizeServers (servers : List Str) : List Str :=
  ((servers.map strings.trimSpace).filter (· ≠ [])).map withScheme

/-- `newSSHDialer`'s copy, for the tunnel `Store.Connect` asks for. -/
def bastion (cfg : Config) : Option SSHConfig :=
  (cfg.ssh.filter fun ssh => strings.trimSpace ssh.host ≠ []).map fun ssh =>
    { ssh with
      host := strings.trimSpace ssh.host
      user := strings.trimSpace ssh.user
      port := if ssh.port = 0 then 22 else ssh.port }

def jetStreamFor (cfg : Config) : JetStreamAPI :=
  if cfg.jsAPIPrefix ≠ [] then .withAPIPrefix cfg.jsAPIPrefix
  else if cfg.jsDomain ≠ [] then .withDomain cfg.jsDomain
  else .default

def defaultMonitoringPort : Int := 8222

/-- `MonitoringBase`, up to the host in the server's URL. -/
def monitoringBase (cfg : Config) : MonitoringBase :=
  if cfg.monitoringURL ≠ [] then .url (cfg.monitoringURL.rdropWhile (· = '/'))
  else
    match cfg.servers with
    | [] => .unknown
    | server :: _ => .host (withScheme server) (if cfg.monitoringPort = 0 then defaultMonitoringPort else cfg.monitoringPort)

/-- The subjects `startManager` subscribes to. -/
def subjects (cfg : Config) : List Str := if cfg.subscriptions = [] then [">".toList] else cfg.subscriptions

/-- `none` without an account of its own. -/
def systemOptions (cfg : Config) : Option Options :=
  if cfg.sysAuthMethod ≠ [] ∧ cfg.sysAuthMethod ≠ "none".toList then some (buildSysOptions cfg) else none

/-- What `Store.Connect` and `startManager` make of a configuration. -/
def opening (given : Config) : Opening :=
  let cfg := { given with servers := normalizeServers given.servers }
  { servers := cfg.servers
    name := cfg.name
    bastion := bastion cfg
    api := buildOptions cfg
    live := buildOptions cfg
    system := systemOptions cfg
    jetStream := jetStreamFor cfg
    monitoring := monitoringBase cfg
    patterns := (subjects cfg).toFinset }

end Opening

end NatsExplorer.Connection
