import NatsExplorer.Connection.Saved

/-! Whether a saved connection opens at the start of the server as it does from the dialog. -/
namespace NatsExplorer.Connection
open Go

/-! ### Reading back what was written -/

section Reading
variable {fields : List (String × Option Json)}

/-- Under distinct names a field is read as it was written, or is absent. -/
theorem lookup_stringify (nodup : (fields.map Prod.fst).Nodup) (k : String) :
    (stringify fields).lookup k = (fields.lookup k).join := by
  induction fields with
  | nil => rfl
  | cons field fields ih =>
    obtain ⟨key, value⟩ := field
    rw [List.map_cons, List.nodup_cons] at nodup
    have later := ih nodup.2
    unfold stringify at later ⊢
    by_cases same : k = key
    · subst same
      cases value with
      | some v => simp
      | none =>
        have absent : fields.lookup k = none := by
          rw [List.lookup_eq_none_iff]
          rintro ⟨other, v⟩ listed
          have : k ≠ other := by
            rintro rfl
            exact nodup.1 (List.mem_map.mpr ⟨_, listed, rfl⟩)
          simpa using this
        rw [absent] at later
        simpa using later
    · have differs : (k == key) = false := by simpa using same
      cases value with
      | some v => simpa [List.lookup_cons, differs] using later
      | none => simpa [List.lookup_cons, differs] using later

variable (nodup : (fields.map Prod.fst).Nodup) (k : String)
include nodup

theorem textField_of {s : Option Str} (written : (fields.lookup k).join = s.map .text) :
    textField ((stringify fields).lookup k) = some (s.getD []) := by
  rw [lookup_stringify nodup, written]
  cases s <;> rfl

theorem flagField_of {b : Option Bool} (written : (fields.lookup k).join = b.map .flag) :
    flagField ((stringify fields).lookup k) = some (b.getD false) := by
  rw [lookup_stringify nodup, written]
  cases b <;> rfl

theorem numberField_of {n : Option Int} (written : (fields.lookup k).join = n.map .number) :
    numberField ((stringify fields).lookup k) = some (n.getD 0) := by
  rw [lookup_stringify nodup, written]
  cases n <;> rfl

theorem textsField_of {l : List Str} (written : (fields.lookup k).join = some (.texts l)) :
    textsField ((stringify fields).lookup k) = some l := by
  rw [lookup_stringify nodup, written]
  rfl

theorem methodField_of {m : Option AuthMethod} (written : (fields.lookup k).join = m.map fun m => .text m.text) :
    textField ((stringify fields).lookup k) = some ((m.map AuthMethod.text).getD []) := by
  rw [lookup_stringify nodup, written]
  cases m <;> rfl

end Reading

theorem SavedConnection.names_nodup (saved : SavedConnection) : (saved.fields.map Prod.fst).Nodup := by
  simp [SavedConnection.fields]

theorem ConnectionConfig.names_nodup (cfg : ConnectionConfig) : (cfg.fields.map Prod.fst).Nodup := by
  simp [ConnectionConfig.fields]

theorem SshConfig.names_nodup (ssh : SshConfig) : (ssh.fields.map Prod.fst).Nodup := by
  simp [SshConfig.fields]

/-- The server's `Config` of a saved connection: what has no field of its own is lost. -/
def SavedConnection.asRead (saved : SavedConnection) : Config where
  id := saved.id
  name := saved.name
  servers := saved.servers
  authMethod := saved.authMethod.text
  token := saved.token.getD []
  user := saved.user.getD []
  pass := saved.pass.getD []
  nkeySeed := saved.nkeySeed.getD []
  creds := saved.creds.getD []
  tls := saved.tls.getD false
  tlsCA := saved.tlsCa.getD []
  tlsCert := saved.tlsCert.getD []
  tlsKey := saved.tlsKey.getD []
  tlsInsecure := saved.tlsInsecure.getD false
  tlsFirst := saved.tlsFirst.getD false
  subscriptions := saved.subscriptions
  monitoringPort := saved.monitoringPort.getD 0
  monitoringURL := saved.monitoringUrl.getD []
  jsDomain := saved.jsDomain.getD []
  jsAPIPrefix := saved.jsApiPrefix.getD []
  ssh := none
  sysAuthMethod := (saved.sysAuthMethod.map AuthMethod.text).getD []
  sysToken := saved.sysToken.getD []
  sysUser := saved.sysUser.getD []
  sysPass := saved.sysPass.getD []
  sysNKeySeed := saved.sysNkeySeed.getD []
  sysCreds := saved.sysCreds.getD []

def SshConfig.asRead (ssh : SshConfig) : SSHConfig where
  host := ssh.host
  port := ssh.port.getD 0
  user := ssh.user
  password := ssh.password.getD []
  privateKey := ssh.privateKey.getD []
  passphrase := ssh.passphrase.getD []
  hostKey := ssh.hostKey.getD []

def ConnectionConfig.asRead (cfg : ConnectionConfig) : Config where
  id := cfg.id
  name := cfg.name.getD []
  servers := cfg.servers
  authMethod := cfg.authMethod.text
  token := cfg.token.getD []
  user := cfg.user.getD []
  pass := cfg.pass.getD []
  nkeySeed := cfg.nkeySeed.getD []
  creds := cfg.creds.getD []
  tls := cfg.tls.getD false
  tlsCA := cfg.tlsCa.getD []
  tlsCert := cfg.tlsCert.getD []
  tlsKey := cfg.tlsKey.getD []
  tlsInsecure := cfg.tlsInsecure.getD false
  tlsFirst := cfg.tlsFirst.getD false
  subscriptions := cfg.subscriptions
  monitoringPort := cfg.monitoringPort.getD 0
  monitoringURL := cfg.monitoringUrl.getD []
  jsDomain := cfg.jsDomain.getD []
  jsAPIPrefix := cfg.jsApiPrefix.getD []
  ssh := cfg.ssh.map SshConfig.asRead
  sysAuthMethod := (cfg.sysAuthMethod.map AuthMethod.text).getD []
  sysToken := cfg.sysToken.getD []
  sysUser := cfg.sysUser.getD []
  sysPass := cfg.sysPass.getD []
  sysNKeySeed := cfg.sysNkeySeed.getD []
  sysCreds := cfg.sysCreds.getD []

theorem SavedConnection.unmarshal_fields (saved : SavedConnection) :
    Config.unmarshal (stringify saved.fields) = some saved.asRead := by
  have names := saved.names_nodup
  have noBastion : sshField ((stringify saved.fields).lookup "ssh") = some none := by
    rw [lookup_stringify names]
    rfl
  simp only [Config.unmarshal, noBastion, textField_of names "id" (s := some saved.id) rfl,
    textField_of names "name" (s := some saved.name) rfl, textsField_of names "servers" (l := saved.servers) rfl,
    methodField_of names "authMethod" (m := some saved.authMethod) rfl,
    textField_of names "token" (s := saved.token) rfl, textField_of names "user" (s := saved.user) rfl,
    textField_of names "pass" (s := saved.pass) rfl, textField_of names "nkeySeed" (s := saved.nkeySeed) rfl,
    textField_of names "creds" (s := saved.creds) rfl, flagField_of names "tls" (b := saved.tls) rfl,
    textField_of names "tlsCa" (s := saved.tlsCa) rfl, textField_of names "tlsCert" (s := saved.tlsCert) rfl,
    textField_of names "tlsKey" (s := saved.tlsKey) rfl,
    flagField_of names "tlsInsecure" (b := saved.tlsInsecure) rfl,
    flagField_of names "tlsFirst" (b := saved.tlsFirst) rfl,
    textsField_of names "subscriptions" (l := saved.subscriptions) rfl,
    numberField_of names "monitoringPort" (n := saved.monitoringPort) rfl,
    textField_of names "monitoringUrl" (s := saved.monitoringUrl) rfl,
    textField_of names "jsDomain" (s := saved.jsDomain) rfl,
    textField_of names "jsApiPrefix" (s := saved.jsApiPrefix) rfl,
    methodField_of names "sysAuthMethod" (m := saved.sysAuthMethod) rfl,
    textField_of names "sysToken" (s := saved.sysToken) rfl, textField_of names "sysUser" (s := saved.sysUser) rfl,
    textField_of names "sysPass" (s := saved.sysPass) rfl,
    textField_of names "sysNkeySeed" (s := saved.sysNkeySeed) rfl,
    textField_of names "sysCreds" (s := saved.sysCreds) rfl]
  rfl

theorem SshConfig.unmarshal_fields (ssh : SshConfig) : SSHConfig.unmarshal (stringify ssh.fields) = some ssh.asRead := by
  have names := ssh.names_nodup
  simp only [SSHConfig.unmarshal, textField_of names "host" (s := some ssh.host) rfl,
    numberField_of names "port" (n := ssh.port) rfl, textField_of names "user" (s := some ssh.user) rfl,
    textField_of names "password" (s := ssh.password) rfl, textField_of names "privateKey" (s := ssh.privateKey) rfl,
    textField_of names "passphrase" (s := ssh.passphrase) rfl, textField_of names "hostKey" (s := ssh.hostKey) rfl]
  rfl

theorem ConnectionConfig.unmarshal_fields (cfg : ConnectionConfig) :
    Config.unmarshal (stringify cfg.fields) = some cfg.asRead := by
  have names := cfg.names_nodup
  have throughBastion : sshField ((stringify cfg.fields).lookup "ssh") = some (cfg.ssh.map SshConfig.asRead) := by
    rw [lookup_stringify names]
    change sshField (cfg.ssh.map fun ssh => .record (stringify ssh.fields)) = _
    cases cfg.ssh with
    | none => rfl
    | some ssh => simp [sshField, ssh.unmarshal_fields]
  simp only [Config.unmarshal, throughBastion, textField_of names "id" (s := some cfg.id) rfl,
    textField_of names "name" (s := cfg.name) rfl, textsField_of names "servers" (l := cfg.servers) rfl,
    methodField_of names "authMethod" (m := some cfg.authMethod) rfl,
    textField_of names "token" (s := cfg.token) rfl, textField_of names "user" (s := cfg.user) rfl,
    textField_of names "pass" (s := cfg.pass) rfl, textField_of names "nkeySeed" (s := cfg.nkeySeed) rfl,
    textField_of names "creds" (s := cfg.creds) rfl, flagField_of names "tls" (b := cfg.tls) rfl,
    textField_of names "tlsCa" (s := cfg.tlsCa) rfl, textField_of names "tlsCert" (s := cfg.tlsCert) rfl,
    textField_of names "tlsKey" (s := cfg.tlsKey) rfl, flagField_of names "tlsInsecure" (b := cfg.tlsInsecure) rfl,
    flagField_of names "tlsFirst" (b := cfg.tlsFirst) rfl,
    textsField_of names "subscriptions" (l := cfg.subscriptions) rfl,
    numberField_of names "monitoringPort" (n := cfg.monitoringPort) rfl,
    textField_of names "monitoringUrl" (s := cfg.monitoringUrl) rfl,
    textField_of names "jsDomain" (s := cfg.jsDomain) rfl,
    textField_of names "jsApiPrefix" (s := cfg.jsApiPrefix) rfl,
    methodField_of names "sysAuthMethod" (m := cfg.sysAuthMethod) rfl,
    textField_of names "sysToken" (s := cfg.sysToken) rfl, textField_of names "sysUser" (s := cfg.sysUser) rfl,
    textField_of names "sysPass" (s := cfg.sysPass) rfl, textField_of names "sysNkeySeed" (s := cfg.sysNkeySeed) rfl,
    textField_of names "sysCreds" (s := cfg.sysCreds) rfl]
  rfl

/-- The topics of a saved connection as its record has them. -/
def topics (saved : SavedConnection) : List (String × Bool) :=
  systemTopics.filterMap fun st => (saved.sysTopics st).map (Prod.mk st.key)

theorem topics_read (on : SystemTopicKey → Option Bool) (keys : List SystemTopicKey) :
    (stringify (keys.map fun st => (st.key, (on st).map .flag))).mapM topicField =
      some (keys.filterMap fun st => (on st).map (Prod.mk st.key)) := by
  induction keys with
  | nil => rfl
  | cons st keys ih =>
    unfold stringify at ih ⊢
    cases given : on st with
    | none => simpa [given] using ih
    | some b =>
      simp only [List.map_cons, List.filterMap_cons, given, Option.map_some, List.mapM_cons, ih]
      rfl

/-- What is known of a saved connection at the start. -/
def SavedConnection.stored (saved : SavedConnection) : StoredConnection where
  config := saved.asRead
  autoConnect := saved.autoConnect.getD false
  sysTopics := topics saved

theorem SavedConnection.unmarshal_stored (saved : SavedConnection) :
    StoredConnection.unmarshal (stringify saved.fields) = some saved.stored := by
  have names := saved.names_nodup
  have read : topicsField ((stringify saved.fields).lookup "sysTopics") = some (topics saved) := by
    rw [lookup_stringify names]
    exact topics_read saved.sysTopics systemTopics
  simp only [StoredConnection.unmarshal, saved.unmarshal_fields, read,
    flagField_of names "autoConnect" (b := saved.autoConnect) rfl]
  rfl

/-- Opened at the start: flagged, or open before a restart. -/
def opensAtStart (reopen : List Str) (saved : SavedConnection) : Bool :=
  saved.autoConnect.getD false || saved.id ∈ reopen

theorem autoConnectSaved_eq (reopen : List Str) (items : List SavedConnection) :
    autoConnectSaved reopen (items.map fun saved => stringify saved.fields) =
      (items.filter (opensAtStart reopen)).map fun saved => saved.stored.startConfig := by
  have read : (items.map fun saved => stringify saved.fields).mapM StoredConnection.unmarshal =
      some (items.map SavedConnection.stored) := by
    induction items with
    | nil => rfl
    | cons saved items ih => simp [saved.unmarshal_stored, ih]
  unfold autoConnectSaved
  rw [read]
  dsimp only
  rw [List.filter_map, List.map_map]
  rfl

theorem connectRequest_eq (generated : Str) (saved : SavedConnection) :
    connectRequest generated (stringify (toConnectionConfig saved).fields) =
      some ((toConnectionConfig saved).asRead.withDefaults generated) := by
  unfold connectRequest
  rw [ConnectionConfig.unmarshal_fields]
  rfl

/-! ### The two ways compared -/

theorem getD_textOrUndefined (s : Option Str) : (textOrUndefined s).getD [] = s.getD [] := by
  cases s with
  | none => rfl
  | some s =>
    by_cases blank : s = []
    · subst blank
      rfl
    · simp [textOrUndefined, Option.filter, blank]

theorem getD_flagOrUndefined (b : Option Bool) : (flagOrUndefined b).getD false = b.getD false := by
  rcases b with _ | _ | _ <;> rfl

theorem getD_numberOrUndefined (n : Option Int) : (numberOrUndefined n).getD 0 = n.getD 0 := by
  cases n with
  | none => rfl
  | some n =>
    by_cases zero : n = 0
    · subst zero
      rfl
    · simp [numberOrUndefined, Option.filter, zero]

theorem getD_trimmed (s : Option Str) : (textOrUndefined (s.map trim)).getD [] = trim (s.getD []) := by
  rw [getD_textOrUndefined]
  cases s <;> rfl

/-- As the server's start opens it. -/
def SavedConnection.started (saved : SavedConnection) : Config := saved.stored.startConfig

/-- As the dialog's request opens it. -/
def SavedConnection.posted (saved : SavedConnection) (generated : Str) : Config :=
  (toConnectionConfig saved).asRead.withDefaults generated

section Patterns
variable {on : SystemTopicKey → Option Bool} {saved : SavedConnection} {s : Str}

theorem addTopic_key (subs : List Str) (st : SystemTopicKey) (b : Bool) :
    addTopic subs (st.key, b) = if b then subs ++ [st.subject] else subs := by
  cases st <;> rfl

theorem mem_addTopics (keys : List SystemTopicKey) (subs : List Str) :
    s ∈ (keys.filterMap fun st => (on st).map (Prod.mk st.key)).foldl addTopic subs ↔
      s ∈ subs ∨ ∃ st ∈ keys, (on st).getD false = true ∧ s = st.subject := by
  induction keys generalizing subs with
  | nil => simp
  | cons st keys ih =>
    rcases given : on st with _ | _ | _
    · simp [given, ih]
    · simp [given, ih, addTopic_key]
    · simp [given, ih, addTopic_key, or_assoc]

theorem mem_withTopics_fold (keys : List SystemTopicKey) (subs : List Str) :
    s ∈ keys.foldl (fun subs st =>
        if (saved.sysTopics st).getD false ∧ st.subject ∉ subs then subs ++ [st.subject] else subs) subs ↔
      s ∈ subs ∨ ∃ st ∈ keys, (saved.sysTopics st).getD false = true ∧ s = st.subject := by
  induction keys generalizing subs with
  | nil => simp
  | cons st keys ih =>
    rw [List.foldl_cons, ih]
    by_cases on : (saved.sysTopics st).getD false = true
    · by_cases listed : st.subject ∈ subs
      · rw [if_neg fun both => both.2 listed]
        constructor
        · rintro (before | ⟨other, member, rest⟩)
          · exact Or.inl before
          · exact Or.inr ⟨other, List.mem_cons_of_mem _ member, rest⟩
        · rintro (before | ⟨other, member, onOther, rfl⟩)
          · exact Or.inl before
          · rcases List.mem_cons.mp member with rfl | member
            · exact Or.inl listed
            · exact Or.inr ⟨other, member, onOther, rfl⟩
      · simp [on, listed, or_assoc]
    · simp [on]

theorem mem_systemTopics (st : SystemTopicKey) : st ∈ systemTopics := by
  cases st <;> decide

theorem mem_withTopics :
    s ∈ withTopics saved ↔ s ∈ saved.subscriptions ∨ ∃ st, (saved.sysTopics st).getD false = true ∧ s = st.subject := by
  unfold withTopics
  simp [mem_withTopics_fold, mem_systemTopics]

theorem started_subscriptions :
    s ∈ saved.started.subscriptions ↔ s ∈ (if saved.subscriptions = [] then [">".toList] else saved.subscriptions) ∨
      ∃ st, (saved.sysTopics st).getD false = true ∧ s = st.subject := by
  have member := @mem_addTopics saved.sysTopics s systemTopics
    (if saved.subscriptions = [] then [">".toList] else saved.subscriptions)
  simp only [mem_systemTopics, true_and] at member
  exact member

theorem subjects_started : subjects saved.started = saved.started.subscriptions := by
  have listens : saved.started.subscriptions ≠ [] := by
    intro empty
    have none_listed := fun s => (not_congr (@started_subscriptions saved s)).mp (by simp [empty])
    by_cases patterns : saved.subscriptions = []
    · exact none_listed ">".toList (Or.inl (by simp [patterns]))
    · obtain ⟨s, listed⟩ := List.exists_mem_of_ne_nil _ patterns
      exact none_listed s (Or.inl (by simpa [patterns] using listed))
  exact if_neg listens

theorem subject_ne_all (st : SystemTopicKey) : st.subject ≠ ">".toList := by
  cases st <;> decide

theorem patterns_iff (generated : Str) :
    (subjects saved.started).toFinset = (subjects (saved.posted generated)).toFinset ↔
      (saved.subscriptions = [] → ∀ st, (saved.sysTopics st).getD false = false) := by
  have given : (saved.posted generated).subscriptions = withTopics saved := rfl
  rw [subjects_started]
  unfold subjects
  rw [given]
  constructor
  · intro same patterns st
    by_contra on
    rw [Bool.not_eq_false] at on
    have listed : st.subject ∈ withTopics saved := mem_withTopics.mpr (Or.inr ⟨st, on, rfl⟩)
    rw [if_neg (List.ne_nil_of_mem listed)] at same
    have all : ">".toList ∈ saved.started.subscriptions := started_subscriptions.mpr (Or.inl (by simp [patterns]))
    rw [← List.mem_toFinset, same, List.mem_toFinset, mem_withTopics, patterns] at all
    rcases all with none_left | ⟨topic, _, same_subject⟩
    · cases none_left
    · exact subject_ne_all topic same_subject.symm
  · intro quiet
    by_cases patterns : saved.subscriptions = []
    · have off := quiet patterns
      have empty : withTopics saved = [] := by
        refine List.eq_nil_iff_forall_not_mem.mpr fun s listed => ?_
        simp [mem_withTopics, patterns, off] at listed
      ext s
      rw [if_pos empty, List.mem_toFinset, List.mem_toFinset, started_subscriptions]
      simp [patterns, off]
    · obtain ⟨s, listed⟩ := List.exists_mem_of_ne_nil _ patterns
      have nonempty : withTopics saved ≠ [] := List.ne_nil_of_mem (mem_withTopics.mpr (Or.inl listed))
      ext s
      rw [if_neg nonempty, List.mem_toFinset, List.mem_toFinset, started_subscriptions, mem_withTopics, if_neg patterns]

end Patterns

section Comparison
variable (saved : SavedConnection) (generated : Str)

theorem name_iff :
    saved.started.name = (saved.posted generated).name ↔ (saved.name = [] → saved.servers.headD [] = []) := by
  change saved.name = (if (toConnectionConfig saved).name.getD [] = [] ∧ saved.servers ≠ [] then saved.servers.headD []
    else (toConnectionConfig saved).name.getD []) ↔ _
  rw [eq_comm]
  by_cases named : saved.name = []
  · cases servers : saved.servers <;> simp [toConnectionConfig, named, servers]
  · simp [toConnectionConfig, named]

theorem posted_material (text : Option Str) :
    ((if saved.tls.getD false then textOrUndefined (text.map trim) else none).getD [] : Str) =
      if saved.tls.getD false then trim (text.getD []) else [] := by
  split_ifs
  · exact getD_trimmed text
  · rfl

theorem authOptions_selected [Tables] (m : AuthMethod) (token user pass nkeySeed creds : Option Str) :
    authOptions m.text ((if m = .token then token else none).getD []) ((if m = .userpass then user else none).getD [])
        ((if m = .userpass then pass else none).getD []) ((if m = .nkey then nkeySeed else none).getD [])
        ((if m = .jwt then creds else none).getD []) =
      authOptions m.text (token.getD []) (user.getD []) (pass.getD []) (nkeySeed.getD []) (creds.getD []) := by
  cases m <;> rfl

theorem jetStream_iff :
    jetStreamFor saved.started = jetStreamFor (saved.posted generated) ↔
      trim (saved.jsApiPrefix.getD []) = saved.jsApiPrefix.getD [] ∧
        (saved.jsApiPrefix.getD [] = [] → trim (saved.jsDomain.getD []) = saved.jsDomain.getD []) := by
  have apiPrefix : (saved.posted generated).jsAPIPrefix = trim (saved.jsApiPrefix.getD []) := getD_trimmed _
  have domain : (saved.posted generated).jsDomain = trim (saved.jsDomain.getD []) := getD_trimmed _
  have blank : trim [] = [] := rfl
  unfold jetStreamFor
  rw [apiPrefix, domain]
  change (if saved.jsApiPrefix.getD [] ≠ [] then JetStreamAPI.withAPIPrefix (saved.jsApiPrefix.getD [])
    else if saved.jsDomain.getD [] ≠ [] then .withDomain (saved.jsDomain.getD []) else .default) = _ ↔ _
  generalize saved.jsApiPrefix.getD [] = p
  generalize saved.jsDomain.getD [] = d
  rw [@eq_comm JetStreamAPI]
  by_cases noPrefix : p = []
  · subst noPrefix
    by_cases noDomain : d = []
    · simp [noDomain, blank]
    · by_cases blanks : trim d = []
      · simp [noDomain, blank, blanks]
      · simp [noDomain, blank, blanks]
  · by_cases blanks : trim p = []
    · have differs : ¬ [] = p := Ne.symm noPrefix
      simp only [ne_eq, noPrefix, not_false_eq_true, if_true, blanks, not_true, if_false, differs, false_and, iff_false]
      split_ifs <;> exact nofun
    · simp [noPrefix, blanks]

theorem monitoring_same (servers : List Str) :
    monitoringBase { saved.started with servers } = monitoringBase { saved.posted generated with servers } := by
  have url : (saved.posted generated).monitoringURL = saved.started.monitoringURL := getD_textOrUndefined _
  have port : (saved.posted generated).monitoringPort = saved.started.monitoringPort := getD_numberOrUndefined _
  unfold monitoringBase
  rw [url, port]

variable [Tables]

theorem bastion_iff :
    bastion saved.started = bastion (saved.posted generated) ↔
      (saved.sshEnabled.getD false = true → strings.trimSpace (trim (saved.sshHost.getD [])) = []) := by
  have direct : bastion saved.started = none := rfl
  have through : bastion (saved.posted generated) =
    bastion { saved.started with ssh := (sshConfig saved).map SshConfig.asRead } := rfl
  rw [direct, through]
  have blank : strings.trimSpace [] = [] := rfl
  unfold sshConfig bastion
  by_cases enabled : saved.sshEnabled.getD false = true
  · by_cases noHost : trim (saved.sshHost.getD []) = []
    · simp [enabled, noHost, blank]
    · by_cases hidden : strings.trimSpace (trim (saved.sshHost.getD [])) = []
      · simp [enabled, noHost, hidden, Option.filter, SshConfig.asRead]
      · simp [enabled, noHost, hidden, Option.filter, SshConfig.asRead]
  · simp [enabled]

theorem secured_off (off : saved.tls.getD false = false) :
    secured saved.started = secured (saved.posted generated) ↔
      ∀ text ∈ [saved.tlsCa, saved.tlsCert, saved.tlsKey], text.getD [] = [] := by
  have plain : secured (saved.posted generated) = none := by
    unfold secured
    simp [SavedConnection.posted, Config.withDefaults, ConnectionConfig.asRead, toConnectionConfig, off]
  rw [plain]
  unfold secured
  change (if saved.tls.getD false = true ∨ saved.tlsCa.getD [] ≠ [] ∨ saved.tlsCert.getD [] ≠ [] ∨ saved.tlsKey.getD [] ≠ []
    then some (tlsConfigFor saved.started) else none) = none ↔ _
  simp [off]

theorem secured_on (on : saved.tls.getD false = true) :
    secured saved.started = secured (saved.posted generated) ↔
      ∀ text ∈ [saved.tlsCa, saved.tlsCert, saved.tlsKey],
        strings.trimSpace (trim (text.getD [])) = strings.trimSpace (text.getD []) := by
  have insecure : (saved.posted generated).tlsInsecure = saved.started.tlsInsecure := by
    change (if saved.tls.getD false then flagOrUndefined saved.tlsInsecure else none).getD false = saved.tlsInsecure.getD false
    rw [if_pos on, getD_flagOrUndefined]
  have first : (saved.posted generated).tlsFirst = saved.started.tlsFirst := by
    change (if saved.tls.getD false then flagOrUndefined saved.tlsFirst else none).getD false = saved.tlsFirst.getD false
    rw [if_pos on, getD_flagOrUndefined]
  have ca : (saved.posted generated).tlsCA = trim (saved.tlsCa.getD []) := by
    exact (posted_material saved saved.tlsCa).trans (if_pos on)
  have cert : (saved.posted generated).tlsCert = trim (saved.tlsCert.getD []) := by
    exact (posted_material saved saved.tlsCert).trans (if_pos on)
  have key : (saved.posted generated).tlsKey = trim (saved.tlsKey.getD []) := by
    exact (posted_material saved saved.tlsKey).trans (if_pos on)
  have started : secured saved.started = some (tlsConfigFor saved.started) := if_pos (Or.inl on)
  have posted : secured (saved.posted generated) = some (tlsConfigFor (saved.posted generated)) := if_pos (Or.inl on)
  rw [started, posted, @eq_comm (Option TLSConfig)]
  simp only [tlsConfigFor, insecure, first, ca, cert, key, Option.some.injEq, TLSConfig.mk.injEq, true_and,
    List.forall_mem_cons, List.not_mem_nil, false_imp_iff, implies_true, and_true]
  rfl

theorem auth_same : (buildOptions saved.started).auth = (buildOptions (saved.posted generated)).auth :=
  (authOptions_selected saved.authMethod saved.token saved.user saved.pass saved.nkeySeed saved.creds).symm

/-- A method of the system account that is not `none` is sent with its own credentials. -/
theorem sysAuth_same {m : AuthMethod} (chosen : systemMethod saved = some m) (stored : saved.sysAuthMethod = some m) :
    (buildSysOptions saved.started).auth = (buildSysOptions (saved.posted generated)).auth := by
  have selected := authOptions_selected m saved.sysToken saved.sysUser saved.sysPass saved.sysNkeySeed saved.sysCreds
  simp only [← Option.some.injEq m, ← chosen] at selected
  have sent : (saved.posted generated).sysAuthMethod = m.text := by
    change ((systemMethod saved).map AuthMethod.text).getD [] = m.text
    rw [chosen]
    rfl
  have given : saved.started.sysAuthMethod = m.text := by
    change (saved.sysAuthMethod.map AuthMethod.text).getD [] = m.text
    rw [stored]
    rfl
  unfold buildSysOptions
  rw [sent, given]
  exact selected.symm

theorem system_same (tls : secured saved.started = secured (saved.posted generated)) :
    systemOptions saved.started = systemOptions (saved.posted generated) := by
  have sent : (saved.posted generated).sysAuthMethod = ((systemMethod saved).map AuthMethod.text).getD [] := rfl
  have given : saved.started.sysAuthMethod = (saved.sysAuthMethod.map AuthMethod.text).getD [] := rfl
  have noneAtAll : systemMethod saved = none → (saved.sysAuthMethod = none ∨ saved.sysAuthMethod = some .none) →
      systemOptions saved.started = systemOptions (saved.posted generated) := by
    rintro chosen (stored | stored)
    · unfold systemOptions
      rw [sent, given, chosen, stored]
      rfl
    · unfold systemOptions
      rw [sent, given, chosen, stored]
      rfl
  cases stored : saved.sysAuthMethod with
  | none => exact noneAtAll (by simp [systemMethod, stored]) (Or.inl stored)
  | some m =>
    by_cases off : m = .none
    · subst off
      exact noneAtAll (by simp [systemMethod, stored, Option.filter]) (Or.inr stored)
    · have chosen : systemMethod saved = some m := by simp [systemMethod, stored, Option.filter, off]
      have options : buildSysOptions saved.started = buildSysOptions (saved.posted generated) := by
        have auth := sysAuth_same saved generated chosen stored
        unfold buildSysOptions at auth ⊢
        rw [tls]
        exact congrArg (Options.mk · _) auth
      unfold systemOptions
      rw [sent, given, chosen, stored, options]

/-- What makes the two ways agree: a name, no bastion, no TLS material while TLS is off nor any that
the two trims differ on, no blanks around the JetStream prefix or domain in force, and no system
topic without a pattern. -/
structure OpensAlike : Prop where
  named : saved.name = [] → saved.servers.headD [] = []
  direct : saved.sshEnabled.getD false = true → strings.trimSpace (trim (saved.sshHost.getD [])) = []
  plain : saved.tls.getD false = false → ∀ text ∈ [saved.tlsCa, saved.tlsCert, saved.tlsKey], text.getD [] = []
  material : saved.tls.getD false = true → ∀ text ∈ [saved.tlsCa, saved.tlsCert, saved.tlsKey],
    strings.trimSpace (trim (text.getD [])) = strings.trimSpace (text.getD [])
  apiPrefix : trim (saved.jsApiPrefix.getD []) = saved.jsApiPrefix.getD []
  domain : saved.jsApiPrefix.getD [] = [] → trim (saved.jsDomain.getD []) = saved.jsDomain.getD []
  listens : saved.subscriptions = [] → ∀ st, (saved.sysTopics st).getD false = false

theorem secured_iff :
    secured saved.started = secured (saved.posted generated) ↔
      (saved.tls.getD false = false → ∀ text ∈ [saved.tlsCa, saved.tlsCert, saved.tlsKey], text.getD [] = []) ∧
        (saved.tls.getD false = true → ∀ text ∈ [saved.tlsCa, saved.tlsCert, saved.tlsKey],
          strings.trimSpace (trim (text.getD [])) = strings.trimSpace (text.getD [])) := by
  cases tls : saved.tls.getD false with
  | false => simpa using secured_off saved generated tls
  | true => simpa using secured_on saved generated tls

theorem opening_iff : opening saved.started = opening (saved.posted generated) ↔ OpensAlike saved := by
  have name := name_iff saved generated
  have bastion := bastion_iff saved generated
  have tls := secured_iff saved generated
  have jetStream := jetStream_iff saved generated
  have patterns := @patterns_iff saved generated
  have auth := auth_same saved generated
  constructor
  · intro same
    have options : buildOptions saved.started = buildOptions (saved.posted generated) := congrArg Opening.api same
    have tlsAlike := tls.mp (congrArg Options.tls options)
    have jetStreamAlike := jetStream.mp (congrArg Opening.jetStream same)
    exact {
      named := name.mp (congrArg Opening.name same)
      direct := bastion.mp (congrArg Opening.bastion same)
      plain := tlsAlike.1
      material := tlsAlike.2
      apiPrefix := jetStreamAlike.1
      domain := jetStreamAlike.2
      listens := patterns.mp (congrArg Opening.patterns same) }
  · intro alike
    have tlsSame := tls.mpr ⟨alike.plain, alike.material⟩
    have options : buildOptions saved.started = buildOptions (saved.posted generated) := by
      unfold buildOptions at auth ⊢
      rw [tlsSame]
      exact congrArg (Options.mk · _) auth
    have servers : normalizeServers saved.started.servers = normalizeServers (saved.posted generated).servers := rfl
    exact Opening.mk.injEq .. ▸ ⟨servers, name.mpr alike.named, bastion.mpr alike.direct, options, options,
      system_same saved generated tlsSame, jetStream.mpr ⟨alike.apiPrefix, alike.domain⟩,
      monitoring_same saved generated _, patterns.mpr alike.listens⟩

end Comparison

section Claim
variable [Tables]

/-- Every list of saved connections: those opened at the start open as from the dialog, exactly when
each of them has what the two ways read alike. -/
theorem opened_iff (items : List SavedConnection) (reopen : List Str) (generated : Str) :
    (autoConnectSaved reopen (items.map fun saved => stringify saved.fields)).map (some ∘ opening) =
        (items.filter (opensAtStart reopen)).map (fun saved =>
          (connectRequest generated (stringify (toConnectionConfig saved).fields)).map opening) ↔
      ∀ saved ∈ items, opensAtStart reopen saved = true → OpensAlike saved := by
  rw [autoConnectSaved_eq, List.map_map, List.map_inj_left]
  simp only [connectRequest_eq, List.mem_filter, and_imp, Function.comp_apply, Option.map_some, Option.some.injEq]
  exact forall_congr' fun saved => forall_congr' fun _ => forall_congr' fun _ => opening_iff saved generated

end Claim

/-- A connection through a bastion opens without it. -/
def throughBastion : SavedConnection :=
  { newSavedConnection "leaf".toList with
    name := "leaf".toList
    autoConnect := some true
    sshEnabled := some true
    sshHost := some "bastion".toList
    sshUser := some "nats".toList
    sshPassword := some "secret".toList }

theorem bastion_dropped :
    (autoConnectSaved [] [stringify throughBastion.fields]).map (some ∘ @opening asciiTables) ≠
      [(connectRequest [] (stringify (toConnectionConfig throughBastion).fields)).map (@opening asciiTables)] := by
  intro same
  have started := autoConnectSaved_eq [] [throughBastion]
  rw [List.map_singleton] at started
  rw [started, connectRequest_eq] at same
  have both : some (@opening asciiTables throughBastion.started) = some (@opening asciiTables (throughBastion.posted [])) :=
    List.head_eq_of_cons_eq same
  let := asciiTables
  have alike := (opening_iff throughBastion []).mp (Option.some.inj both)
  exact absurd (OpensAlike.direct alike rfl) (by decide)

end NatsExplorer.Connection
