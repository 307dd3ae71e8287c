import NatsExplorer.Settings.Store

/-! What a change of the saved connections does to the secret store, and what it leaves
behind when it fails. -/
namespace NatsExplorer.Settings
open Go

/-- A connection as it is kept. -/
def stripConnection (c : Connection) : Connection :=
  match c with
  | none => none
  | some entries => if idOf c = [] then c else some (takeSecrets secretFields entries).1

/-- What a connection asks of the secret store; one without an id asks nothing. -/
def operationOf (c : Connection) : Option Operation :=
  match c with
  | none => none
  | some entries =>
    if idOf c = [] then none
    else if (takeSecrets secretFields entries).2.entries = [] then some (.delete (secretPrefix ++ idOf c))
    else some (.set (secretPrefix ++ idOf c) (some (marshalObject (takeSecrets secretFields entries).2)))

/-- What is asked of the secret store when these connections replace the current value. -/
def operations (current : Option json.Value) (conns : List Connection) : List Operation :=
  conns.filterMap operationOf ++
    ((connectionIDs current).filter (· ∉ idsOf conns)).map fun id => .delete (secretPrefix ++ id)

section Split
variable {current : Option json.Value} {conns : List Connection} {raw : json.Value}

theorem splitConnection_eq (c : Connection) : splitConnection c =
    (do forM (operationOf c).toList Operation.perform; pure (stripConnection c)) := by
  cases c with
  | none => rfl
  | some entries =>
    unfold splitConnection operationOf stripConnection
    by_cases anonymous : idOf (some entries) = []
    · simp only [if_pos anonymous, Option.toList_none, List.forM_nil, pure_bind]
    · by_cases bare : (takeSecrets secretFields entries).2.entries = []
      · simp only [if_neg anonymous, if_pos bare, Option.toList_some, List.forM_cons, List.forM_nil, bind_assoc, pure_bind]
      · simp only [if_neg anonymous, if_neg bare, Option.toList_some, List.forM_cons, List.forM_nil, bind_assoc, pure_bind]

theorem mapM_splitConnection (conns : List Connection) : conns.mapM splitConnection =
    (do forM (conns.filterMap operationOf) Operation.perform; pure (conns.map stripConnection)) := by
  induction conns with
  | nil => rfl
  | cons c conns ih =>
    rw [List.mapM_cons, ih, splitConnection_eq]
    cases asked : operationOf c with
    | none => simp [asked]
    | some op => simp [asked]

theorem forM_deletes (ids seen : List Str) :
    (forM ids fun id => do if id ∉ seen then Operation.perform (.delete (secretPrefix ++ id))) =
      forM ((ids.filter (· ∉ seen)).map fun id => Operation.delete (secretPrefix ++ id)) Operation.perform := by
  induction ids with
  | nil => rfl
  | cons id ids ih =>
    rw [List.forM_cons, ih]
    by_cases gone : id ∈ seen
    · simp [gone]
    · simp [gone]

theorem splitSecrets_eq (parsed : parseConnections raw = .ok conns) : splitSecrets current raw =
    (do Faults.sequence Operation.act Operation.wrap (operations current conns)
        pure (marshalConnections (conns.map stripConnection))) := by
  unfold splitSecrets operations
  rw [parsed, Faults.sequence_append]
  simp only [mapM_splitConnection, forM_deletes, bind_assoc, pure_bind]
  rfl

end Split

/-- What is done to the secrets. -/
def after (ops : List Operation) (secrets : Secrets) : Secrets := Faults.after Operation.act ops secrets

namespace Store

/-- What a call asks of the secret store. -/
def asked (s : Store) (conns : List Connection) : List Operation := operations (s.get connectionsKey) conns

section Set
variable {s : Store} {f : Failures} {key : Str} {raw : json.Value} {conns : List Connection}

theorem set_refused (refused : keyPattern key = false) (value : Text) : (s.set f key value).2 = s := by
  unfold set
  rw [refused]
  rfl

theorem set_plain (valid : keyPattern key = true) (plain : key ≠ connectionsKey) (value : json.Value) :
    s.set f key (some value) = save { s with entries := s.entries.insert key value } f.save := by
  unfold set
  rw [valid]
  exact if_neg plain

theorem set_split (s : Store) (f : Failures) (raw : json.Value) : s.set f connectionsKey (some raw) =
    match splitSecrets (s.get connectionsKey) raw ⟨s.secrets, f.secrets⟩ with
    | .error e world => (some e, { s with secrets := world.state })
    | .ok stripped world =>
      save { s with secrets := world.state, entries := s.entries.insert connectionsKey stripped } f.save := by
  have valid : keyPattern connectionsKey = true := by decide
  unfold set
  rw [valid, Bool.not_true, if_neg Bool.false_ne_true]
  exact if_pos rfl

theorem set_shape {e : String} (unparsed : parseConnections raw = .error e) :
    s.set f connectionsKey (some raw) = (some e, s) := by
  have split : splitSecrets (s.get connectionsKey) raw = throw e := by
    unfold splitSecrets
    rw [unparsed]
  rw [set_split, split]
  rfl

theorem set_interrupted {op : Operation} {e : String} (parsed : parseConnections raw = .ok conns)
    (failed : (Faults.passed (s.asked conns) f.secrets).2 = some (op, e)) : s.set f connectionsKey (some raw) =
      (some (op.wrap e), { s with secrets := after (Faults.passed (s.asked conns) f.secrets).1 s.secrets }) := by
  obtain ⟨faults, result⟩ := @Faults.sequence_failed _ _ _ Operation.act Operation.wrap _ s.secrets _ _ _ failed
  rw [set_split, splitSecrets_eq parsed]
  unfold asked at result ⊢
  simp only [bind, EStateM.bind, result]
  rfl

theorem set_connections (parsed : parseConnections raw = .ok conns)
    (done : (Faults.passed (s.asked conns) f.secrets).2 = none) : s.set f connectionsKey (some raw) =
      save { s with
        secrets := after (s.asked conns) s.secrets
        entries := s.entries.insert connectionsKey (marshalConnections (conns.map stripConnection)) } f.save := by
  obtain ⟨faults, result⟩ := @Faults.sequence_done _ _ _ Operation.act Operation.wrap _ s.secrets _ done
  rw [set_split, splitSecrets_eq parsed]
  unfold asked at result ⊢
  simp only [bind, EStateM.bind, result]
  rfl

end Set

/-- The answers of two stores are the same. -/
structure Same (s t : Store) : Prop where
  get : ∀ key, t.get key = s.get key
  all : ∀ key, t.all.map (·.lookup key) = s.all.map (·.lookup key)

/-- What the next process opens. -/
def restart (s : Store) : Store := openStore s.file s.secrets

/-- A call that fails changes no answer, of this process or of the next. -/
def AllOrNothing (s : Store) (f : Failures) (key : Str) (value : Text) : Prop :=
  ∀ e t, s.set f key value = (some e, t) → Same s t ∧ Same s.restart t.restart

/-- The operations that were done leave each of these connections as it is read. -/
def Keeps (s : Store) (done : List Operation) (entries : Entries) : Prop :=
  ∀ raw conns, entries.lookup connectionsKey = some raw → parseConnections raw = .ok conns → ∀ c ∈ conns,
    marshalConnection (mergeConnection (after done s.secrets) c) = marshalConnection (mergeConnection s.secrets c)

/-- The connections in memory and those in the file. -/
def KeepsBoth (s : Store) (done : List Operation) : Prop :=
  s.Keeps done s.entries ∧ s.Keeps done (s.file.getD ∅)

/-- What is done before the step that fails, if any, changes nothing that is read. -/
def Harmless (s : Store) (f : Failures) (key : Str) (value : json.Value) : Prop :=
  if key = connectionsKey then
    ∀ conns, parseConnections value = .ok conns →
      if (Faults.passed (s.asked conns) f.secrets).2.isSome then s.KeepsBoth (Faults.passed (s.asked conns) f.secrets).1
      else f.save.isSome → s.KeepsBoth (s.asked conns) ∧
        s.get key = some (marshalConnections (conns.map stripConnection))
  else f.save.isSome → s.get key = some value

section Same
variable {s t u : Store} {f : Failures} {key : Str} {raw value : json.Value} {conns : List Connection}

theorem Same.symm (same : Same s t) : Same t s := ⟨fun key => (same.get key).symm, fun key => (same.all key).symm⟩

theorem Same.trans (first : Same s t) (second : Same t u) : Same s u :=
  ⟨fun key => (second.get key).trans (first.get key), fun key => (second.all key).trans (first.all key)⟩

theorem get_insert (s : Store) (key : Str) (value : json.Value) (other : Str) :
    get { s with entries := s.entries.insert key value } other = if other = key then some value else s.get other := by
  split
  · rename_i same
    rw [same]
    exact AList.lookup_insert _
  · rename_i different
    exact AList.lookup_insert_ne different

theorem all_lookup (s : Store) (key : Str) : s.all.map (·.lookup key) =
    match s.get connectionsKey with
    | none => .ok (s.get key)
    | some raw => (mergeSecrets s.secrets raw).map fun merged => if key = connectionsKey then some merged else s.get key := by
  unfold all
  cases current : s.entries.lookup connectionsKey with
  | none =>
    have absent : s.get connectionsKey = none := current
    rw [absent]
    rfl
  | some raw =>
    have present : s.get connectionsKey = some raw := current
    rw [present]
    dsimp only
    cases merging : mergeSecrets s.secrets raw with
    | error e => rfl
    | ok merged => exact congrArg Except.ok (get_insert s connectionsKey merged key)

theorem same_of_get (get : ∀ key, t.get key = s.get key) (secrets : t.secrets = s.secrets) : Same s t := by
  refine ⟨get, fun key => ?_⟩
  rw [all_lookup, all_lookup, get connectionsKey, get key, secrets]

/-- A value that is there already changes nothing in memory. -/
theorem same_insert_iff : Same s { s with entries := s.entries.insert key value } ↔ s.get key = some value := by
  constructor
  · intro same
    rw [← same.get key, get_insert, if_pos rfl]
  · intro present
    refine same_of_get (fun other => ?_) rfl
    rw [get_insert]
    split
    · rename_i same
      rw [same, present]
    · rfl

theorem same_secrets_iff {done : List Operation} :
    Same s { s with secrets := after done s.secrets } ↔ s.Keeps done s.entries := by
  have gets (key : Str) : get { s with secrets := after done s.secrets } key = s.get key := rfl
  constructor
  · intro same raw conns (present : s.get connectionsKey = some raw) parsed
    have merged := same.all connectionsKey
    rw [all_lookup, all_lookup, gets, present] at merged
    dsimp only at merged
    unfold mergeSecrets at merged
    rw [parsed] at merged
    simp only [bind, Except.bind, pure, Except.pure, Except.map, if_true, Except.ok.injEq, Option.some.injEq,
      marshalConnections, json.Value.array.injEq, List.map_map] at merged
    exact List.map_inj_left.mp merged
  · intro keeps
    refine ⟨gets, fun key => ?_⟩
    rw [all_lookup, all_lookup, gets, gets]
    cases present : s.get connectionsKey with
    | none => rfl
    | some raw =>
      dsimp only
      unfold mergeSecrets
      cases parsed : parseConnections raw with
      | error e => rfl
      | ok conns =>
        have merged : (conns.map (mergeConnection (after done s.secrets))).map marshalConnection =
            (conns.map (mergeConnection s.secrets)).map marshalConnection := by
          rw [List.map_map, List.map_map]
          exact List.map_inj_left.mpr (keeps raw conns present parsed)
        simp only [bind, Except.bind, pure, Except.pure, marshalConnections, merged]

theorem same_replaced_iff {done : List Operation} :
    Same s { s with secrets := after done s.secrets, entries := s.entries.insert key value } ↔
      s.Keeps done s.entries ∧ s.get key = some value := by
  have replaced : Same { s with secrets := after done s.secrets }
      { s with secrets := after done s.secrets, entries := s.entries.insert key value } ↔ s.get key = some value :=
    same_insert_iff
  constructor
  · intro same
    have present : s.get key = some value := by
      rw [← same.get key]
      exact AList.lookup_insert _
    exact ⟨same_secrets_iff.mp (same.trans (replaced.mpr present).symm), present⟩
  · rintro ⟨keeps, present⟩
    exact (same_secrets_iff.mpr keeps).trans (replaced.mpr present)

/-- The file is as it was, and so what the next process reads depends on the secrets alone. -/
theorem restart_iff {done : List Operation} {entries : Entries} :
    Same s.restart (restart { s with secrets := after done s.secrets, entries := entries }) ↔
      s.Keeps done (s.file.getD ∅) :=
  same_secrets_iff (s := s.restart)

theorem allOrNothing_done {t : Store} (result : s.set f key (some value) = (none, t)) :
    s.AllOrNothing f key (some value) := by
  intro e u failed
  rw [result] at failed
  cases failed

theorem allOrNothing_failed {e : String} (result : s.set f key (some value) = (some e, t)) :
    s.AllOrNothing f key (some value) ↔ Same s t ∧ Same s.restart t.restart := by
  constructor
  · intro whole
    exact whole e t result
  · intro same e u failed
    rw [result] at failed
    cases failed
    exact same

/-- An ordinary entry, which only the file can refuse. -/
theorem plain_iff (valid : keyPattern key = true) (plain : key ≠ connectionsKey) :
    s.AllOrNothing f key (some value) ↔ s.Harmless f key value := by
  have result := set_plain (s := s) (f := f) valid plain value
  unfold Harmless
  rw [if_neg plain]
  cases failure : f.save with
  | none =>
    rw [failure] at result
    exact iff_of_true (allOrNothing_done result) nofun
  | some e =>
    rw [failure] at result
    rw [allOrNothing_failed result, same_insert_iff]
    exact ⟨fun both _ => both.1, fun present => ⟨present rfl, same_of_get (fun _ => rfl) rfl⟩⟩

/-- The saved connections, where the secret store and the file can. -/
theorem connections_iff (f : Failures) (value : json.Value) :
    s.AllOrNothing f connectionsKey (some value) ↔ s.Harmless f connectionsKey value := by
  unfold Harmless
  rw [if_pos rfl]
  cases parsed : parseConnections value with
  | error e =>
    rw [allOrNothing_failed (set_shape parsed)]
    exact iff_of_true ⟨same_of_get (fun _ => rfl) rfl, same_of_get (fun _ => rfl) rfl⟩ nofun
  | ok conns =>
    have only (P : List Connection → Prop) : (∀ conns', Except.ok (ε := String) conns = .ok conns' → P conns') ↔ P conns :=
      ⟨fun all => all conns rfl, fun one _ same => Except.ok.inj same ▸ one⟩
    rw [only]
    cases failed : (Faults.passed (s.asked conns) f.secrets).2 with
    | some failure =>
      rw [allOrNothing_failed (set_interrupted parsed failed), if_pos (Option.isSome_some (a := failure))]
      exact and_congr same_secrets_iff restart_iff
    | none =>
      have result := set_connections parsed failed
      rw [if_neg (by rw [Option.isSome_none]; exact Bool.false_ne_true)]
      cases failure : f.save with
      | none =>
        rw [failure] at result
        exact iff_of_true (allOrNothing_done result) nofun
      | some e =>
        rw [failure] at result
        rw [allOrNothing_failed result, restart_iff]
        rw [same_replaced_iff]
        exact ⟨fun same _ => ⟨⟨same.1.1, same.2⟩, same.1.2⟩,
          fun same => ⟨⟨(same rfl).1.1, (same rfl).2⟩, (same rfl).1.2⟩⟩

end Same

end Store
end NatsExplorer.Settings
