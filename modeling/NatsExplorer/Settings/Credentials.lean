import NatsExplorer.Library.Transition
import NatsExplorer.Settings.Saving

/-! Credentials stay out of the settings file and come back: what is kept of a list of
connections, what is read back of it, and what the secret store holds after any edits. -/
namespace NatsExplorer.Settings
open Go

section Objects
variable {fields : List (Str × json.Value)} {c secrets : Entries} {k : Str} {v : json.Value}

theorem insertAll_absent (absent : k ∉ fields.map Prod.fst) : (insertAll c fields).lookup k = c.lookup k := by
  induction fields generalizing c with
  | nil => rfl
  | cons field fields ih =>
    rw [List.map_cons, List.mem_cons, not_or] at absent
    exact (ih absent.2).trans (AList.lookup_insert_ne absent.1)

theorem insertAll_present (nodup : (fields.map Prod.fst).Nodup) (present : (k, v) ∈ fields) :
    (insertAll c fields).lookup k = some v := by
  induction fields generalizing c with
  | nil => cases present
  | cons field fields ih =>
    rw [List.map_cons, List.nodup_cons] at nodup
    rcases List.mem_cons.mp present with rfl | later
    · exact (insertAll_absent nodup.1).trans (AList.lookup_insert c)
    · exact ih nodup.2 later

theorem fieldsOf_keys (c : Entries) : (fieldsOf c).map Prod.fst = c.keys := by
  unfold fieldsOf
  rw [List.map_map]
  rfl

theorem mem_fieldsOf : (k, v) ∈ fieldsOf c ↔ c.lookup k = some v := by
  rw [← Option.mem_def, AList.mem_lookup_iff]
  unfold fieldsOf
  constructor
  · intro listed
    obtain ⟨field, member, same⟩ := List.mem_map.mp listed
    cases same
    exact member
  · intro member
    exact List.mem_map.mpr ⟨⟨k, v⟩, member, rfl⟩

/-- Any order of the fields of one map makes the same of another. -/
theorem insertAll_perm (same : fields.Perm (fieldsOf secrets)) (c : Entries) (k : Str) :
    (insertAll c fields).lookup k = (secrets.lookup k).or (c.lookup k) := by
  have keys : (fields.map Prod.fst).Perm secrets.keys := by
    rw [← fieldsOf_keys]
    exact same.map _
  cases present : secrets.lookup k with
  | some v => exact insertAll_present (keys.nodup_iff.mpr secrets.keys_nodup) (same.mem_iff.mpr (mem_fieldsOf.mpr present))
  | none =>
    refine insertAll_absent fun listed => ?_
    exact AList.lookup_eq_none.mp present (keys.mem_iff.mp listed)

/-- A connection as it is read back from its text. -/
def reread (c : Connection) : Connection :=
  c.map fun entries => parseObject ((fieldsOf entries).mergeSort fun a b => a.1 ≤ b.1)

theorem parseObject_lookup (same : fields.Perm (fieldsOf c)) (k : Str) : (parseObject fields).lookup k = c.lookup k := by
  unfold parseObject
  rw [insertAll_perm same, AList.lookup_empty, Option.or_none]

theorem parse_marshal (c : Connection) : parseConnection (marshalConnection c) = some (reread c) := by
  cases c <;> rfl

theorem parseConnections_marshal (conns : List Connection) :
    parseConnections (marshalConnections conns) = .ok (conns.map reread) := by
  have items : (conns.map marshalConnection).mapM parseConnection = some (conns.map reread) := by
    induction conns with
    | nil => rfl
    | cons c conns ih => simp [parse_marshal, ih]
  unfold parseConnections marshalConnections
  dsimp only
  rw [items]

end Objects

/-- A value worth keeping as a credential. -/
def credential (v : json.Value) : Bool := !emptyCredential v

section Split
variable {fields : List Str} {c secrets : Entries} {k : Str}

theorem takeSecret_rest (taken : Entries × Entries) (f k : Str) :
    (takeSecret taken f).1.lookup k = if k = f then none else taken.1.lookup k := by
  unfold takeSecret
  by_cases same : k = f
  · rw [if_pos same, same]
    cases present : taken.1.lookup f with
    | none => exact present
    | some v => exact AList.lookup_erase f taken.1
  · rw [if_neg same]
    cases present : taken.1.lookup f with
    | none => rfl
    | some v => exact AList.lookup_erase_ne same

theorem takeSecret_taken (taken : Entries × Entries) (f k : Str) : (takeSecret taken f).2.lookup k =
    (if k = f then (taken.1.lookup k).filter credential else none).or (taken.2.lookup k) := by
  unfold takeSecret
  by_cases same : k = f
  · rw [if_pos same, same]
    cases present : taken.1.lookup f with
    | none => rfl
    | some v => cases empty : emptyCredential v <;> simp [empty, credential, Option.filter]
  · rw [if_neg same, Option.none_or]
    cases present : taken.1.lookup f with
    | none => rfl
    | some v => cases empty : emptyCredential v <;> simp [empty, AList.lookup_insert_ne same]

/-- The loop over the credential fields, from any state of it. -/
theorem takeSecrets_loop (fields : List Str) (taken : Entries × Entries) (k : Str) :
    (fields.foldl takeSecret taken).1.lookup k = (if k ∈ fields then none else taken.1.lookup k) ∧
      (fields.foldl takeSecret taken).2.lookup k =
        (if k ∈ fields then (taken.1.lookup k).filter credential else none).or (taken.2.lookup k) := by
  induction fields generalizing taken with
  | nil => exact ⟨rfl, rfl⟩
  | cons f fields ih =>
    rw [List.foldl_cons, (ih (takeSecret taken f)).1, (ih (takeSecret taken f)).2, takeSecret_rest, takeSecret_taken]
    by_cases here : k = f
    · simp [here]
    · simp [here]

theorem takeSecrets_rest : (takeSecrets fields c).1.lookup k = if k ∈ fields then none else c.lookup k :=
  (takeSecrets_loop fields (c, ∅) k).1

theorem takeSecrets_taken :
    (takeSecrets fields c).2.lookup k = if k ∈ fields then (c.lookup k).filter credential else none := by
  rw [← Option.or_none (o := if k ∈ fields then (c.lookup k).filter credential else none)]
  exact (takeSecrets_loop fields (c, ∅) k).2

/-- The id is none of the credentials. -/
theorem id_kept : (takeSecrets secretFields c).1.lookup "id".toList = c.lookup "id".toList := by
  have other : "id".toList ∉ secretFields := by decide
  rw [takeSecrets_rest, if_neg other]

theorem idOf_congr {c d : Entries} (same : d.lookup "id".toList = c.lookup "id".toList) : idOf (some d) = idOf (some c) := by
  unfold idOf
  rw [Option.bind_some, Option.bind_some, same]

theorem idOf_strip (c : Connection) : idOf (stripConnection c) = idOf c := by
  cases c with
  | none => rfl
  | some entries =>
    unfold stripConnection
    dsimp only
    split
    · rfl
    · exact idOf_congr id_kept

theorem idOf_reread (c : Connection) : idOf (reread c) = idOf c := by
  cases c with
  | none => rfl
  | some entries => exact idOf_congr (parseObject_lookup (List.mergeSort_perm _ _) _)

end Split

/-- What the secret store has for a connection once it is kept. -/
def secretOf (entries : Entries) : Option Text :=
  if (takeSecrets secretFields entries).2.entries = [] then none
  else some (some (marshalObject (takeSecrets secretFields entries).2))

/-- A field as it comes back: a credential where it is not empty, any other as it is. -/
def backField (c : Entries) (k : Str) : Option json.Value :=
  if k ∈ secretFields then (c.lookup k).filter credential else c.lookup k

section Merge
variable {secrets : Secrets} {c kept : Entries}

/-- What was taken out of a connection is put back. -/
theorem merge_back (named : idOf (some c) ≠ []) (stored : secrets.lookup (secretPrefix ++ idOf (some c)) = secretOf c)
    (same : ∀ k, kept.lookup k = (takeSecrets secretFields c).1.lookup k) :
    ∃ back, mergeConnection secrets (some kept) = some back ∧ ∀ k, back.lookup k = backField c k := by
  have id : idOf (some kept) = idOf (some c) := idOf_congr ((same _).trans id_kept)
  unfold mergeConnection
  dsimp only
  rw [id, if_neg named, stored]
  unfold secretOf backField
  by_cases bare : (takeSecrets secretFields c).2.entries = []
  · rw [if_pos bare]
    refine ⟨kept, rfl, fun k => ?_⟩
    have nothing : (takeSecrets secretFields c).2.lookup k = none := by
      rw [AList.lookup_eq_none, AList.mem_keys]
      unfold AList.keys
      rw [bare]
      exact List.not_mem_nil
    rw [takeSecrets_taken] at nothing
    rw [same, takeSecrets_rest]
    split
    · rename_i field
      rw [if_pos field] at nothing
      exact nothing.symm
    · rfl
  · rw [if_neg bare]
    refine ⟨_, rfl, fun k => ?_⟩
    rw [insertAll_perm (.refl _), parseObject_lookup (List.mergeSort_perm _ _), takeSecrets_taken, same, takeSecrets_rest]
    split
    · rw [Option.or_none]
    · rw [Option.none_or]

end Merge

section Operations
variable {ops : List Operation} {secrets : Secrets} {conns : List Connection} {key id : Str} {c : Entries}

/-- What no operation is about stays as it is. -/
theorem after_frame (other : ∀ op ∈ ops, op.key ≠ key) : (after ops secrets).lookup key = secrets.lookup key := by
  refine Faults.after_unchanged (fun secrets : Secrets => secrets.lookup key) fun op member secrets => ?_
  have different : key ≠ op.key := (other op member).symm
  cases op with
  | set key' value => exact AList.lookup_insert_ne different
  | delete key' => exact AList.lookup_erase_ne different

theorem after_deletes (ids : List Str) (secrets : Secrets) (id : Str) :
    (after (ids.map fun id => .delete (secretPrefix ++ id)) secrets).lookup (secretPrefix ++ id) =
      if id ∈ ids then none else secrets.lookup (secretPrefix ++ id) := by
  induction ids generalizing secrets with
  | nil => rfl
  | cons first ids ih =>
    have rest := ih (secrets.erase (secretPrefix ++ first))
    rw [List.map_cons]
    refine rest.trans ?_
    by_cases same : id = first
    · rw [same, AList.lookup_erase, if_pos List.mem_cons_self, ite_self]
    · have other : secretPrefix ++ id ≠ secretPrefix ++ first := fun equal => same (List.append_cancel_left equal)
      rw [AList.lookup_erase_ne other]
      simp [same]

/-- An operation asked by a connection is about its own secret. -/
theorem key_operationOf {c : Connection} {op : Operation} (asked : operationOf c = some op) :
    op.key = secretPrefix ++ idOf c ∧ idOf c ≠ [] := by
  cases c with
  | none => cases asked
  | some entries =>
    unfold operationOf at asked
    dsimp only at asked
    split_ifs at asked with anonymous bare <;> cases asked <;> exact ⟨rfl, anonymous⟩

theorem mem_idsOf : id ∈ idsOf conns ↔ id ≠ [] ∧ ∃ c ∈ conns, idOf c = id := by
  unfold idsOf
  rw [List.mem_filter, List.mem_map, decide_eq_true_eq]
  exact and_comm

theorem keys_asked {op : Operation} (member : op ∈ conns.filterMap operationOf) :
    ∃ id ∈ idsOf conns, op.key = secretPrefix ++ id := by
  obtain ⟨c, listed, asked⟩ := List.mem_filterMap.mp member
  obtain ⟨key, named⟩ := key_operationOf asked
  exact ⟨idOf c, mem_idsOf.mpr ⟨named, c, listed, rfl⟩, key⟩

theorem after_other (other : id ∉ idsOf conns) :
    (after (conns.filterMap operationOf) secrets).lookup (secretPrefix ++ id) = secrets.lookup (secretPrefix ++ id) := by
  refine after_frame fun op member same => other ?_
  obtain ⟨asked, listed, key⟩ := keys_asked member
  rw [key] at same
  rwa [← List.append_cancel_left same]

theorem after_own (named : idOf (some c) ≠ []) :
    (after (operationOf (some c)).toList secrets).lookup (secretPrefix ++ idOf (some c)) = secretOf c := by
  unfold operationOf secretOf
  dsimp only
  rw [if_neg named]
  split
  · exact AList.lookup_erase _ secrets
  · exact AList.lookup_insert secrets

/-- Where no two connections share an id, each ends up with its own credentials. -/
theorem after_stored (unique : (conns.map idOf).Nodup) (member : some c ∈ conns) (named : idOf (some c) ≠ []) :
    (after (conns.filterMap operationOf) secrets).lookup (secretPrefix ++ idOf (some c)) = secretOf c := by
  induction conns generalizing secrets with
  | nil => cases member
  | cons first conns ih =>
    rw [List.map_cons, List.nodup_cons] at unique
    have split : after ((first :: conns).filterMap operationOf) secrets =
        after (conns.filterMap operationOf) (after (operationOf first).toList secrets) := by
      unfold after
      rw [← Faults.after_append]
      cases asked : operationOf first with
      | none => rw [List.filterMap_cons_none asked]; rfl
      | some op => rw [List.filterMap_cons_some asked]; rfl
    rw [split]
    rcases List.mem_cons.mp member with rfl | later
    · rw [after_other, after_own named]
      intro again
      obtain ⟨-, d, listed, same⟩ := mem_idsOf.mp again
      exact unique.1 (List.mem_map.mpr ⟨d, listed, same⟩)
    · exact ih unique.2 later

end Operations

/-- One accepted call. -/
inductive Edit where
  | set (key : Str) (value : json.Value)
  | delete (key : Str)

/-- The call returns no error. -/
def Accepted (s : Store) : Edit → Store → Prop
  | .set key value, t => ∃ f, s.set f key (some value) = (none, t)
  | .delete key, t => ∃ f, s.delete f key = (none, t)

/-- The connections as they were last given. -/
def lastValue (edits : List Edit) : Option json.Value :=
  edits.foldl (fun last edit =>
    match edit with
    | .set key value => if key = connectionsKey then some value else last
    | .delete key => if key = connectionsKey then none else last) none

/-- No field for credentials has one. -/
def BareEntries (c : Entries) : Prop := ∀ f ∈ secretFields, ∀ v, c.lookup f = some v → emptyCredential v = true

def Bare (raw : json.Value) : Prop :=
  ∀ conns, parseConnections raw = .ok conns → ∀ c, some c ∈ conns → BareEntries c

/-- A connection comes back but for its empty credentials. -/
def Back : Connection → Connection → Prop
  | none, none => True
  | some c, some back => ∀ k, back.lookup k = backField c k
  | _, _ => False

/-- Ids are not empty, and no two are the same. -/
def Unique (conns : List Connection) : Prop := (∀ c ∈ conns, idOf c ≠ []) ∧ (conns.map idOf).Nodup

/-- The credentials are out of what is kept, come back, and are gone with their connection. -/
structure Kept (last : Option json.Value) (s : Store) : Prop where
  memory : ∀ w, s.get connectionsKey = some w → Bare w
  file : ∀ entries, s.file = some entries → ∀ w, entries.lookup connectionsKey = some w → Bare w
  back : ∀ v conns, last = some v → parseConnections v = .ok conns → Unique conns →
    ∃ w back, s.all.map (·.lookup connectionsKey) = .ok (some w) ∧ parseConnections w = .ok back ∧
      List.Forall₂ Back conns back
  gone : ∀ id, s.secrets.lookup (secretPrefix ++ id) ≠ none →
    ∃ v conns, last = some v ∧ parseConnections v = .ok conns ∧ id ∈ idsOf conns

/-- A connection without an id has no credentials. -/
def Named (v : json.Value) : Prop :=
  ∀ conns, parseConnections v = .ok conns → ∀ c, some c ∈ conns → idOf (some c) = [] → BareEntries c

namespace Store

/-- What holds between the calls, with the connections last given. -/
structure Holds (last : Option (List Connection)) (s : Store) : Prop where
  current : s.get connectionsKey = last.map fun conns => marshalConnections (conns.map stripConnection)
  file : s.file = some s.entries ∨ s.file = none
  stored : ∀ conns, last = some conns → (conns.map idOf).Nodup → ∀ c, some c ∈ conns → idOf (some c) ≠ [] →
    s.secrets.lookup (secretPrefix ++ idOf (some c)) = secretOf c
  gone : ∀ id, s.secrets.lookup (secretPrefix ++ id) ≠ none → id ∈ idsOf (last.getD [])

section Steps
variable {s t : Store} {f : Failures} {key : Str} {value raw : json.Value} {last : Option (List Connection)}
  {conns : List Connection}

/-- What is kept of connections has their ids. -/
theorem idsOf_kept (conns : List Connection) : idsOf ((conns.map stripConnection).map reread) = idsOf conns := by
  unfold idsOf
  rw [List.map_map, List.map_map]
  refine congrArg _ (List.map_congr_left fun c _ => ?_)
  exact (idOf_reread _).trans (idOf_strip c)

theorem Holds.mem_ids {id : Str} (holds : Holds last s) :
    id ∈ connectionIDs (s.get connectionsKey) ↔ id ∈ idsOf (last.getD []) := by
  rw [holds.current]
  cases last with
  | none => exact iff_of_false List.not_mem_nil List.not_mem_nil
  | some conns =>
    unfold connectionIDs
    rw [Option.map_some, Option.map_some, parseConnections_marshal]
    dsimp only
    rw [List.mem_mergeSort, idsOf_kept]
    rfl

theorem save_accepted (saved : s.save f.save = (none, t)) : t = { s with file := some s.entries } := by
  unfold save at saved
  split at saved
  · cases congrArg Prod.fst saved
  · exact (congrArg Prod.snd saved).symm

theorem set_accepted (accepted : s.set f connectionsKey (some raw) = (none, t)) :
    ∃ conns, parseConnections raw = .ok conns ∧ t.secrets = after (s.asked conns) s.secrets ∧
      t.entries = s.entries.insert connectionsKey (marshalConnections (conns.map stripConnection)) ∧
      t.file = some t.entries := by
  cases parsed : parseConnections raw with
  | error e =>
    rw [set_shape parsed] at accepted
    cases congrArg Prod.fst accepted
  | ok conns =>
    cases failed : (Faults.passed (s.asked conns) f.secrets).2 with
    | some failure =>
      rw [set_interrupted parsed failed] at accepted
      cases congrArg Prod.fst accepted
    | none =>
      rw [set_connections parsed failed] at accepted
      obtain rfl := save_accepted accepted
      exact ⟨conns, rfl, rfl, rfl, rfl⟩

theorem set_plain_accepted (plain : key ≠ connectionsKey) (accepted : s.set f key (some value) = (none, t)) :
    t.secrets = s.secrets ∧ t.entries = s.entries.insert key value ∧ t.file = some t.entries := by
  cases valid : keyPattern key with
  | false =>
    unfold set at accepted
    rw [valid] at accepted
    cases congrArg Prod.fst accepted
  | true =>
    rw [set_plain valid plain] at accepted
    obtain rfl := save_accepted accepted
    exact ⟨rfl, rfl, rfl⟩

theorem delete_accepted (accepted : s.delete f connectionsKey = (none, t)) :
    t.secrets = after ((connectionIDs (s.get connectionsKey)).map fun id => .delete (secretPrefix ++ id)) s.secrets ∧
      t.entries = s.entries.erase connectionsKey ∧ t.file = some t.entries := by
  let ops : List Operation := (connectionIDs (s.get connectionsKey)).map fun id => .delete (secretPrefix ++ id)
  have sequence : forM (connectionIDs (s.get connectionsKey)) (fun id => Operation.perform (.delete (secretPrefix ++ id))) =
      Faults.sequence Operation.act Operation.wrap ops := by
    unfold Faults.sequence
    rw [List.forM_map]
    rfl
  unfold delete at accepted
  rw [if_pos rfl, sequence] at accepted
  cases failed : (Faults.passed ops f.secrets).2 with
  | some failure =>
    obtain ⟨faults, result⟩ := @Faults.sequence_failed _ _ _ Operation.act Operation.wrap ops s.secrets _ _ _ failed
    rw [result] at accepted
    cases congrArg Prod.fst accepted
  | none =>
    obtain ⟨faults, result⟩ := @Faults.sequence_done _ _ _ Operation.act Operation.wrap ops s.secrets _ failed
    rw [result] at accepted
    obtain rfl := save_accepted accepted
    exact ⟨rfl, rfl, rfl⟩

theorem delete_plain_accepted (plain : key ≠ connectionsKey) (accepted : s.delete f key = (none, t)) :
    t.secrets = s.secrets ∧ t.entries = s.entries.erase key ∧ t.file = some t.entries := by
  unfold delete at accepted
  rw [if_neg plain] at accepted
  obtain rfl := save_accepted accepted
  exact ⟨rfl, rfl, rfl⟩

/-- A call about another entry. -/
theorem Holds.other (holds : Holds last s) (secrets : t.secrets = s.secrets)
    (get : t.get connectionsKey = s.get connectionsKey) (file : t.file = some t.entries) : Holds last t where
  current := get.trans holds.current
  file := Or.inl file
  stored := by
    rw [secrets]
    exact holds.stored
  gone := by
    rw [secrets]
    exact holds.gone

theorem after_asked (s : Store) (conns : List Connection) (id : Str) :
    (after (s.asked conns) s.secrets).lookup (secretPrefix ++ id) =
      if id ∈ connectionIDs (s.get connectionsKey) ∧ id ∉ idsOf conns then none
      else (after (conns.filterMap operationOf) s.secrets).lookup (secretPrefix ++ id) := by
  have split : after (s.asked conns) s.secrets =
      after (((connectionIDs (s.get connectionsKey)).filter (· ∉ idsOf conns)).map fun id => .delete (secretPrefix ++ id))
        (after (conns.filterMap operationOf) s.secrets) := Faults.after_append ..
  rw [split, after_deletes]
  simp only [List.mem_filter, decide_eq_true_eq]

theorem Holds.set (holds : Holds last s) (secrets : t.secrets = after (s.asked conns) s.secrets)
    (entries : t.entries = s.entries.insert connectionsKey (marshalConnections (conns.map stripConnection)))
    (file : t.file = some t.entries) : Holds (some conns) t where
  current := by
    unfold get
    rw [entries]
    exact AList.lookup_insert _
  file := Or.inl file
  stored := by
    intro conns' same unique c member named
    cases same
    rw [secrets, after_asked, if_neg]
    · exact after_stored unique member named
    · rintro ⟨-, gone⟩
      exact gone (mem_idsOf.mpr ⟨named, some c, member, rfl⟩)
  gone := by
    intro id stored
    by_contra gone
    change id ∉ idsOf conns at gone
    rw [secrets, after_asked] at stored
    split at stored
    · exact stored rfl
    · rename_i staying
      rw [after_other gone] at stored
      exact staying ⟨holds.mem_ids.mpr (holds.gone id stored), gone⟩

theorem Holds.delete (holds : Holds last s)
    (secrets : t.secrets = after ((connectionIDs (s.get connectionsKey)).map fun id => .delete (secretPrefix ++ id)) s.secrets)
    (entries : t.entries = s.entries.erase connectionsKey) (file : t.file = some t.entries) : Holds none t where
  current := by
    unfold get
    rw [entries]
    exact AList.lookup_erase _ _
  file := Or.inl file
  stored := nofun
  gone := by
    intro id stored
    rw [secrets, after_deletes] at stored
    split at stored
    · exact absurd rfl stored
    · rename_i staying
      exact absurd (holds.mem_ids.mpr (holds.gone id stored)) staying

theorem Holds.fresh : Holds none (openStore none ∅) where
  current := rfl
  file := Or.inr rfl
  stored := nofun
  gone := fun _ stored => absurd rfl stored

end Steps

section Run
variable {s : Store} {edits : List Edit} {last : Option json.Value} {conns : Option (List Connection)}

theorem bareEntries_congr {c d : Entries} (same : ∀ k, d.lookup k = c.lookup k) : BareEntries d ↔ BareEntries c := by
  unfold BareEntries
  simp only [same]

theorem reread_lookup (c : Entries) : ∃ d, reread (some c) = some d ∧ ∀ k, d.lookup k = c.lookup k :=
  ⟨_, rfl, parseObject_lookup (List.mergeSort_perm _ _)⟩

/-- Only a connection without an id keeps what it has. -/
theorem bare_kept_iff (conns : List Connection) : Bare (marshalConnections (conns.map stripConnection)) ↔
    ∀ c, some c ∈ conns → idOf (some c) = [] → BareEntries c := by
  have read : Bare (marshalConnections (conns.map stripConnection)) ↔
      ∀ d ∈ conns, ∀ e, reread (stripConnection d) = some e → BareEntries e := by
    unfold Bare
    rw [parseConnections_marshal]
    simp only [Except.ok.injEq, forall_eq', List.mem_map, exists_exists_and_eq_and]
    exact ⟨fun bare d member e same => bare e ⟨d, member, same⟩, fun bare e ⟨d, member, same⟩ => bare d member e same⟩
  rw [read]
  constructor
  · intro bare c member anonymous
    obtain ⟨e, reading, same⟩ := reread_lookup c
    have kept : stripConnection (some c) = some c := if_pos anonymous
    exact (bareEntries_congr same).mp (bare (some c) member e (by rw [kept]; exact reading))
  · intro bare d member e reading
    cases d with
    | none => cases reading
    | some c =>
      by_cases anonymous : idOf (some c) = []
      · have kept : stripConnection (some c) = some c := if_pos anonymous
        obtain ⟨e', reading', same⟩ := reread_lookup c
        rw [kept, reading'] at reading
        cases reading
        exact (bareEntries_congr same).mpr (bare c member anonymous)
      · have kept : stripConnection (some c) = some (takeSecrets secretFields c).1 := if_neg anonymous
        obtain ⟨e', reading', same⟩ := reread_lookup (takeSecrets secretFields c).1
        rw [kept, reading'] at reading
        cases reading
        intro f field v present
        rw [same, takeSecrets_rest, if_pos field] at present
        cases present

/-- Connections whose ids tell them apart come back. -/
theorem Holds.back {conns : List Connection} (holds : Holds (some conns) s) (unique : Unique conns) :
    ∃ w back, s.all.map (·.lookup connectionsKey) = .ok (some w) ∧ parseConnections w = .ok back ∧
      List.Forall₂ Back conns back := by
  refine ⟨marshalConnections (((conns.map stripConnection).map reread).map (mergeConnection s.secrets)), _, ?_,
    parseConnections_marshal _, ?_⟩
  · rw [all_lookup, holds.current]
    dsimp only [Option.map_some]
    unfold mergeSecrets
    rw [parseConnections_marshal]
    simp only [bind, Except.bind, pure, Except.pure, Except.map, if_true]
  · rw [List.map_map, List.map_map, List.map_map, List.forall₂_map_right_iff, List.forall₂_same]
    intro d member
    cases d with
    | none => exact absurd rfl (unique.1 none member)
    | some c =>
      have named := unique.1 (some c) member
      have kept : stripConnection (some c) = some (takeSecrets secretFields c).1 := if_neg named
      obtain ⟨e, reading, same⟩ := reread_lookup (takeSecrets secretFields c).1
      obtain ⟨merged, merging, fields⟩ := merge_back named (holds.stored conns rfl unique.2 c member named) same
      obtain ⟨answer, answering, equal⟩ := reread_lookup merged
      simp only [Function.comp_apply, kept, reading, merging, answering]
      exact fun k => (equal k).trans (fields k)

theorem Holds.kept_iff (holds : Holds conns s) (given : last.map parseConnections = conns.map .ok) :
    Kept last s ↔ ∀ v, last = some v → Named v := by
  cases last with
  | none =>
    cases conns with
    | some conns => cases given
    | none =>
      refine iff_of_true ⟨?_, ?_, nofun, ?_⟩ nofun
      · intro w present
        rw [holds.current] at present
        cases present
      · intro entries written w present
        rcases holds.file with current | none
        · rw [current] at written
          cases written
          have absent : s.entries.lookup connectionsKey = none := holds.current
          rw [absent] at present
          cases present
        · rw [none] at written
          cases written
      · intro id stored
        exact absurd (holds.gone id stored) List.not_mem_nil
  | some v =>
    cases conns with
    | none => cases given
    | some conns =>
      have parsed : parseConnections v = .ok conns := Option.some.inj given
      have named_iff : Named v ↔ ∀ c, some c ∈ conns → idOf (some c) = [] → BareEntries c := by
        unfold Named
        rw [parsed]
        exact ⟨fun all => all conns rfl, fun one _ same => Except.ok.inj same ▸ one⟩
      have current : s.get connectionsKey = some (marshalConnections (conns.map stripConnection)) := holds.current
      constructor
      · rintro kept v' ⟨⟩
        exact named_iff.mpr ((bare_kept_iff conns).mp (kept.memory _ current))
      · intro named
        have bare := (bare_kept_iff conns).mpr (named_iff.mp (named v rfl))
        refine ⟨?_, ?_, ?_, ?_⟩
        · intro w present
          rw [current] at present
          cases present
          exact bare
        · intro entries written w present
          rcases holds.file with saved | none
          · rw [saved] at written
            cases written
            have same := current.symm.trans present
            cases same
            exact bare
          · rw [none] at written
            cases written
        · intro v' conns' same parsed' unique
          cases same
          rw [parsed] at parsed'
          cases parsed'
          exact holds.back unique
        · intro id stored
          exact ⟨v, conns, rfl, parsed, holds.gone id stored⟩

theorem lastValue_append (edits : List Edit) (edit : Edit) : lastValue (edits ++ [edit]) =
    match edit with
    | .set key value => if key = connectionsKey then some value else lastValue edits
    | .delete key => if key = connectionsKey then none else lastValue edits := by
  unfold lastValue
  rw [List.foldl_append]
  rfl

theorem reaches_holds (run : Transition.Reaches Accepted (openStore none ∅) edits s) :
    ∃ conns, (lastValue edits).map parseConnections = conns.map .ok ∧ Holds conns s := by
  induction run with
  | refl => exact ⟨none, rfl, Holds.fresh⟩
  | next _ accepted ih =>
    rename_i edit _ _
    obtain ⟨conns, given, holds⟩ := ih
    rw [lastValue_append]
    cases edit with
    | set key value =>
      obtain ⟨f, accepted⟩ := accepted
      by_cases connections : key = connectionsKey
      · subst connections
        obtain ⟨conns', parsed, secrets, entries, file⟩ := set_accepted accepted
        refine ⟨some conns', ?_, holds.set secrets entries file⟩
        dsimp only
        rw [if_pos rfl]
        exact congrArg some parsed
      · obtain ⟨secrets, entries, file⟩ := set_plain_accepted connections accepted
        refine ⟨conns, ?_, holds.other secrets ?_ file⟩
        · dsimp only
          rw [if_neg connections]
          exact given
        · unfold get
          rw [entries]
          exact AList.lookup_insert_ne (Ne.symm connections)
    | delete key =>
      obtain ⟨f, accepted⟩ := accepted
      by_cases connections : key = connectionsKey
      · subst connections
        obtain ⟨secrets, entries, file⟩ := delete_accepted accepted
        exact ⟨none, rfl, holds.delete secrets entries file⟩
      · obtain ⟨secrets, entries, file⟩ := delete_plain_accepted connections accepted
        refine ⟨conns, ?_, holds.other secrets ?_ file⟩
        · dsimp only
          rw [if_neg connections]
          exact given
        · unfold get
          rw [entries]
          exact AList.lookup_erase_ne (Ne.symm connections)

/-- After any accepted edits the credentials are kept apart exactly when every connection
of the last list that has no id has no credentials either. -/
theorem credentials_kept_iff (run : Transition.Reaches Accepted (openStore none ∅) edits s) :
    Kept (lastValue edits) s ↔ ∀ v, lastValue edits = some v → Named v := by
  obtain ⟨conns, given, holds⟩ := reaches_holds run
  exact holds.kept_iff given

theorem set_reaches {raw : json.Value} {conns : List Connection} (parsed : parseConnections raw = .ok conns) :
    ∃ s, Transition.Reaches Accepted (openStore none ∅) [.set connectionsKey raw] s := by
  have quiet : (Faults.passed ((openStore none ∅).asked conns) ([] : List (Option String))).2 = none := by
    rw [Faults.passed_nofaults]
  exact ⟨_, .one ⟨{}, set_connections (f := {}) parsed quiet⟩⟩

/-- One connection with a token, with an id and without. -/
def saved (id : List (Str × json.Value)) : json.Value :=
  .array [.object (id ++ [("token".toList, .string "t0p".toList)])]

theorem saved_kept : ∃ s, Transition.Reaches Accepted (openStore none ∅)
    [.set connectionsKey (saved [("id".toList, .string "a".toList)])] s ∧
      Kept (some (saved [("id".toList, .string "a".toList)])) s := by
  obtain ⟨s, run⟩ := @set_reaches (saved [("id".toList, .string "a".toList)]) _ rfl
  refine ⟨s, run, (credentials_kept_iff run).mpr ?_⟩
  rintro v ⟨⟩ conns parsed c member anonymous
  cases parsed
  cases List.mem_singleton.mp member
  cases anonymous

/-- Without an id the token stays in the file. -/
theorem unnamed_leaks : ∃ s, Transition.Reaches Accepted (openStore none ∅) [.set connectionsKey (saved [])] s ∧
    ¬ Kept (some (saved [])) s := by
  obtain ⟨s, run⟩ := @set_reaches (saved []) _ rfl
  obtain ⟨conns, given, holds⟩ := reaches_holds run
  refine ⟨s, run, fun kept => ?_⟩
  have named := (holds.kept_iff given).mp kept (saved []) rfl
  have bare := named _ rfl _ List.mem_cons_self rfl "token".toList (by decide) _ rfl
  cases bare

end Run
end Store
end NatsExplorer.Settings
