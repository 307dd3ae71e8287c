import NatsExplorer.Library.OrderedMap
import NatsExplorer.Settings.Credentials

/-! Settings on their way from a tab to the file of the server: values are held back for a
moment, taken out as one batch, and sent one request after the other. -/
namespace NatsExplorer.Settings
open Go

abbrev Batch := List (Str × json.Value)

/-- `storage` is what the tab itself keeps, `flushes` what each flush has still to send, the
oldest first. -/
structure Tab where
  storage : Str → Option json.Value
  pending : OrderedMap Str json.Value
  flushTimer : Bool
  flushes : List Batch
  server : Store

namespace Tab

inductive Act where
  | persist (key : Str) (value : json.Value)
  | flush
  /-- The request a flush waits for is answered. -/
  | answer (i : ℕ)

def opened (server : Store) : Tab where
  storage := fun _ => none
  pending := .empty
  flushTimer := false
  flushes := []
  server := server

def persist (s : Tab) (key : Str) (value : json.Value) : Tab :=
  { s with
    storage := Function.update s.storage key (some value)
    pending := s.pending.set key value
    flushTimer := true }

def flush (s : Tab) : Tab :=
  { s with flushTimer := false, pending := .empty, flushes := s.flushes ++ [s.pending.entries] }

/-- No request fails. -/
inductive Step : Tab → Act → Tab → Prop where
  | persist (s key value) : Step s (.persist key value) (s.persist key value)
  | flush {s} (due : s.flushTimer = true) : Step s .flush s.flush
  | answer {s i key value rest server} (next : s.flushes[i]? = some ((key, value) :: rest))
      (accepted : Accepted s.server (.set key value) server) :
      Step s (.answer i) { s with flushes := s.flushes.set i rest, server := server }

def Quiet (s : Tab) : Prop := s.pending.keys = [] ∧ ∀ batch ∈ s.flushes, batch = []

/-- An older flush has no value left for a key a newer one sends. -/
def InTurn (s : Tab) : Act → Prop
  | .answer i => ∀ key value rest, s.flushes[i]? = some ((key, value) :: rest) →
      ∀ batch ∈ s.flushes.take i, key ∉ batch.map Prod.fst
  | _ => True

/-- The value of the last call for a key. -/
def lastPersisted (acts : List Act) (key : Str) : Option json.Value :=
  acts.foldl (fun last act =>
    match act with
    | .persist key' value => if key' = key then some value else last
    | _ => last) none

end Tab

/-- Connections are there without their credentials, which come back when they are read. -/
def Store.Serves (s : Store) (key : Str) (value : json.Value) : Prop :=
  if key = connectionsKey then
    ∃ conns, parseConnections value = .ok conns ∧
      s.get key = some (marshalConnections (conns.map stripConnection)) ∧
      (Unique conns → ∃ w back, s.all.map (·.lookup key) = .ok (some w) ∧ parseConnections w = .ok back ∧
        List.Forall₂ Back conns back)
  else s.get key = some value

namespace Store
variable {s t : Store} {key other : Str} {value : json.Value} {v : json.Value} {last : Option (List Connection)}

/-- As it is carried along a run. -/
def Carries (s : Store) (key : Str) (value : json.Value) : Prop :=
  if key = connectionsKey then ∃ conns, parseConnections value = .ok conns ∧ Holds (some conns) s
  else s.get key = some value

theorem Carries.serves (carries : s.Carries key value) : s.Serves key value := by
  unfold Carries at carries
  unfold Serves
  split at carries
  · rename_i connections
    obtain ⟨conns, parsed, holds⟩ := carries
    subst connections
    rw [if_pos rfl]
    exact ⟨conns, parsed, holds.current, fun unique => holds.back unique⟩
  · rename_i plain
    rw [if_neg plain]
    exact carries

theorem holds_accepted (holds : Holds last s) (accepted : Accepted s (.set key value) t) :
    (∃ last, Holds last t) ∧ t.Carries key value ∧ ∀ k ≠ key, ∀ v, s.Carries k v → t.Carries k v := by
  obtain ⟨f, accepted⟩ := accepted
  by_cases connections : key = connectionsKey
  · subst connections
    obtain ⟨conns, parsed, secrets, entries, file⟩ := set_accepted accepted
    have now := holds.set secrets entries file
    refine ⟨⟨_, now⟩, ?_, ?_⟩
    · unfold Carries
      rw [if_pos rfl]
      exact ⟨conns, parsed, now⟩
    · intro k plain v carries
      unfold Carries at carries ⊢
      rw [if_neg plain] at carries ⊢
      unfold get at carries ⊢
      rw [entries, AList.lookup_insert_ne plain]
      exact carries
  · obtain ⟨secrets, entries, file⟩ := set_plain_accepted connections accepted
    have kept : ∀ k ≠ key, t.get k = s.get k := by
      intro k plain
      unfold get
      rw [entries, AList.lookup_insert_ne plain]
    have still : ∀ {last}, Holds last s → Holds last t := fun holds =>
      holds.other secrets (kept _ (Ne.symm connections)) file
    refine ⟨⟨last, still holds⟩, ?_, ?_⟩
    · unfold Carries
      rw [if_neg connections]
      unfold get
      rw [entries]
      exact AList.lookup_insert _
    · intro k plain v carries
      unfold Carries at carries ⊢
      by_cases other : k = connectionsKey
      · rw [if_pos other] at carries ⊢
        obtain ⟨conns, parsed, holds⟩ := carries
        exact ⟨conns, parsed, still holds⟩
      · rw [if_neg other] at carries ⊢
        rw [kept k plain]
        exact carries

end Store

/-- The value the newest of these flushes has left for a key. -/
def queued : List Batch → Str → Option json.Value
  | [], _ => none
  | batch :: flushes, key => (queued flushes key).or (batch.lookup key)

section Queued
variable {flushes : List Batch} {batch rest : Batch} {key k : Str} {value : json.Value} {i : ℕ}

theorem queued_append : queued (flushes ++ [batch]) key = (batch.lookup key).or (queued flushes key) := by
  induction flushes with
  | nil => simp [queued]
  | cons first flushes ih => rw [List.cons_append, queued, queued, ih, Option.or_assoc]

theorem queued_empty (empty : ∀ batch ∈ flushes, batch = []) : queued flushes key = none := by
  induction flushes with
  | nil => rfl
  | cons first flushes ih =>
    rw [queued, ih fun batch member => empty batch (List.mem_cons_of_mem _ member),
      empty first List.mem_cons_self]
    rfl

theorem lookup_absent (absent : key ∉ batch.map Prod.fst) : batch.lookup key = none := by
  rw [List.lookup_eq_none_iff]
  intro entry member
  rw [bne_iff_ne]
  rintro rfl
  exact absent (List.mem_map_of_mem member)

/-- Another key keeps its value. -/
theorem queued_other (next : flushes[i]? = some ((key, value) :: rest)) (other : k ≠ key) :
    queued (flushes.set i rest) k = queued flushes k := by
  induction flushes generalizing i with
  | nil => rfl
  | cons first flushes ih =>
    cases i with
    | zero =>
      obtain rfl : first = (key, value) :: rest := Option.some.inj next
      rw [List.set_cons_zero, queued, queued, List.lookup_cons, beq_eq_false_iff_ne.mpr other]
    | succ i => rw [List.set_cons_succ, queued, queued, ih next]

/-- The key that is sent has a newer value, or none any more. -/
theorem queued_own (next : flushes[i]? = some ((key, value) :: rest)) (nodup : key ∉ rest.map Prod.fst)
    (older : ∀ batch ∈ flushes.take i, key ∉ batch.map Prod.fst) :
    queued (flushes.set i rest) key = queued flushes key ∧ queued flushes key ≠ none ∨
      queued flushes key = some value ∧ queued (flushes.set i rest) key = none := by
  induction flushes generalizing i with
  | nil => cases next
  | cons first flushes ih =>
    cases i with
    | zero =>
      obtain rfl : first = (key, value) :: rest := Option.some.inj next
      rw [List.set_cons_zero, queued, queued, List.lookup_cons_self, lookup_absent nodup]
      cases newer : queued flushes key with
      | some v => exact Or.inl ⟨rfl, Option.some_ne_none v⟩
      | none => exact Or.inr ⟨rfl, rfl⟩
    | succ i =>
      have oldest : first.lookup key = none := lookup_absent (older first List.mem_cons_self)
      rw [List.set_cons_succ, queued, queued, oldest, Option.or_none, Option.or_none]
      exact ih next fun batch member => older batch (List.mem_cons_of_mem _ member)

end Queued

namespace Tab
variable {s t : Tab} {acts : List Act} {act : Act} {server : Store} {edits : List Edit}

/-- The newest value of a key is waiting, on its way or served. -/
structure Inv (s : Tab) : Prop where
  distinct : ∀ batch ∈ s.flushes, (batch.map Prod.fst).Nodup
  holds : ∃ last, Store.Holds last s.server
  newest : ∀ key value, s.storage key = some value →
    (s.pending.get key).or (queued s.flushes key) = some value ∨
      (s.pending.get key).or (queued s.flushes key) = none ∧ s.server.Carries key value

theorem Inv.start (reached : Transition.Reaches Accepted (Store.openStore none ∅) edits server) :
    Inv (opened server) where
  distinct := nofun
  holds := by
    obtain ⟨last, -, holds⟩ := Store.reaches_holds reached
    exact ⟨last, holds⟩
  newest := nofun

theorem Inv.persist (inv : Inv s) (key : Str) (value : json.Value) : Inv (s.persist key value) where
  distinct := inv.distinct
  holds := inv.holds
  newest := by
    intro k v stored
    change Function.update s.storage key (some value) k = some v at stored
    change ((s.pending.set key value).get k).or (queued s.flushes k) = some v ∨
      ((s.pending.set key value).get k).or (queued s.flushes k) = none ∧ s.server.Carries k v
    rw [OrderedMap.get_set]
    rw [Function.update_apply] at stored
    by_cases same : k = key
    · rw [if_pos same] at stored ⊢
      rw [stored]
      exact Or.inl rfl
    · rw [if_neg same] at stored ⊢
      exact inv.newest k v stored

theorem Inv.flush (inv : Inv s) : Inv s.flush where
  distinct := by
    intro batch member
    rcases List.mem_append.mp member with member | member
    · exact inv.distinct batch member
    · rw [List.mem_singleton.mp member, OrderedMap.entries_keys]
      exact s.pending.nodup
  holds := inv.holds
  newest := by
    intro k v stored
    have same : ((OrderedMap.empty : OrderedMap Str json.Value).get k).or
        (queued (s.flushes ++ [s.pending.entries]) k) = (s.pending.get k).or (queued s.flushes k) := by
      rw [queued_append, OrderedMap.lookup_entries, OrderedMap.get_empty, Option.none_or]
    change ((OrderedMap.empty : OrderedMap Str json.Value).get k).or
        (queued (s.flushes ++ [s.pending.entries]) k) = some v ∨ ((OrderedMap.empty : OrderedMap Str json.Value).get k).or
        (queued (s.flushes ++ [s.pending.entries]) k) = none ∧ s.server.Carries k v
    rw [same]
    exact inv.newest k v stored

theorem Inv.answer (inv : Inv s) {i : ℕ} {key : Str} {value : json.Value} {rest : Batch}
    (next : s.flushes[i]? = some ((key, value) :: rest)) (accepted : Accepted s.server (.set key value) server)
    (older : ∀ batch ∈ s.flushes.take i, key ∉ batch.map Prod.fst) :
    Inv { s with flushes := s.flushes.set i rest, server := server } := by
  have nodup := inv.distinct _ (List.mem_of_getElem? next)
  rw [List.map_cons, List.nodup_cons] at nodup
  obtain ⟨last, holds⟩ := inv.holds
  obtain ⟨still, now, others⟩ := Store.holds_accepted holds accepted
  refine ⟨?_, still, ?_⟩
  · intro batch member
    rcases List.mem_or_eq_of_mem_set member with member | rfl
    · exact inv.distinct batch member
    · exact nodup.2
  · intro k v stored
    change (s.pending.get k).or (queued (s.flushes.set i rest) k) = some v ∨
      (s.pending.get k).or (queued (s.flushes.set i rest) k) = none ∧ server.Carries k v
    have newest := inv.newest k v stored
    by_cases same : k = key
    · subst same
      rcases queued_own next nodup.1 older with ⟨unchanged, newer⟩ | ⟨sent, last⟩
      · rw [unchanged]
        exact newest.imp_right fun ⟨nothing, _⟩ => absurd (Option.or_eq_none_iff.mp nothing).2 newer
      · rw [sent] at newest
        rw [last]
        cases waiting : s.pending.get k with
        | some v' =>
          rw [waiting] at newest
          exact newest.imp_right fun ⟨nothing, _⟩ => nomatch nothing
        | none =>
          rw [waiting] at newest
          rcases newest with same | ⟨nothing, -⟩
          · cases same
            exact Or.inr ⟨rfl, now⟩
          · cases nothing
    · rw [queued_other next same]
      exact newest.imp_right fun ⟨nothing, carries⟩ => ⟨nothing, others k same v carries⟩

theorem storage_persisted (run : Transition.Reaches Step (opened server) acts s) (key : Str) :
    s.storage key = lastPersisted acts key := by
  induction run with
  | refl => rfl
  | next _ last ih =>
    rename_i t u act acts _
    unfold lastPersisted at ih ⊢
    rw [List.foldl_append, ← ih]
    cases last with
    | persist key' value =>
      change Function.update t.storage key' (some value) key = if key' = key then some value else t.storage key
      rw [Function.update_apply]
      exact if_congr eq_comm rfl rfl
    | flush due => rfl
    | answer next accepted => rfl

theorem Inv.reached (reached : Transition.Reaches Accepted (Store.openStore none ∅) edits server)
    (run : Transition.Reaches (fun s act t => Step s act t ∧ s.InTurn act) (opened server) acts s) : Inv s := by
  refine run.invariant ?_ (Inv.start reached)
  rintro s act t inv ⟨moved, turn⟩
  cases moved with
  | persist key value => exact inv.persist key value
  | flush due => exact inv.flush
  | answer next accepted => exact inv.answer next accepted (turn _ _ _ next)

theorem accepted_plain (key : Str) (valid : keyPattern key = true) (plain : key ≠ connectionsKey) (value : json.Value)
    (server : Store) : ∃ t, Accepted server (.set key value) t ∧ t.get key = some value :=
  ⟨{ server with entries := server.entries.insert key value, file := some (server.entries.insert key value) },
    ⟨{}, Store.set_plain valid plain value⟩, AList.lookup_insert _⟩

end Tab
end NatsExplorer.Settings
