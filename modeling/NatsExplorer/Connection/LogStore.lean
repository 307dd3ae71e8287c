import NatsExplorer.Connection.Log
import NatsExplorer.Library.Recent
import NatsExplorer.Library.Transition

/-! The logs of a store and who writes to them (`logFor` and `dropQuietestLog` in `internal/connection/log.go`, `Connect` and
`Disconnect` in `store.go`). A connection holds its log from before it is registered, while a log may go by the registry. -/
namespace NatsExplorer.Connection.LogStore
open Go Transition Recent

def maxLogs : ℕ := 100

/-- A log in memory; `written` is everything that was added. -/
structure Cell where
  owner : Str := []
  log : Log := {}
  written : List Event := []

/-- How far a `Connect` has come. -/
inductive Stage where
  | called
  /-- It has found a connection of the same ID. -/
  | replacing
  | ready
  | dialling (ref : ℕ)
  deriving DecidableEq

structure Attempt where
  id : Str
  stage : Stage
  deriving DecidableEq

structure Store where
  logs : Map Str ℕ
  cell : ℕ → Cell
  next : ℕ
  /-- The log each registered connection holds. -/
  connections : Map Str ℕ
  attempts : List Attempt
  /-- What was recorded for an ID since it is dialled or open, marked if by the connection that is. -/
  since : Str → List (Bool × Event)
  recorded : Str → List Event

inductive Act where
  | connect (id : Str)
  /-- `Get` of the `n`-th attempt. -/
  | look (n : ℕ)
  /-- `Disconnect` of the `n`-th attempt. -/
  | close (n : ℕ)
  /-- `logFor` of the `n`-th attempt. -/
  | start (n : ℕ) (rt : Runtime)
  | dialled (n : ℕ) (e : Event)
  | fail (n : ℕ) (e : Event)
  | register (n : ℕ)
  | disconnect (id : Str)
  | happened (id : Str) (e : Event)
  /-- A connection that is closed has a last word. -/
  | late (ref : ℕ) (e : Event)

namespace Store

def new : Store where
  logs := ∅
  cell _ := {}
  next := 0
  connections := ∅
  attempts := []
  since _ := []
  recorded _ := []

/-- The connection is being dialled or is open. -/
def Alive (s : Store) (id : Str) : Prop := s.connections.lookup id ≠ none ∨ id ∈ s.attempts.map Attempt.id

instance (s : Store) (id : Str) : Decidable (s.Alive id) := inferInstanceAs (Decidable (_ ∨ _))

/-- `record` -/
def add (s : Store) (live : Bool) (ref : ℕ) (e : Event) : Store :=
  let c := s.cell ref
  { s with
    cell := Function.update s.cell ref { c with log := c.log.add e, written := c.written ++ [e] }
    since := Function.update s.since c.owner (s.since c.owner ++ [(live, e)])
    recorded := Function.update s.recorded c.owner (s.recorded c.owner ++ [e]) }

/-- `lastAt` -/
def lastAt (s : Store) (ref : ℕ) : Int := ((s.cell ref).log.events.getLast?.map Event.happened).getD 0

/-- The oldest so far, with its time, and one more log. -/
def quieter (s : Store) (best : Str × Int) (id : Str) : Str × Int :=
  if (s.connections.lookup id).isSome then best
  else
    let last := s.lastAt ((s.logs.lookup id).getD 0)
    if best.1 = [] ∨ last < best.2 then (id, last) else best

/-- The log that `dropQuietestLog` takes. -/
def quietest (s : Store) (rt : Runtime) : Option Str :=
  let oldest := ((rt.range s.logs.keys).foldl s.quieter ([], 0)).1
  if oldest = [] then none else some oldest

def dropQuietestLog (s : Store) (rt : Runtime) : Store :=
  match s.quietest rt with
  | some id => { s with logs := s.logs.erase id }
  | none => s

/-- The store after `logFor`, and the log. -/
def logFor (s : Store) (rt : Runtime) (id : Str) : Store × ℕ :=
  match s.logs.lookup id with
  | some ref => (s, ref)
  | none =>
    let s := if maxLogs ≤ s.logs.keys.length then s.dropQuietestLog rt else s
    ({ s with logs := s.logs.insert id s.next, cell := Function.update s.cell s.next { owner := id }, next := s.next + 1 }, s.next)

/-- `Log` -/
def log (s : Store) (id : Str) : List Event := (s.logs.lookup id).elim [] fun ref => (s.cell ref).log.events

def setStage (s : Store) (n : ℕ) (a : Attempt) : Store := { s with attempts := s.attempts.set n a }

def step (s : Store) : Act → Store
  | .connect id => { s with
      attempts := s.attempts ++ [{ id := id, stage := .called }]
      since := if s.Alive id then s.since else Function.update s.since id [] }
  | .look n =>
    match s.attempts[n]? with
    | some { id, stage := .called } =>
      s.setStage n { id := id, stage := if (s.connections.lookup id).isSome then .replacing else .ready }
    | _ => s
  | .close n =>
    match s.attempts[n]? with
    | some { id, stage := .replacing } => { s with connections := s.connections.erase id }.setStage n { id := id, stage := .ready }
    | _ => s
  | .start n rt =>
    match s.attempts[n]? with
    | some { id, stage := .ready } =>
      let (s, ref) := s.logFor rt id
      s.setStage n { id := id, stage := .dialling ref }
    | _ => s
  | .dialled n e =>
    match s.attempts[n]? with
    | some { stage := .dialling ref, .. } => s.add true ref e
    | _ => s
  | .fail n e =>
    match s.attempts[n]? with
    | some { stage := .dialling ref, .. } => { s.add true ref e with attempts := s.attempts.eraseIdx n }
    | _ => s
  | .register n =>
    match s.attempts[n]? with
    | some { id, stage := .dialling ref } =>
      { s with connections := s.connections.insert id ref, attempts := s.attempts.eraseIdx n }
    | _ => s
  | .disconnect id => { s with connections := s.connections.erase id }
  | .happened id e =>
    match s.connections.lookup id with
    | some ref => s.add true ref e
    | none => s
  | .late ref e => if ref < s.next then s.add false ref e else s

end Store

/-- The log of a connection is the one that can be read. -/
structure Readable (s : Store) : Prop where
  opened : ∀ id ref, s.connections.lookup id = some ref → s.logs.lookup id = some ref
  dialled : ∀ a ∈ s.attempts, ∀ ref, a.stage = .dialling ref → s.logs.lookup a.id = some ref
  /-- An event of a connection that is dialled or open is there unless `logSize` later ones were recorded. -/
  events : ∀ id, s.Alive id → (marked (last logSize (s.since id))).Sublist (s.log id)
  order : ∀ id, (s.log id).Sublist (s.recorded id)
  bound : s.logs.keys.length ≤ maxLogs + s.logs.keys.countP (fun id => s.Alive id)

namespace Store

/-- The logs of connections that are neither dialled nor open. -/
def closed (s : Store) : ℕ := s.logs.keys.countP fun id => ¬ s.Alive id

/-- Taking the log loses nothing: no connection being dialled holds it, and there is nothing to lose of one being replaced. -/
structure Spared (s : Store) (id : Str) : Prop where
  held : ∀ a ∈ s.attempts, ∀ ref, a.stage = .dialling ref → a.id ≠ id
  told : s.Alive id → marked (last logSize (s.since id)) = []

/-- A log that has to go for a new one is spared. -/
def Spares (s : Store) : Act → Prop
  | .start n rt => ∀ id, s.attempts[n]? = some { id := id, stage := .ready } → s.logs.lookup id = none →
      maxLogs ≤ s.logs.keys.length → ∀ v, s.quietest rt = some v → s.Spared v
  | _ => True

/-- A connection is closed, or fails, and no other of its ID is there. -/
def Ends (s : Store) : Act → Prop
  | .disconnect id => s.connections.lookup id ≠ none ∧ id ∉ s.attempts.map Attempt.id
  | .fail n _ => ∃ id ref, s.attempts[n]? = some { id := id, stage := .dialling ref } ∧ s.connections.lookup id = none ∧
      id ∉ (s.attempts.eraseIdx n).map Attempt.id
  | _ => False

def Allowed (s : Store) (l : Act) : Prop := s.Spares l ∧ (s.Ends l → s.closed < maxLogs)

/-- Everything added to the log of an ID. -/
def written (s : Store) (id : Str) : List Event := (s.logs.lookup id).elim [] fun ref => (s.cell ref).written

end Store

section Invariant
open Store
variable {s : Store} {id v : Str} {ref n : ℕ} {e : Event} {live : Bool} {rt : Runtime}

structure Kept (s : Store) : Prop where
  owned : ∀ id ref, s.logs.lookup id = some ref → ref < s.next ∧ (s.cell ref).owner = id
  opened : ∀ id ref, s.connections.lookup id = some ref → s.logs.lookup id = some ref
  dialled : ∀ a ∈ s.attempts, ∀ ref, a.stage = .dialling ref → s.logs.lookup a.id = some ref
  full : ∀ ref, (s.cell ref).log.events = last logSize (s.cell ref).written
  order : ∀ ref, (s.cell ref).written.Sublist (s.recorded (s.cell ref).owner)
  fed : ∀ id, s.Alive id → ∃ w, w <:+ s.written id ∧ Fed (last logSize (s.since id)) w
  bound : s.closed ≤ maxLogs

theorem kept_new : Kept new where
  owned _ _ found := nomatch found
  opened _ _ found := nomatch found
  dialled _ member := absurd member List.not_mem_nil
  full _ := last_nil.symm
  order _ := .slnil
  fed _ alive := alive.elim (fun found => absurd rfl found) fun member => absurd member List.not_mem_nil
  bound := Nat.zero_le _

theorem log_eq (full : ∀ ref, (s.cell ref).log.events = last logSize (s.cell ref).written) (id : Str) :
    s.log id = last logSize (s.written id) := by
  unfold Store.log Store.written
  cases s.logs.lookup id with
  | none => exact last_nil.symm
  | some ref => exact full ref

theorem Kept.readable (kept : Kept s) : Readable s where
  opened := kept.opened
  dialled := kept.dialled
  events id alive := by
    obtain ⟨w, part, fed⟩ := kept.fed id alive
    have among := fed.marked logSize
    rw [last_last le_rfl] at among
    rw [log_eq kept.full]
    exact among.trans (last_of_suffix part).sublist
  order id := by
    rw [log_eq kept.full]
    refine last_suffix.sublist.trans ?_
    unfold Store.written
    cases found : s.logs.lookup id with
    | none => exact List.nil_sublist _
    | some ref => exact (kept.owned id ref found).2 ▸ kept.order ref
  bound := by
    have all := List.length_eq_countP_add_countP (fun id => decide (s.Alive id)) (l := s.logs.keys)
    have closed := kept.bound
    unfold Store.closed at closed
    simp only [decide_eq_true_eq] at all
    omega

theorem add_owner (r : ℕ) : ((s.add live ref e).cell r).owner = (s.cell r).owner := by
  by_cases same : r = ref
  · subst same
    simp only [Store.add, Function.update_self]
  · simp only [Store.add, Function.update_of_ne same]

theorem add_written_same (apart : s.logs.lookup id ≠ some ref) : (s.add live ref e).written id = s.written id := by
  unfold Store.written
  cases found : s.logs.lookup id with
  | none => simp only [Store.add, found, Option.elim_none]
  | some r =>
    have other : r ≠ ref := fun same => apart (found.trans (congrArg some same))
    simp only [Store.add, found, Option.elim_some, Function.update_of_ne other]

theorem add_written (here : s.logs.lookup id = some ref) : (s.add live ref e).written id = s.written id ++ [e] := by
  unfold Store.written
  simp only [Store.add, here, Option.elim_some, Function.update_self]

/-- What is recorded on the log of a live connection is in it. -/
theorem Kept.add (kept : Kept s) (readable : live = true → s.logs.lookup (s.cell ref).owner = some ref) : Kept (s.add live ref e) where
  owned id r found := (add_owner r).symm ▸ kept.owned id r found
  opened := kept.opened
  dialled := kept.dialled
  full r := by
    by_cases same : r = ref
    · subst same
      simp only [Store.add, Function.update_self, Log.add]
      exact push (n := 199) (kept.full r)
    · simp only [Store.add, Function.update_of_ne same]
      exact kept.full r
  order r := by
    rw [add_owner]
    have grown : (s.recorded (s.cell r).owner).Sublist ((s.add live ref e).recorded (s.cell r).owner) := by
      by_cases mine : (s.cell r).owner = (s.cell ref).owner
      · simp only [Store.add, mine, Function.update_self]
        exact List.sublist_append_left _ _
      · simp only [Store.add, Function.update_of_ne mine]
        exact List.Sublist.refl _
    by_cases same : r = ref
    · subst same
      simp only [Store.add, Function.update_self]
      exact (kept.order r).append (List.Sublist.refl _)
    · have cell : (s.add live ref e).cell r = s.cell r := by simp only [Store.add, Function.update_of_ne same]
      rw [cell]
      exact (kept.order r).trans grown
  fed id alive := by
    obtain ⟨w, part, fed⟩ := kept.fed id alive
    by_cases mine : id = (s.cell ref).owner
    · have since : (s.add live ref e).since id = s.since id ++ [(live, e)] := by
        simp only [Store.add, mine, Function.update_self]
      obtain ⟨w', part', fed'⟩ := fed.last 199
      rw [last_last (by decide)] at fed'
      rw [since, logSize, last_append]
      by_cases here : s.logs.lookup id = some ref
      · rw [add_written here]
        exact ⟨w' ++ [e], List.suffix_append_self_iff.mpr (part'.trans part), .taken live e fed'⟩
      · rw [add_written_same here]
        cases live with
        | false => exact ⟨w', part'.trans part, .passed e fed'⟩
        | true => exact absurd (readable rfl) (mine ▸ here)
    · have since : (s.add live ref e).since id = s.since id := by simp only [Store.add, Function.update_of_ne mine]
      have apart : s.logs.lookup id ≠ some ref := fun found => mine (kept.owned id ref found).2.symm
      rw [since, add_written_same apart]
      exact ⟨w, part, fed⟩
  bound := kept.bound

theorem closed_le {t : Store} (logs : t.logs = s.logs) (alive : ∀ id, s.Alive id → t.Alive id) : t.closed ≤ s.closed := by
  unfold Store.closed
  rw [logs]
  refine List.countP_mono_left fun id _ dead => ?_
  exact decide_eq_true fun there => of_decide_eq_true dead (alive id there)

/-- Only who is there changes. -/
theorem Kept.moved (kept : Kept s) (connections : Map Str ℕ) (attempts : List Attempt)
    (opened : ∀ id ref, connections.lookup id = some ref → s.logs.lookup id = some ref)
    (dialled : ∀ a ∈ attempts, ∀ ref, a.stage = .dialling ref → s.logs.lookup a.id = some ref)
    (alive : ∀ id, ({ s with connections := connections, attempts := attempts } : Store).Alive id → s.Alive id)
    (bound : ({ s with connections := connections, attempts := attempts } : Store).closed ≤ maxLogs) :
    Kept { s with connections := connections, attempts := attempts } where
  owned := kept.owned
  opened := opened
  dialled := dialled
  full := kept.full
  order := kept.order
  fed id there := kept.fed id (alive id there)
  bound := bound

/-- A log of its own for an ID that is there. -/
theorem Kept.fresh (kept : Kept s) (none : s.logs.lookup id = none) (alive : s.Alive id) :
    Kept { s with
      logs := s.logs.insert id s.next, cell := Function.update s.cell s.next { owner := id }, next := s.next + 1 } := by
  have older {id' : Str} {ref : ℕ} (found : s.logs.lookup id' = some ref) : id' ≠ id ∧ ref ≠ s.next := by
    refine ⟨fun same => ?_, ((kept.owned id' ref found).1).ne⟩
    rw [same, none] at found
    cases found
  have same {id' : Str} {ref : ℕ} (found : s.logs.lookup id' = some ref) : (s.logs.insert id s.next).lookup id' = some ref :=
    (AList.lookup_insert_ne (older found).1).trans found
  refine { owned := fun id' ref found => ?_, opened := fun id' ref found => same (kept.opened id' ref found)
           dialled := fun a member ref stage => same (kept.dialled a member ref stage), full := fun r => ?_, order := fun r => ?_
           fed := fun id' there => ?_, bound := ?_ }
  · by_cases mine : id' = id
    · subst mine
      rw [AList.lookup_insert] at found
      cases found
      simp only [Function.update_self]
      exact ⟨Nat.lt_succ_self _, trivial⟩
    · rw [AList.lookup_insert_ne mine] at found
      obtain ⟨below, owner⟩ := kept.owned id' ref found
      simp only [Function.update_of_ne (older found).2]
      exact ⟨below.trans (Nat.lt_succ_self _), owner⟩
  · by_cases new : r = s.next
    · subst new
      simp only [Function.update_self]
      exact last_nil.symm
    · simp only [Function.update_of_ne new]
      exact kept.full r
  · by_cases new : r = s.next
    · subst new
      simp only [Function.update_self]
      exact List.nil_sublist _
    · simp only [Function.update_of_ne new]
      exact kept.order r
  · obtain ⟨w, part, fed⟩ := kept.fed id' there
    refine ⟨w, ?_, fed⟩
    cases found : s.logs.lookup id' with
    | none =>
      have nothing : s.written id' = [] := by rw [Store.written, found]; rfl
      rw [nothing] at part
      rw [List.suffix_nil.mp part]
      exact List.nil_suffix
    | some ref =>
      have kept : s.written id' = (s.cell ref).written := by rw [Store.written, found]; rfl
      rw [kept] at part
      unfold Store.written
      simp only [same found, Option.elim_some, Function.update_of_ne (older found).2]
      exact part
  · have absent : id ∉ s.logs.keys := AList.lookup_eq_none.mp none
    have bound := kept.bound
    unfold Store.closed at bound ⊢
    have keys : (s.logs.insert id s.next).keys = id :: s.logs.keys := by
      rw [AList.keys_insert, @List.erase_of_not_mem _ instBEqOfDecidableEq _ _ _ absent]
    rw [keys, List.countP_cons_of_neg]
    · exact bound
    · exact fun dead => of_decide_eq_true dead alive

/-- A log that goes is missed by nobody when it is spared. -/
theorem Kept.dropped (kept : Kept s) (free : s.connections.lookup v = none) (spared : s.Spared v) :
    Kept { s with logs := s.logs.erase v } where
  owned id ref found := kept.owned id ref (by
    by_cases same : id = v
    · rw [same, AList.lookup_erase] at found
      cases found
    · rwa [AList.lookup_erase_ne same] at found)
  opened id ref found := by
    have other : id ≠ v := by
      rintro rfl
      rw [free] at found
      cases found
    exact (AList.lookup_erase_ne other).trans (kept.opened id ref found)
  dialled a member ref stage := (AList.lookup_erase_ne (spared.held a member ref stage)).trans (kept.dialled a member ref stage)
  full := kept.full
  order := kept.order
  fed id there := by
    by_cases same : id = v
    · subst same
      exact ⟨[], List.nil_suffix, fed_unmarked (spared.told there)⟩
    · have written : ({ s with logs := s.logs.erase v } : Store).written id = s.written id := by
        unfold Store.written
        rw [AList.lookup_erase_ne same]
      rw [written]
      exact kept.fed id there
  bound := by
    refine le_trans ?_ kept.bound
    unfold Store.closed
    have keys : (s.logs.erase v).keys.Sublist s.logs.keys := by
      rw [AList.keys_erase]
      exact @List.erase_sublist _ instBEqOfDecidableEq _ _
    exact keys.countP_le

theorem quietest_free (found : s.quietest rt = some v) : v ∈ s.logs.keys ∧ s.connections.lookup v = none := by
  let Free (best : Str × Int) : Prop := best.1 = [] ∨ (best.1 ∈ s.logs.keys ∧ s.connections.lookup best.1 = none)
  have quieter (best : Str × Int) (id : Str) (inside : id ∈ s.logs.keys) (good : Free best) : Free (s.quieter best id) := by
    unfold Store.quieter
    split
    · exact good
    · next unregistered =>
      simp only
      split
      · exact Or.inr ⟨inside, Option.not_isSome_iff_eq_none.mp unregistered⟩
      · exact good
  have folded (ids : List Str) (best : Str × Int) (inside : ∀ id ∈ ids, id ∈ s.logs.keys) (good : Free best) :
      Free (ids.foldl s.quieter best) := by
    induction ids generalizing best with
    | nil => exact good
    | cons id ids ih =>
      obtain ⟨here, rest⟩ := List.forall_mem_cons.mp inside
      exact ih _ rest (quieter best id here good)
  have good := folded (rt.range s.logs.keys) ([], 0) (fun id => (rt.range_perm _).mem_iff.mp) (Or.inl rfl)
  unfold Store.quietest at found
  simp only at found
  split at found
  · cases found
  · next some =>
    cases found
    exact good.resolve_left some

theorem kept_dropQuietestLog (kept : Kept s) (spared : ∀ v, s.quietest rt = some v → s.Spared v) : Kept (s.dropQuietestLog rt) := by
  unfold Store.dropQuietestLog
  split
  · next v found => exact kept.dropped (quietest_free found).2 (spared v found)
  · exact kept

/-- What `logFor` leaves for an ID that is there: its log, and everything else as it was. -/
theorem kept_logFor (rt : Runtime) (kept : Kept s) (alive : s.Alive id)
    (spared : s.logs.lookup id = none → maxLogs ≤ s.logs.keys.length → ∀ v, s.quietest rt = some v → s.Spared v) :
    Kept (s.logFor rt id).1 ∧ (s.logFor rt id).1.logs.lookup id = some (s.logFor rt id).2 ∧
      (s.logFor rt id).1.connections = s.connections ∧ (s.logFor rt id).1.attempts = s.attempts := by
  unfold Store.logFor
  cases found : s.logs.lookup id with
  | some ref => exact ⟨kept, found, rfl, rfl⟩
  | none =>
    simp only
    split
    · next many =>
      have dropped := kept_dropQuietestLog kept (spared found many)
      have still : (s.dropQuietestLog rt).logs.lookup id = none ∧ (s.dropQuietestLog rt).connections = s.connections ∧
          (s.dropQuietestLog rt).attempts = s.attempts := by
        unfold Store.dropQuietestLog
        split
        · next v _ =>
          refine ⟨?_, rfl, rfl⟩
          by_cases same : id = v
          · rw [same]
            exact AList.lookup_erase _ _
          · exact (AList.lookup_erase_ne same).trans found
        · exact ⟨found, rfl, rfl⟩
      obtain ⟨none, connections, attempts⟩ := still
      have there : (s.dropQuietestLog rt).Alive id := by
        unfold Store.Alive
        rwa [connections, attempts]
      exact ⟨dropped.fresh none there, AList.lookup_insert _, connections, attempts⟩
    · exact ⟨kept.fresh found alive, AList.lookup_insert _, rfl, rfl⟩

theorem map_set {l : List Attempt} {a b : Attempt} (here : l[n]? = some a) (same : b.id = a.id) :
    (l.set n b).map Attempt.id = l.map Attempt.id := by
  obtain ⟨below, is⟩ := List.getElem?_eq_some_iff.mp here
  refine List.ext_getElem? fun i => ?_
  rw [List.getElem?_map, List.getElem?_map, List.getElem?_set]
  split
  · next first =>
    subst first
    rw [here]
    exact congrArg some same
  · rfl

theorem setStage_alive {a b : Attempt} (here : s.attempts[n]? = some a) (same : b.id = a.id) (id : Str) :
    (s.setStage n b).Alive id ↔ s.Alive id := by
  unfold Store.Alive
  have ids : (s.setStage n b).attempts.map Attempt.id = s.attempts.map Attempt.id := map_set here same
  rw [ids]
  rfl

theorem kept_setStage (kept : Kept s) {a b : Attempt} (here : s.attempts[n]? = some a) (same : b.id = a.id)
    (holds : ∀ ref, b.stage = .dialling ref → s.logs.lookup b.id = some ref) : Kept (s.setStage n b) := by
  have alive := setStage_alive (s := s) here same
  refine kept.moved s.connections (s.attempts.set n b) kept.opened (fun x member ref stage => ?_) (fun id => (alive id).mp) ?_
  · rcases List.mem_or_eq_of_mem_set member with old | rfl
    · exact kept.dialled x old ref stage
    · exact holds ref stage
  · exact (closed_le (s := s) (t := s.setStage n b) rfl fun id => (alive id).mpr).trans kept.bound

theorem countP_except (id : Str) {l : List Str} (nodup : l.Nodup) {p q : Str → Bool} (other : ∀ a ∈ l, a ≠ id → p a = true → q a = true) :
    l.countP p ≤ l.countP q + 1 := by
  induction nodup with
  | nil => exact Nat.zero_le _
  | @cons a l fresh _ ih =>
    by_cases same : a = id
    · have rest : l.countP p ≤ l.countP q := List.countP_mono_left fun b member here =>
        other b (List.mem_cons_of_mem a member) (fun is => fresh b member (same.trans is.symm)) here
      have := List.countP_cons (p := p) (l := l) (a := a)
      have := List.countP_cons (p := q) (l := l) (a := a)
      split at * <;> split at * <;> omega
    · have rest := ih fun b member => other b (List.mem_cons_of_mem a member)
      have here := other a List.mem_cons_self same
      have := List.countP_cons (p := p) (l := l) (a := a)
      have := List.countP_cons (p := q) (l := l) (a := a)
      cases first : p a
      · simp only [first, Bool.false_eq_true, if_false] at *
        omega
      · simp only [first, here first, if_true] at *
        omega

theorem countP_more {l : List Str} (member : id ∈ l) {p q : Str → Bool} (out : p id = false) (now : q id = true)
    (others : ∀ a, p a = true → q a = true) : l.countP p + 1 ≤ l.countP q := by
  induction l with
  | nil => cases member
  | cons a l ih =>
    have rest : l.countP p ≤ l.countP q := List.countP_mono_left fun b _ => others b
    have first := List.countP_cons (p := p) (l := l) (a := a)
    have second := List.countP_cons (p := q) (l := l) (a := a)
    rcases List.mem_cons.mp member with rfl | later
    · simp only [out, now, Bool.false_eq_true, if_false, if_true] at first second
      omega
    · have more := ih later
      cases here : p a
      · simp only [here, Bool.false_eq_true, if_false] at first
        omega
      · simp only [here, others a here, if_true] at first second
        omega

theorem closed_end {t : Store} (logs : t.logs = s.logs) (others : ∀ id', id' ≠ id → s.Alive id' → t.Alive id') :
    t.closed ≤ s.closed + 1 := by
  unfold Store.closed
  rw [logs]
  refine countP_except id s.logs.keys_nodup fun id' _ other dead => ?_
  exact decide_eq_true fun there => of_decide_eq_true dead (others id' other there)

theorem closed_more {t : Store} (logs : t.logs = s.logs) (member : id ∈ s.logs.keys) (before : s.Alive id) (after : ¬ t.Alive id)
    (others : ∀ id', t.Alive id' → s.Alive id') : s.closed + 1 ≤ t.closed := by
  unfold Store.closed
  rw [logs]
  refine countP_more member (decide_eq_false fun dead => dead before) (decide_eq_true after) fun id' dead => ?_
  exact decide_eq_true fun there => of_decide_eq_true dead (others id' there)

theorem mem_ids {a : Attempt} (here : s.attempts[n]? = some a) : a.id ∈ s.attempts.map Attempt.id :=
  List.mem_map_of_mem (List.mem_of_getElem? here)

theorem ids_eraseIdx {l : List Attempt} {a : Attempt} (here : l[n]? = some a) (id' : Str) :
    id' ∈ l.map Attempt.id ↔ id' = a.id ∨ id' ∈ (l.eraseIdx n).map Attempt.id := by
  obtain ⟨below, is⟩ := List.getElem?_eq_some_iff.mp here
  have split : l = l.take n ++ a :: l.drop (n + 1) := by
    rw [← is, List.getElem_cons_drop below, List.take_append_drop]
  rw [List.eraseIdx_eq_take_drop_succ]
  conv_lhs => rw [split]
  simp only [List.map_append, List.map_cons, List.mem_append, List.mem_cons]
  tauto

/-- A registered connection goes. -/
theorem disconnect_alive (id' : Str) : ({ s with connections := s.connections.erase id } : Store).Alive id' ↔
    (id' ≠ id ∧ s.connections.lookup id' ≠ none) ∨ id' ∈ s.attempts.map Attempt.id := by
  unfold Store.Alive
  by_cases same : id' = id
  · subst same
    simp only [AList.lookup_erase, ne_eq, not_true, false_and]
  · simp only [AList.lookup_erase_ne same, ne_eq, same, not_false_iff, true_and]

theorem kept_disconnect (kept : Kept s) (bound : ({ s with connections := s.connections.erase id } : Store).closed ≤ maxLogs) :
    Kept { s with connections := s.connections.erase id } := by
  refine kept.moved (s.connections.erase id) s.attempts (fun id' ref found => ?_) kept.dialled (fun id' there => ?_) bound
  · have other : id' ≠ id := by
      rintro rfl
      rw [AList.lookup_erase] at found
      cases found
    exact kept.opened id' ref ((AList.lookup_erase_ne other).symm.trans found)
  · rcases (disconnect_alive id').mp there with ⟨-, open_⟩ | attempt
    · exact Or.inl open_
    · exact Or.inr attempt

theorem kept_connect (kept : Kept s) : Kept (s.step (.connect id)) := by
  have alive (id' : Str) : (s.step (.connect id)).Alive id' ↔ s.Alive id' ∨ id' = id := by
    unfold Store.Alive
    simp only [step, List.map_append, List.mem_append, List.map_cons, List.map_nil, List.mem_singleton, or_assoc]
  refine { owned := kept.owned, opened := kept.opened, dialled := fun a member ref stage => ?_, full := kept.full, order := kept.order
           fed := fun id' there => ?_, bound := ?_ }
  · rcases List.mem_append.mp member with old | new
    · exact kept.dialled a old ref stage
    · rw [List.mem_singleton.mp new] at stage
      cases stage
  · by_cases before : s.Alive id
    · have since : (s.step (.connect id)).since = s.since := if_pos before
      rw [since]
      exact kept.fed id' (((alive id').mp there).elim (fun old => old) fun same => same ▸ before)
    · have since : (s.step (.connect id)).since = Function.update s.since id [] := if_neg before
      rw [since]
      by_cases same : id' = id
      · subst same
        rw [Function.update_self, last_nil]
        exact ⟨[], List.nil_suffix, .nil⟩
      · rw [Function.update_of_ne same]
        exact kept.fed id' (((alive id').mp there).resolve_right same)
  · exact (closed_le (s := s) (t := s.step (.connect id)) rfl fun id' there => (alive id').mpr (Or.inl there)).trans kept.bound

theorem kept_look (kept : Kept s) : Kept (s.step (.look n)) := by
  simp only [step]
  split
  · next id here =>
    refine kept_setStage kept here rfl fun ref stage => ?_
    split at stage <;> cases stage
  · exact kept

theorem kept_close (kept : Kept s) : Kept (s.step (.close n)) := by
  simp only [step]
  split
  · next id here =>
    have there : id ∈ s.attempts.map Attempt.id := mem_ids here
    have alive (id' : Str) (open_ : s.Alive id') : ({ s with connections := s.connections.erase id } : Store).Alive id' := by
      rw [disconnect_alive]
      by_cases same : id' = id
      · exact Or.inr (same ▸ there)
      · exact open_.imp (fun found => ⟨same, found⟩) fun attempt => attempt
    have closed := kept_disconnect kept (le_trans (closed_le (s := s) rfl alive) kept.bound)
    refine kept_setStage closed here rfl fun ref stage => ?_
    cases stage
  · exact kept

theorem step_start (here : s.attempts[n]? = some { id := id, stage := .ready }) :
    s.step (.start n rt) = (s.logFor rt id).1.setStage n { id := id, stage := .dialling (s.logFor rt id).2 } := by
  simp only [step, here]

theorem kept_start (kept : Kept s) (spares : s.Spares (.start n rt)) : Kept (s.step (.start n rt)) := by
  by_cases ready : ∃ id, s.attempts[n]? = some { id := id, stage := .ready }
  · obtain ⟨id, here⟩ := ready
    obtain ⟨kept', found, -, attempts⟩ := kept_logFor rt kept (Or.inr (mem_ids here)) (spares id here)
    rw [step_start here]
    rw [← attempts] at here
    refine kept_setStage kept' here rfl fun ref stage => ?_
    cases stage
    exact found
  · simp only [step]
    split
    · next id here => exact absurd ⟨id, here⟩ ready
    · exact kept

/-- The log of a connection being dialled is its own. -/
theorem Kept.owner (kept : Kept s) (here : s.attempts[n]? = some { id := id, stage := .dialling ref }) :
    s.logs.lookup id = some ref ∧ (s.cell ref).owner = id := by
  have found := kept.dialled _ (List.mem_of_getElem? here) ref rfl
  exact ⟨found, (kept.owned id ref found).2⟩

theorem kept_fail (kept : Kept s) (bound : s.Ends (.fail n e) → s.closed < maxLogs) : Kept (s.step (.fail n e)) := by
  simp only [step]
  split
  · next id ref here =>
    obtain ⟨found, owner⟩ := kept.owner here
    have added : Kept (s.add true ref e) := kept.add fun _ => owner.symm ▸ found
    have ids := ids_eraseIdx here
    refine added.moved s.connections (s.attempts.eraseIdx n) kept.opened
      (fun a member ref' stage => kept.dialled a ((List.eraseIdx_sublist _ _).subset member) ref' stage)
      (fun id' there => there.imp (fun open_ => open_) fun attempt => (ids id').mpr (Or.inr attempt)) ?_
    by_cases last : s.connections.lookup id = none ∧ id ∉ (s.attempts.eraseIdx n).map Attempt.id
    · have room := bound ⟨id, ref, here, last⟩
      refine le_trans (closed_end (s := s) rfl fun id' (other : id' ≠ id) there => ?_) room
      exact there.imp (fun open_ => open_) fun attempt => ((ids id').mp attempt).resolve_left other
    · refine le_trans (closed_le (s := s) rfl fun id' there => ?_) kept.bound
      by_cases same : id' = id
      · subst same
        by_cases open_ : s.connections.lookup id' = none
        · exact Or.inr (by_contra fun absent => last ⟨open_, absent⟩)
        · exact Or.inl open_
      · exact there.imp (fun open_ => open_) fun attempt => ((ids id').mp attempt).resolve_left same
  · exact kept

theorem kept_register (kept : Kept s) : Kept (s.step (.register n)) := by
  simp only [step]
  split
  · next id ref here =>
    obtain ⟨found, -⟩ := kept.owner here
    have ids := ids_eraseIdx here
    have open_ (id' : Str) : (s.connections.insert id ref).lookup id' ≠ none ↔ id' = id ∨ s.connections.lookup id' ≠ none := by
      by_cases same : id' = id
      · subst same
        simp [AList.lookup_insert]
      · simp [AList.lookup_insert_ne same, same]
    refine kept.moved (s.connections.insert id ref) (s.attempts.eraseIdx n) (fun id' ref' there => ?_)
      (fun a member ref' stage => kept.dialled a ((List.eraseIdx_sublist _ _).subset member) ref' stage) (fun id' there => ?_) ?_
    · by_cases same : id' = id
      · subst same
        rw [AList.lookup_insert] at there
        cases there
        exact found
      · exact kept.opened id' ref' ((AList.lookup_insert_ne same).symm.trans there)
    · rcases there with registered | attempt
      · rcases (open_ id').mp registered with rfl | before
        · exact Or.inr (mem_ids here)
        · exact Or.inl before
      · exact Or.inr ((ids id').mpr (Or.inr attempt))
    · refine le_trans (closed_le (s := s) rfl fun id' there => ?_) kept.bound
      rcases there with before | attempt
      · exact Or.inl ((open_ id').mpr (Or.inr before))
      · rcases (ids id').mp attempt with rfl | other
        · exact Or.inl ((open_ id').mpr (Or.inl rfl))
        · exact Or.inr other
  · exact kept

theorem kept_step (kept : Kept s) (l : Act) (allowed : s.Allowed l) : Kept (s.step l) := by
  cases l with
  | connect id => exact kept_connect kept
  | look n => exact kept_look kept
  | close n => exact kept_close kept
  | start n rt => exact kept_start kept allowed.1
  | dialled n e =>
    simp only [step]
    split
    · next id ref here =>
      obtain ⟨found, owner⟩ := kept.owner here
      exact kept.add fun _ => owner.symm ▸ found
    · exact kept
  | fail n e => exact kept_fail kept allowed.2
  | register n => exact kept_register kept
  | disconnect id =>
    refine kept_disconnect kept ?_
    by_cases ends : s.Ends (.disconnect id)
    · refine le_trans (closed_end (s := s) rfl fun id' (other : id' ≠ id) there => ?_) (allowed.2 ends)
      exact (disconnect_alive id').mpr (there.imp (fun open_ => ⟨other, open_⟩) fun attempt => attempt)
    · refine le_trans (closed_le (s := s) rfl fun id' there => (disconnect_alive id').mpr ?_) kept.bound
      by_cases same : id' = id
      · subst same
        rcases there with open_ | attempt
        · exact Or.inr (by_contra fun absent => ends ⟨open_, absent⟩)
        · exact Or.inr attempt
      · exact there.imp (fun open_ => ⟨same, open_⟩) fun attempt => attempt
  | happened id e =>
    simp only [step]
    split
    · next ref here =>
      have found := kept.opened id ref here
      exact kept.add fun _ => (kept.owned id ref found).2.symm ▸ found
    · exact kept
  | late ref e =>
    simp only [step]
    split
    · exact kept.add fun live => absurd live Bool.false_ne_true
    · exact kept

/-- A step that takes the log of a connection being dialled is seen at once. -/
theorem spares_of_readable (readable : Readable (s.step (.start n rt))) : s.Spares (.start n rt) := by
  intro id here none many v found
  obtain ⟨member, -⟩ := quietest_free found
  have other : v ≠ id := by
    rintro rfl
    exact AList.lookup_eq_none.mp none member
  rw [step_start here] at readable
  have gone : (s.logFor rt id).1.logs.lookup v = Option.none := by
    simp only [Store.logFor, none, if_pos many, Store.dropQuietestLog, found]
    rw [AList.lookup_insert_ne other]
    exact AList.lookup_erase _ _
  have attempts : (s.logFor rt id).1.attempts = s.attempts := by
    simp only [Store.logFor, none, if_pos many, Store.dropQuietestLog, found]
  refine ⟨fun a member ref stage same => ?_, fun alive => ?_⟩
  · obtain ⟨i, there⟩ := List.mem_iff_getElem?.mp member
    have apart : n ≠ i := by
      rintro rfl
      rw [here] at there
      cases there
      cases stage
    have still : a ∈ ((s.logFor rt id).1.setStage n { id := id, stage := .dialling (s.logFor rt id).2 }).attempts := by
      refine List.mem_of_getElem? (i := i) ?_
      simp only [Store.setStage, attempts]
      rw [List.getElem?_set_ne apart]
      exact there
    have lookup := readable.dialled a still ref stage
    rw [same] at lookup
    exact absurd (gone.symm.trans lookup) (by simp)
  · have since : (s.logFor rt id).1.since = s.since := by
      simp only [Store.logFor, none, if_pos many, Store.dropQuietestLog, found]
    have connections : (s.logFor rt id).1.connections = s.connections := by
      simp only [Store.logFor, none, if_pos many, Store.dropQuietestLog, found]
    have there : ((s.logFor rt id).1.setStage n { id := id, stage := .dialling (s.logFor rt id).2 }).Alive v := by
      rw [← attempts] at here
      refine (setStage_alive (b := { id := id, stage := .dialling (s.logFor rt id).2 }) here rfl v).mpr ?_
      unfold Store.Alive
      rwa [connections, attempts]
    have told := readable.events v there
    have log : ((s.logFor rt id).1.setStage n { id := id, stage := .dialling (s.logFor rt id).2 }).log v = [] := by
      simp only [Store.log, Store.setStage, gone, Option.elim_none]
    rw [log] at told
    simp only [Store.setStage, since] at told
    exact List.eq_nil_of_sublist_nil told

/-- A log too many is seen at once. -/
theorem Readable.closed_le (readable : Readable s) : s.closed ≤ maxLogs := by
  have all := List.length_eq_countP_add_countP (fun id => decide (s.Alive id)) (l := s.logs.keys)
  have bound := readable.bound
  unfold Store.closed
  simp only [decide_eq_true_eq] at all
  omega

theorem room_of_readable (kept : Kept s) {l : Act} (readable : Readable (s.step l)) (ends : s.Ends l) : s.closed < maxLogs := by
  have after := readable.closed_le
  refine lt_of_lt_of_le (Nat.lt_succ_self _) (le_trans ?_ after)
  cases l with
  | disconnect id =>
    obtain ⟨open_, alone⟩ := ends
    obtain ⟨ref, found⟩ := Option.ne_none_iff_exists'.mp open_
    have logged : id ∈ s.logs.keys := AList.lookup_isSome.mp (kept.opened id ref found ▸ rfl)
    refine closed_more rfl logged (Or.inl open_) (fun there => ?_) fun id' there => ?_
    · exact ((disconnect_alive id).mp there).elim (fun both => both.1 rfl) alone
    · exact ((disconnect_alive id').mp there).imp (fun both => both.2) fun attempt => attempt
  | fail n e =>
    obtain ⟨id, ref, here, closed, alone⟩ := ends
    obtain ⟨found, -⟩ := kept.owner here
    have logged : id ∈ s.logs.keys := AList.lookup_isSome.mp (found ▸ rfl)
    have stepped : s.step (.fail n e) = { s.add true ref e with attempts := s.attempts.eraseIdx n } := by simp only [step, here]
    rw [stepped]
    refine closed_more rfl logged (Or.inr (mem_ids here)) (fun there => there.elim (fun open_ => open_ closed) alone) fun id' there => ?_
    exact there.imp (fun open_ => open_) fun attempt => (ids_eraseIdx here id').mpr (Or.inr attempt)
  | _ => exact absurd ends (fun no => no)

/-- In every state of a run the log of a connection is the one that can be read, holds its events, and no log is kept too
many, exactly if a log that has to go is always spared and there is room for one when a connection ends. -/
theorem readable_iff (labels : List Act) :
    (∀ before, before <+: labels → Readable (run step new before)) ↔ Along step Allowed new labels := by
  refine visible_iff (P := Kept) (fun kept => kept.readable) (fun kept l allowed => kept_step kept l allowed)
    (fun {s} kept l readable => ⟨?_, room_of_readable kept readable⟩) kept_new
  cases l with
  | start n rt => exact spares_of_readable readable
  | _ => trivial

def noted (kind : String) : Event :=
  { happened := 1, link := "api".toList, kind := kind.toList, server := [], cid := 0, detail := [] }

def nameOf (k : ℕ) : Str := ['c', Char.ofNat (256 + k)]

/-- `maxLogs` connections are open when two more are dialled at once. -/
def crowded : List Act :=
  ((List.range maxLogs).flatMap fun k =>
    [.connect (nameOf k), .look 0, .start 0 .plain, .register 0]) ++
    [.connect ['a'], .connect ['b'], .look 0, .look 1, .start 0 .plain, .start 1 .plain, .register 0, .happened ['a'] (noted "connected")]

theorem nameOf_inj {i j : ℕ} (small : i < maxLogs) (small' : j < maxLogs) (same : nameOf i = nameOf j) : i = j := by
  have value {k : ℕ} (small : k < maxLogs) : (Char.ofNat (256 + k)).toNat = 256 + k := by
    have valid : (256 + k).isValidChar := Or.inl (by
      rw [maxLogs] at small
      omega)
    rw [Char.ofNat, dif_pos valid]
    rfl
  have chars : Char.ofNat (256 + i) = Char.ofNat (256 + j) := (List.cons.inj (List.cons.inj same).2).1
  have := congrArg Char.toNat chars
  rw [value small, value small'] at this
  exact Nat.add_left_cancel this

theorem keys_insert_fresh {m : Map Str ℕ} {id : Str} {ref : ℕ} (fresh : id ∉ m.keys) : (m.insert id ref).keys = id :: m.keys :=
  congrArg List.keys (AList.entries_insert_of_notMem fresh)

/-- Connections are open, the last one first, and nobody is dialling. -/
structure Crowd (s : Store) (n : ℕ) : Prop where
  idle : s.attempts = []
  next : s.next = n
  logged : s.logs.keys = ((List.range n).map nameOf).reverse
  opened : s.connections.keys = s.logs.keys

theorem Crowd.grows {k : ℕ} (crowd : Crowd s k) (room : k < maxLogs) :
    Crowd (run step s [.connect (nameOf k), .look 0, .start 0 .plain, .register 0]) (k + 1) := by
  have absent : nameOf k ∉ s.logs.keys := by
    rw [crowd.logged, List.mem_reverse, List.mem_map]
    rintro ⟨i, below, same⟩
    have below := List.mem_range.mp below
    exact absurd (nameOf_inj (below.trans room) room same) below.ne
  have unlogged : s.logs.lookup (nameOf k) = none := AList.lookup_eq_none.mpr absent
  have closed : s.connections.lookup (nameOf k) = none := AList.lookup_eq_none.mpr (show nameOf k ∉ s.connections.keys from crowd.opened ▸ absent)
  have few : ¬ maxLogs ≤ s.logs.keys.length := by
    rw [crowd.logged, List.length_reverse, List.length_map, List.length_range]
    exact not_le.mpr room
  simp only [run, List.foldl_cons, List.foldl_nil, step, crowd.idle, List.nil_append, List.getElem?_cons_zero, closed,
    Option.isSome_none, Bool.false_eq_true, if_false, setStage, List.set_cons_zero, logFor, unlogged, few, List.eraseIdx_cons_zero]
  refine ⟨rfl, congrArg (· + 1) crowd.next, ?_, ?_⟩
  · rw [List.range_succ, List.map_append, List.reverse_append, ← crowd.logged]
    exact keys_insert_fresh absent
  · rw [AList.keys_insert, AList.keys_insert, crowd.opened]

theorem crowd_run (n : ℕ) (few : n ≤ maxLogs) : Crowd (run step new ((List.range n).flatMap fun k =>
    [.connect (nameOf k), .look 0, .start 0 .plain, .register 0])) n := by
  induction n with
  | zero => exact ⟨rfl, rfl, rfl, rfl⟩
  | succ n ih =>
    rw [List.range_succ, List.flatMap_append, run_append]
    exact (ih (Nat.le_of_lt few)).grows few

/-- Logs of open connections are passed over. -/
theorem foldl_quieter {l : List Str} (open_ : ∀ id ∈ l, (s.connections.lookup id).isSome) (best : Str × Int) : l.foldl s.quieter best = best := by
  induction l with
  | nil => rfl
  | cons id l ih =>
    obtain ⟨here, open_⟩ := List.forall_mem_cons.mp open_
    rw [List.foldl_cons, quieter, if_pos here]
    exact ih open_

/-- Where all logs but the last one are of open connections, room is made of that one. -/
theorem quietest_last {a : Str} {ids : List Str} (named : a ≠ []) (keys : s.logs.keys = a :: ids) (closed : s.connections.lookup a = none)
    (open_ : ∀ id ∈ ids, (s.connections.lookup id).isSome) : s.quietest .plain = some a := by
  have first : s.quieter ([], 0) a = (a, s.lastAt ((s.logs.lookup a).getD 0)) := by
    rw [quieter, closed]
    exact (if_neg Bool.false_ne_true).trans (if_pos (.inl rfl))
  have all : (Runtime.plain.range s.logs.keys).foldl s.quieter ([], 0) = (a, s.lastAt ((s.logs.lookup a).getD 0)) := by
    change s.logs.keys.foldl s.quieter ([], 0) = _
    rw [keys, List.foldl_cons, first, foldl_quieter open_]
  rw [quietest, all]
  exact if_neg named

theorem quietest_none (open_ : ∀ id ∈ s.logs.keys, s.connections.lookup id ≠ none) (rt : Runtime) : s.quietest rt = none := by
  cases found : s.quietest rt with
  | none => rfl
  | some id => exact absurd (quietest_free found).2 (open_ id (quietest_free found).1)

theorem logFor_full {id : Str} (rt : Runtime) (absent : s.logs.lookup id = none) (full : maxLogs ≤ s.logs.keys.length) :
    (s.logFor rt id).1.logs = (s.dropQuietestLog rt).logs.insert id (s.dropQuietestLog rt).next ∧
      (s.logFor rt id).1.attempts = (s.dropQuietestLog rt).attempts ∧ (s.logFor rt id).1.connections = (s.dropQuietestLog rt).connections ∧
      (s.logFor rt id).2 = (s.dropQuietestLog rt).next := by
  rw [logFor, absent]
  dsimp only
  rw [if_pos full]
  exact ⟨rfl, rfl, rfl, rfl⟩

/-- Where all logs are of open connections and two more are dialled at once, the second takes the log of the first. -/
theorem Crowd.overflows {a b : Str} {e : Event} (crowd : Crowd s maxLogs) (apart : b ≠ a) (named : a ≠ []) (absent : a ∉ s.logs.keys)
    (absent' : b ∉ s.logs.keys) :
    let s' := run step s ([.connect a, .connect b, .look 0, .look 1] ++ [.start 0 .plain, .start 1 .plain, .register 0, .happened a e])
    s'.connections.lookup a = some maxLogs ∧ s'.logs.lookup a = none := by
  have closed : s.connections.lookup a = none := AList.lookup_eq_none.mpr (show a ∉ s.connections.keys from crowd.opened ▸ absent)
  have closed' : s.connections.lookup b = none := AList.lookup_eq_none.mpr (show b ∉ s.connections.keys from crowd.opened ▸ absent')
  have open_ : ∀ id ∈ s.logs.keys, (s.connections.lookup id).isSome := fun id there =>
    AList.lookup_isSome.mpr (show id ∈ s.connections.keys from crowd.opened ▸ there)
  have full : maxLogs ≤ s.logs.keys.length := by
    rw [crowd.logged, List.length_reverse, List.length_map, List.length_range]
  -- the two find no connection of their names
  have called : let t := run step s [.connect a, .connect b, .look 0, .look 1]
      t.attempts = [{ id := a, stage := .ready }, { id := b, stage := .ready }] ∧ t.logs = s.logs ∧ t.connections = s.connections ∧
        t.next = s.next := by
    simp only [run, List.foldl_cons, List.foldl_nil, step, crowd.idle, List.nil_append, List.cons_append, List.getElem?_cons_zero,
      List.getElem?_cons_succ, closed, closed', Option.isSome_none, Bool.false_eq_true, if_false, setStage, List.set_cons_zero,
      List.set_cons_succ, and_self]
  rw [run_append]
  generalize run step s [.connect a, .connect b, .look 0, .look 1] = t at called
  obtain ⟨attempts, logs, connections, next⟩ := called
  -- the first takes a log more, since no other can go
  have started : (step t (.start 0 .plain)).attempts = [{ id := a, stage := .dialling s.next }, { id := b, stage := .ready }] ∧
      (step t (.start 0 .plain)).logs = s.logs.insert a s.next ∧ (step t (.start 0 .plain)).connections = s.connections := by
    have spared : t.dropQuietestLog .plain = t := by
      rw [dropQuietestLog, quietest_none]
      intro id there
      rw [connections]
      exact Option.isSome_iff_ne_none.mp (open_ id (logs ▸ there))
    have unlogged : t.logs.lookup a = none := by rwa [logs, AList.lookup_eq_none]
    obtain ⟨logs', attempts', connections', ref⟩ := logFor_full .plain unlogged (by rwa [logs])
    rw [spared] at logs' attempts' connections' ref
    rw [step_start (by rw [attempts]; rfl)]
    simp only [setStage, logs', attempts', connections', ref, attempts, logs, connections, next, List.set_cons_zero, and_self]
  rw [run, List.foldl_cons]
  generalize step t (.start 0 .plain) = u at started
  obtain ⟨attempts, logs, connections⟩ := started
  -- and the second takes its place
  have replaced : (step u (.start 1 .plain)).attempts[0]? = some { id := a, stage := .dialling s.next } ∧
      (step u (.start 1 .plain)).logs.lookup a = none := by
    have keys : u.logs.keys = a :: s.logs.keys := by
      rw [logs, keys_insert_fresh absent]
    have last : u.quietest .plain = some a := by
      refine quietest_last named keys ?_ ?_
      · rwa [connections]
      · rwa [connections]
    have dropped : u.dropQuietestLog .plain = { u with logs := u.logs.erase a } := by rw [dropQuietestLog, last]
    have unlogged : u.logs.lookup b = none := by
      rw [AList.lookup_eq_none, AList.mem_keys, keys]
      exact List.not_mem_cons_of_ne_of_not_mem apart absent'
    obtain ⟨logs', attempts', -, ref⟩ := logFor_full .plain unlogged (by rw [keys]; exact full.trans (Nat.le_succ _))
    rw [dropped] at logs' attempts' ref
    rw [step_start (by rw [attempts]; rfl)]
    simp only [setStage, logs', attempts', ref, attempts]
    refine ⟨rfl, ?_⟩
    rw [AList.lookup_insert_ne apart.symm, AList.lookup_erase]
  rw [List.foldl_cons]
  generalize step u (.start 1 .plain) = v at replaced
  obtain ⟨first, gone⟩ := replaced
  have ends : [Act.register 0, .happened a e].foldl step v =
      ({ v with connections := v.connections.insert a s.next, attempts := v.attempts.eraseIdx 0 } : Store).add true s.next e := by
    simp only [List.foldl_cons, List.foldl_nil, step, first, AList.lookup_insert]
  rw [ends]
  exact ⟨crowd.next ▸ AList.lookup_insert _, gone⟩

theorem crowded_lost : (run step new crowded).connections.lookup ['a'] = some 100 ∧ (run step new crowded).logs.lookup ['a'] = none := by
  have crowd := crowd_run maxLogs le_rfl
  have absent (c : Char) : [c] ∉ (run step new ((List.range maxLogs).flatMap fun k =>
      [.connect (nameOf k), .look 0, .start 0 .plain, .register 0])).logs.keys := by
    rw [crowd.logged, List.mem_reverse, List.mem_map]
    rintro ⟨k, -, same⟩
    cases same
  rw [crowded, run_append]
  exact crowd.overflows (by decide) (List.cons_ne_nil _ _) (absent 'a') (absent 'b')

/-- The first of the two is open and its log is not the one that can be read. -/
theorem log_unreadable : ¬ Readable (run step new crowded) ∧ (run step new crowded).log ['a'] = [] := by
  obtain ⟨open_, gone⟩ := crowded_lost
  refine ⟨fun readable => ?_, ?_⟩
  · exact absurd (gone.symm.trans (readable.opened ['a'] 100 open_)) (by simp)
  · rw [Store.log, gone, Option.elim_none]

end Invariant

end NatsExplorer.Connection.LogStore
