import NatsExplorer.Alerts.Active

/-! Calls of the engine that run at the same time. The rules and the table of them are
atomic pointers, the states a `sync.Map` of pointers to states with a lock each, and the
active alerts are behind the engine's lock; a step is what happens between two of these. -/
namespace NatsExplorer.Alerts
open Go

abbrev Ref := Nat

/-- What an `Observe` or a `Tick` has still to go through; the states a `Range` starts
with and the keys it has been at. -/
inductive Job (F : Type) where
  | observe (rules : List (Compiled F)) (connID : Str) (r : Record) (now : Int)
  | tick (byID : Map Str (Compiled F)) (todo : Map Str Ref) (seen : List Str) (now : Int)

inductive Sweep (F : Type) where
  | setRules (old byID : Map Str (Compiled F)) (now : Int)
  | forget (connID : Str)

inductive Phase (F : Type) where
  | idle
  | between (job : Job F)
  | found (job : Job F) (c : Compiled F) (st : Ref)
  | holding (job : Job F) (c : Compiled F) (st : Ref) (effects : List Effect)
  | compiled (cs : List (Compiled F)) (byID : Map Str (Compiled F)) (now : Int)
  | loaded (cs : List (Compiled F)) (byID old : Map Str (Compiled F)) (now : Int)
  | storing (byID old : Map Str (Compiled F)) (now : Int)
  | stored (byID old : Map Str (Compiled F)) (now : Int)
  | sweeping (sweep : Sweep F) (todo : Map Str Ref) (seen : List Str)
  | condemned (sweep : Sweep F) (todo : Map Str Ref) (seen : List Str) (k : Str)
  | removed (sweep : Sweep F) (todo : Map Str Ref) (seen : List Str) (k : Str)
  | muting (now : Int)
  | refreshing (byID : Map Str (Compiled F)) (now : Int)

section Job
variable {F : Type}

def Job.now : Job F → Int
  | .observe _ _ _ now => now
  | .tick _ _ _ now => now

def Job.turn [Numbers F] [Payloads F] (c : Compiled F) (st : SubjectState F) :
    Job F → SubjectState F × List Effect
  | .observe _ _ r now => st.observe c r now
  | .tick _ _ _ now => st.tick c now

def Sweep.takes [DecidableEq F] (st : SubjectState F) : Sweep F → Bool
  | .setRules old byID _ => Engine.outdated old byID st
  | .forget connID => st.connID = connID

end Job

/-- The engine and the goroutines `T` in it. The code does not keep `raiser`: the state
that an alert was raised by. -/
structure Shared (T F : Type) where
  rules : List (Compiled F)
  byID : Map Str (Compiled F)
  maintenance : List Maintenance
  states : Map Str Ref
  heap : Ref → SubjectState F
  next : Ref
  mu : Ref → Option T
  active : Map Str Alert
  raiser : Str → Option Ref
  phase : T → Phase F

inductive Act (T F : Type) where
  | observe (t : T) (connID : Str) (r : Record) (now : Nat)
  | skip (t : T)
  | load (t : T)
  | create (t : T)
  | observed (t : T)
  | tick (t : T) (now : Nat)
  | pass (t : T) (k : Str)
  | visit (t : T) (k : Str)
  | ticked (t : T)
  | enter (t : T)
  | apply (t : T)
  | leave (t : T)
  | setRules (t : T) (rules : List (Rule F)) (now : Nat)
  | loadOld (t : T)
  | storeRules (t : T)
  | storeByID (t : T)
  | sweep (t : T)
  | forget (t : T) (connID : Str)
  | keep (t : T) (k : Str)
  | condemn (t : T) (k : Str)
  | delete (t : T)
  | drop (t : T)
  | swept (t : T)
  | forgot (t : T)
  | loadTable (t : T)
  | refresh (t : T)

namespace Shared
variable {T F : Type}

def new : Shared T F where
  rules := []
  byID := ∅
  maintenance := []
  states := ∅
  heap _ := { ruleID := [], connID := [], subject := [] }
  next := 0
  mu _ := none
  active := ∅
  raiser _ := none
  phase _ := .idle

/-- The engine as one goroutine sees it behind the engine's lock. -/
def engine (s : Shared T F) (byID : Map Str (Compiled F)) : Engine F where
  rules := s.rules
  byID := byID
  states := ∅
  active := s.active
  maintenance := s.maintenance
  notified := []

/-- A `Range` ends: what it started with and is still there it has been at. -/
def Ranged (s : Shared T F) (todo : Map Str Ref) (seen : List Str) : Prop :=
  ∀ k st, todo.lookup k = some st → s.states.lookup k = some st → k ∈ seen

variable [DecidableEq T]

def goto (s : Shared T F) (t : T) (phase : Phase F) : Shared T F :=
  { s with phase := Function.update s.phase t phase }

/-- A new state under a key. -/
def put (s : Shared T F) (k : Str) (st : SubjectState F) : Shared T F :=
  { s with
    states := s.states.insert k s.next
    heap := Function.update s.heap s.next st
    next := s.next + 1 }

/-- A change of one state goes into the active alerts. -/
def act (s : Shared T F) (c : Compiled F) (st : Ref) (now : Int) (effect : Effect) : Shared T F :=
  let owner := s.heap st
  let muted := (s.engine s.byID).muted c owner.subject now
  { s with
    active := effect.apply c owner.connID owner.subject now muted s.active
    raiser :=
      match effect with
      | .change _ _ _ => Function.update s.raiser (key c.id owner.connID owner.subject) (some st)
      | _ => s.raiser }

variable [Tables] [Filter.Compiler] [Numbers F] [Payloads F] [DecidableEq F]

inductive Step : Shared T F → Act T F → Shared T F → Prop where
  | observe {s t connID r now} : s.phase t = .idle → Plain connID →
      Step s (.observe t connID r now) (s.goto t (.between (.observe s.rules connID r now)))
  | skip {s t c rules connID r now} : s.phase t = .between (.observe (c :: rules) connID r now) →
      (¬ c.enabled ∨ ¬ matchSubject c.pattern r.subject) →
      Step s (.skip t) (s.goto t (.between (.observe rules connID r now)))
  | load {s t c rules connID r now st} : s.phase t = .between (.observe (c :: rules) connID r now) →
      c.enabled → matchSubject c.pattern r.subject →
      s.states.lookup (key c.id connID r.subject) = some st →
      Step s (.load t) (s.goto t (.found (.observe rules connID r now) c st))
  | create {s t c rules connID r now} : s.phase t = .between (.observe (c :: rules) connID r now) →
      c.enabled → matchSubject c.pattern r.subject →
      s.states.lookup (key c.id connID r.subject) = none →
      Step s (.create t) ((s.put (key c.id connID r.subject)
        { ruleID := c.id, connID := connID, subject := r.subject }).goto t
          (.found (.observe rules connID r now) c s.next))
  | observed {s t connID r now} : s.phase t = .between (.observe [] connID r now) →
      Step s (.observed t) (s.goto t .idle)
  | tick {s t now} : s.phase t = .idle →
      Step s (.tick t now) (s.goto t (.between (.tick s.byID s.states [] now)))
  | pass {s t byID todo seen now k st} : s.phase t = .between (.tick byID todo seen now) →
      k ∉ seen → s.states.lookup k = some st →
      (∀ c, byID.lookup (s.heap st).ruleID = some c → ¬ c.enabled) →
      Step s (.pass t k) (s.goto t (.between (.tick byID todo (k :: seen) now)))
  | visit {s t byID todo seen now k st c} : s.phase t = .between (.tick byID todo seen now) →
      k ∉ seen → s.states.lookup k = some st → byID.lookup (s.heap st).ruleID = some c → c.enabled →
      Step s (.visit t k) (s.goto t (.found (.tick byID todo (k :: seen) now) c st))
  | ticked {s t byID todo seen now} : s.phase t = .between (.tick byID todo seen now) →
      s.Ranged todo seen → Step s (.ticked t) (s.goto t (.muting now))
  | enter {s t job c st} : s.phase t = .found job c st → s.mu st = none →
      Step s (.enter t) ({ s with
        heap := Function.update s.heap st (job.turn c (s.heap st)).1
        mu := Function.update s.mu st (some t) }.goto t
          (.holding job c st (job.turn c (s.heap st)).2))
  | apply {s t job c st effect effects} : s.phase t = .holding job c st (effect :: effects) →
      Step s (.apply t) ((s.act c st job.now effect).goto t (.holding job c st effects))
  | leave {s t job c st} : s.phase t = .holding job c st [] →
      Step s (.leave t) ({ s with mu := Function.update s.mu st none }.goto t (.between job))
  | setRules {s t rules now cs byID} : s.phase t = .idle → (∀ rule ∈ rules, Plain rule.id) →
      Engine.compile rules ∅ = .ok (cs, byID) →
      Step s (.setRules t rules now) (s.goto t (.compiled cs byID now))
  | loadOld {s t cs byID now} : s.phase t = .compiled cs byID now →
      Step s (.loadOld t) (s.goto t (.loaded cs byID s.byID now))
  | storeRules {s t cs byID old now} : s.phase t = .loaded cs byID old now →
      Step s (.storeRules t) ({ s with rules := cs }.goto t (.storing byID old now))
  | storeByID {s t byID old now} : s.phase t = .storing byID old now →
      Step s (.storeByID t) ({ s with byID := byID }.goto t (.stored byID old now))
  | sweep {s t byID old now} : s.phase t = .stored byID old now →
      Step s (.sweep t) (s.goto t (.sweeping (.setRules old byID now) s.states []))
  | forget {s t connID} : s.phase t = .idle →
      Step s (.forget t connID) (s.goto t (.sweeping (.forget connID) s.states []))
  | keep {s t sweep todo seen k st} : s.phase t = .sweeping sweep todo seen → k ∉ seen →
      s.states.lookup k = some st → sweep.takes (s.heap st) = false →
      Step s (.keep t k) (s.goto t (.sweeping sweep todo (k :: seen)))
  | condemn {s t sweep todo seen k st} : s.phase t = .sweeping sweep todo seen → k ∉ seen →
      s.states.lookup k = some st → sweep.takes (s.heap st) = true →
      Step s (.condemn t k) (s.goto t (.condemned sweep todo (k :: seen) k))
  | delete {s t sweep todo seen k} : s.phase t = .condemned sweep todo seen k →
      Step s (.delete t) ({ s with states := s.states.erase k }.goto t (.removed sweep todo seen k))
  | drop {s t sweep todo seen k} : s.phase t = .removed sweep todo seen k →
      Step s (.drop t) ({ s with active := s.active.erase k }.goto t (.sweeping sweep todo seen))
  | swept {s t old byID now todo seen} : s.phase t = .sweeping (.setRules old byID now) todo seen →
      s.Ranged todo seen → Step s (.swept t) (s.goto t (.muting now))
  | forgot {s t connID todo seen} : s.phase t = .sweeping (.forget connID) todo seen →
      s.Ranged todo seen → Step s (.forgot t) (s.goto t .idle)
  | loadTable {s t now} : s.phase t = .muting now →
      Step s (.loadTable t) (s.goto t (.refreshing s.byID now))
  | refresh {s t byID now rt} : s.phase t = .refreshing byID now →
      Step s (.refresh t) ({ s with active := ((s.engine byID).refreshMuted rt now).active }.goto t .idle)

omit [DecidableEq T] [Tables] [Filter.Compiler] [Numbers F] [Payloads F] [DecidableEq F]

/-- Every active alert belongs to a rule that is there and enabled, and to a state that
is still there. -/
def Owned (s : Shared T F) : Prop :=
  ∀ k a, s.active.lookup k = some a →
    (∃ c, s.byID.lookup a.ruleID = some c ∧ c.enabled = true) ∧
      ∃ st, s.raiser k = some st ∧ s.states.lookup k = some st

end Shared

/-- The state under a key is gone, and the alert is about to be. -/
def Phase.Deletes {F : Type} (k : Str) : Phase F → Prop
  | .removed _ _ _ k' => k' = k
  | _ => False

/-- A call of `SetRules` that stored the table has a state still before it. -/
def Phase.Comes {F : Type} (byID : Map Str (Compiled F)) (k : Str) (st : Ref) : Phase F → Prop
  | .stored byID' _ _ => byID' = byID
  | .sweeping (.setRules _ byID' _) todo seen => byID' = byID ∧ todo.lookup k = some st ∧ k ∉ seen
  | .condemned (.setRules _ byID' _) todo seen k' =>
    byID' = byID ∧ (k' = k ∨ todo.lookup k = some st ∧ k ∉ seen)
  | .removed (.setRules _ byID' _) todo seen _ => byID' = byID ∧ todo.lookup k = some st ∧ k ∉ seen
  | _ => False

namespace Shared
variable {T F : Type}

/-- An alert of a state is in order, or a call under way will delete it. -/
def Covered (s : Shared T F) (k : Str) (st : Ref) (ruleID : Str) : Prop :=
  (∃ t, (s.phase t).Deletes k) ∨
    s.states.lookup k = some st ∧
      ((∃ c, s.byID.lookup ruleID = some c ∧ c.enabled = true) ∨
        ∃ t, (s.phase t).Comes s.byID k st)

/-- No alert is raised for a state or a rule that is gone, unless the call that took
them has still to delete it. -/
def Current (s : Shared T F) : Act T F → Prop
  | .apply t => ∀ job c st state preview seen effects,
      s.phase t = .holding job c st (.change state preview seen :: effects) → state ≠ .resolved →
        s.Covered (key c.id (s.heap st).connID (s.heap st).subject) st c.id
  | _ => True

end Shared
end NatsExplorer.Alerts
