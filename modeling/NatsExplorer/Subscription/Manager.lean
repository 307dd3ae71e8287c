import NatsExplorer.Subscription.Handoff
import NatsExplorer.Subscription.Tree

/-! The subjects a connection has seen, in shards under their own locks and in the
tree under the manager's (`internal/subscription/manager.go`, `resubscribe.go`,
`restore.go`). Every function is cut where it lets go of a lock; what runs under
one lock is one definition. The rates a tick reads are an argument. -/
namespace NatsExplorer.Subscription
open Go

structure PatternStat where
  pattern : Str
  subjects : Int

namespace Shard

def new : Shard where
  subjects := ∅
  dirty := []
  active := ∅
  pend := []
  queue := []

/-- What `process` does under the lock. -/
def observe (sh : Shard) (rec : Record) : Shard :=
  let st := (sh.subjects.lookup rec.subject).getD { count := 0, last := none }
  { sh with
    subjects := sh.subjects.insert rec.subject { count := st.count + 1, last := some rec }
    active := sh.active.insert rec.subject ()
    dirty := sh.dirty ++ [rec.subject] }

/-- The turn of `Forget` for one shard; `gone` is what the shards before gave. -/
def forget (sh : Shard) (wanted gone : List Str) : Shard × List Str :=
  let here := sh.subjects.keys.filter (· ∈ wanted)
  let gone := gone ++ here
  ({ sh with
      subjects := here.foldl (fun m s => m.erase s) sh.subjects
      active := here.foldl (fun m s => m.erase s) sh.active
      dirty := if 0 < gone.length ∧ 0 < sh.dirty.length then sh.dirty.filter (· ∉ wanted) else sh.dirty },
    gone)

/-- The turn of `ForgetAll`. -/
def forgetAll (sh : Shard) : Shard := { sh with subjects := ∅, dirty := [], active := ∅ }

section Sync
variable {R : Type} [Zero R] [DecidableEq R] (rates : Str → R)

/-- A touched subject goes into the tree once. -/
def syncTouched (subjects : Map Str SubjectStats) :
    List Str → List Str → Tree R → Tree R × List Str
  | [], seen, t => (t, seen)
  | subject :: touched, seen, t =>
    if subject ∈ seen then syncTouched subjects touched seen t
    else
      let t :=
        match subjects.lookup subject with
        | none => t
        | some st => t.observe subject st.count.toNat (rates subject) st.last
      syncTouched subjects touched (seen ++ [subject]) t

/-- Rates of subjects without new messages still decay. -/
def syncActive (subjects : Map Str SubjectStats) (seen : List Str) :
    List Str → KeySet Str → Tree R → Tree R × KeySet Str
  | [], active, t => (t, active)
  | subject :: rest, active, t =>
    if subject ∈ seen then syncActive subjects seen rest active t
    else
      match subjects.lookup subject with
      | none => syncActive subjects seen rest (active.erase subject) t
      | some st =>
        let rate := rates subject
        let t :=
          match t.nodes.lookup subject with
          | none => t
          | some n =>
            if (t.heap n).rate ≠ rate then t.observe subject st.count.toNat rate st.last else t
        syncActive subjects seen rest (if rate = 0 then active.erase subject else active) t

/-- The turn of `syncTree` for one shard. -/
def sync (rt : Runtime) (sh : Shard) (t : Tree R) : Shard × Tree R :=
  let (t, seen) := syncTouched rates sh.subjects sh.dirty [] t
  let (t, active) := syncActive rates sh.subjects seen (rt.range sh.active.keys) sh.active t
  ({ sh with dirty := [], active := active }, t)

end Sync
end Shard

namespace Shards

/-- `hash` stands for `message.SubjectHash`, which is seeded anew in every process. -/
structure Manager (R : Type) where
  hash : Str → Nat
  shards : List Shard
  subjectCount : Int
  patterns : List PatternStat
  tree : Tree R

namespace Manager
variable {R : Type}

def shardOf (m : Manager R) (subject : Str) : Nat := m.hash subject % m.shards.length

/-- Every subject in the shards. -/
def known (m : Manager R) : List Str := m.shards.flatMap fun sh => sh.subjects.keys

/-- A subject that is seen for the first time counts for every pattern it matches. -/
def counted (patterns : List PatternStat) (subject : Str) : List PatternStat :=
  patterns.map fun p =>
    if matchSubject p.pattern subject then { p with subjects := p.subjects + 1 } else p

/-- The hot path, up to the feed and the history. -/
def process (m : Manager R) (rec : Record) : Manager R :=
  match m.shards[m.shardOf rec.subject]? with
  | none => m
  | some sh =>
    let m := { m with shards := m.shards.set (m.shardOf rec.subject) (sh.observe rec) }
    if (sh.subjects.lookup rec.subject).isSome then m
    else { m with
      subjectCount := m.subjectCount + 1
      patterns := counted m.patterns rec.subject }

/-- Counters of a pattern that stays survive the change. -/
def setPatterns (m : Manager R) (subjects : List Str) : Manager R :=
  { m with patterns := subjects.map fun subj =>
      (m.patterns.reverse.find? fun p => p.pattern = subj).getD { pattern := subj, subjects := 0 } }

/-- The loop of `Forget` over the shards. -/
def forgetShards (wanted : List Str) : List Shard → List Str → List Shard × List Str
  | [], gone => ([], gone)
  | sh :: rest, gone =>
    let (sh, gone) := sh.forget wanted gone
    let (rest, gone) := forgetShards wanted rest gone
    (sh :: rest, gone)

def recountSubjects (m : Manager R) : Manager R :=
  { m with subjectCount := ((m.shards.map fun sh => sh.subjects.keys.length).sum : Nat) }

section Tree
variable [Zero R]

def removeAll (m : Manager R) (gone : List Str) : Manager R :=
  { m with tree := gone.foldl Tree.remove m.tree }

variable [DecidableEq R]

/-- The loop of `syncTree` over the shards. -/
def syncShards (rates : Str → R) (rt : Runtime) : List Shard → Tree R → List Shard × Tree R
  | [], t => ([], t)
  | sh :: rest, t =>
    let (sh, t) := sh.sync rates rt t
    let (rest, t) := syncShards rates rt rest t
    (sh :: rest, t)

variable [Add R]

/-- `emitTree`, without what goes to the tabs. -/
def emitTree (m : Manager R) (rates : Str → R) (rt : Runtime) : Manager R :=
  let (shards, tree) := syncShards rates rt m.shards m.tree
  { m with shards := shards, tree := (tree.refresh rt).clearDirty }

def setSubjects (m : Manager R) (subjects : List Str) (rates : Str → R) (rt : Runtime) : Manager R :=
  (m.setPatterns subjects).emitTree rates rt

def forget (m : Manager R) (subjects : List Str) (rates : Str → R) (rt : Runtime) : Manager R :=
  if subjects = [] then m
  else
    let (shards, gone) := forgetShards subjects m.shards []
    if gone = [] then { m with shards := shards }
    else
      let m := { m with shards := shards }
      (m.recountSubjects.removeAll gone).emitTree rates rt

def forgetAll (m : Manager R) (rates : Str → R) (rt : Runtime) : Manager R :=
  let m := { m with
    shards := m.shards.map Shard.forgetAll
    subjectCount := 0
    patterns := m.patterns.map fun p : PatternStat => { p with subjects := 0 }
    tree := .newTree }
  m.emitTree rates rt

end Tree

section Start
variable [Zero R]

def shardCount (cpus : Nat) : Nat := min 16 (max 2 cpus)

/-- One recorded subject comes back if a pattern covers it. -/
def restoreSubject (m : Manager R) (subject : Str) (st : SubjectStats) : Manager R :=
  if m.patterns.any fun p => matchSubject p.pattern subject then
    let m := { m with patterns := counted m.patterns subject }
    let m :=
      match m.shards[m.shardOf subject]? with
      | none => m
      | some sh =>
        if (sh.subjects.lookup subject).isSome then m
        else { m with
          shards := m.shards.set (m.shardOf subject)
            { sh with subjects := sh.subjects.insert subject st }
          subjectCount := m.subjectCount + 1 }
    { m with tree := m.tree.observe subject st.count.toNat 0 st.last }
  else m

/-- `restoreSubjects`, from what the database has of each subject. -/
def restoreSubjects (m : Manager R) (recorded : Map Str SubjectStats) : Manager R :=
  recorded.entries.foldl (fun m e => m.restoreSubject e.1 e.2) m

/-- `Start`, up to the subscriptions. -/
def start (hash : Str → Nat) (cpus : Nat) (subjects : List Str) (recorded : Map Str SubjectStats) :
    Manager R :=
  restoreSubjects {
    hash := hash
    shards := List.replicate (shardCount cpus) .new
    subjectCount := 0
    patterns := subjects.map fun subj => { pattern := subj, subjects := 0 }
    tree := .newTree } recorded

end Start
end Manager
end Shards
end NatsExplorer.Subscription
