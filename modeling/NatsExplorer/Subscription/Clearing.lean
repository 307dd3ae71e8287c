import NatsExplorer.Subscription.PatternCounters
import NatsExplorer.Subscription.TreeSync

/-! Clearing subjects while messages and ticks go on
(`internal/subscription/resubscribe.go`, `manager.go`). `Forget` and `ForgetAll` take
the subjects out of one shard after the other, set the counter, and come back for
the tree under another lock. Every step below runs under one lock. -/
namespace NatsExplorer.Subscription.Shards
open Go

/-- Where a call of `Forget`, `ForgetAll` or `emitTree` stands; `cleared` has only the
`emitTree` before it that ends the first two. -/
inductive Phase where
  | idle
  | forgetting (wanted gone : List Str) (i : Nat)
  | counting (gone : List Str) (i n : Nat)
  | removing (gone : List Str)
  | emptying (i : Nat)
  | renewing
  | cleared
  | emitting (i : Nat)

/-- A clearing is half done. -/
def Phase.Clearing : Phase → Prop
  | .forgetting .. | .counting .. | .removing _ | .emptying _ | .renewing => True
  | .idle | .cleared | .emitting _ => False

/-- The manager and the goroutines `T` at it; `mu` is who holds its lock between steps. -/
structure Running (T R : Type) extends Manager R where
  phase : T → Phase
  mu : Option T

namespace Running
variable {T R : Type}

inductive Act (T R : Type) where
  | process (rec : Record)
  | forget (t : T) (subjects : List Str)
  | forgetShard (t : T)
  | forgot (t : T)
  | count (t : T)
  | store (t : T)
  | remove (t : T)
  | forgetAll (t : T)
  | emptyShard (t : T)
  | zero (t : T)
  | renew (t : T)
  | emit (t : T)
  | sync (t : T) (rates : Str → R) (rt : Runtime)
  | emitted (t : T) (rt : Runtime)

variable [DecidableEq T] [Zero R] [Add R] [DecidableEq R]

def goto (s : Running T R) (t : T) (phase : Phase) : Running T R :=
  { s with phase := Function.update s.phase t phase }

inductive Step : Running T R → Act T R → Running T R → Prop where
  | process {s rec} : Step s (.process rec) { s with toManager := s.toManager.process rec }
  | forget {s t subjects} : s.phase t = .idle → subjects ≠ [] →
      Step s (.forget t subjects) (s.goto t (.forgetting subjects [] 0))
  | forgetShard {s t wanted gone i sh} : s.phase t = .forgetting wanted gone i →
      s.shards[i]? = some sh →
      Step s (.forgetShard t) ({ s with shards := s.shards.set i (sh.forget wanted gone).1 }.goto t
        (.forgetting wanted (sh.forget wanted gone).2 (i + 1)))
  | forgot {s t wanted gone i} : s.phase t = .forgetting wanted gone i → i = s.shards.length →
      Step s (.forgot t) (s.goto t (if gone = [] then .idle else .counting gone 0 0))
  | count {s t gone i n sh} : s.phase t = .counting gone i n → s.shards[i]? = some sh →
      Step s (.count t) (s.goto t (.counting gone (i + 1) (n + sh.subjects.keys.length)))
  | store {s t gone i n} : s.phase t = .counting gone i n → i = s.shards.length →
      Step s (.store t) ({ s with subjectCount := n }.goto t (.removing gone))
  | remove {s t gone} : s.phase t = .removing gone → s.mu = none →
      Step s (.remove t) ({ s with tree := gone.foldl Tree.remove s.tree }.goto t .cleared)
  | forgetAll {s t} : s.phase t = .idle → Step s (.forgetAll t) (s.goto t (.emptying 0))
  | emptyShard {s t i sh} : s.phase t = .emptying i → s.shards[i]? = some sh →
      Step s (.emptyShard t) ({ s with shards := s.shards.set i sh.forgetAll }.goto t (.emptying (i + 1)))
  | zero {s t i} : s.phase t = .emptying i → i = s.shards.length →
      Step s (.zero t) ({ s with
        subjectCount := 0
        patterns := s.patterns.map fun p : PatternStat => { p with subjects := 0 } }.goto t .renewing)
  | renew {s t} : s.phase t = .renewing → s.mu = none →
      Step s (.renew t) ({ s with tree := .newTree }.goto t .cleared)
  | emit {s t} : s.phase t = .idle ∨ s.phase t = .cleared → s.mu = none →
      Step s (.emit t) ({ s with mu := some t }.goto t (.emitting 0))
  | sync {s t i sh rates rt} : s.phase t = .emitting i → s.shards[i]? = some sh →
      Step s (.sync t rates rt) ({ s with
        shards := s.shards.set i (sh.sync rates rt s.tree).1
        tree := (sh.sync rates rt s.tree).2 }.goto t (.emitting (i + 1)))
  | emitted {s t i rt} : s.phase t = .emitting i → i = s.shards.length →
      Step s (.emitted t rt) ({ s with
        tree := (s.tree.refresh rt).clearDirty
        mu := none }.goto t .idle)

def start (hash : Str → Nat) (cpus : Nat) (subjects : List Str) (recorded : Map Str SubjectStats) :
    Running T R where
  toManager := .start hash cpus subjects recorded
  phase _ := .idle
  mu := none

/-- Every subject is in the tree with its numbers or waits for the next tick. -/
structure Coherent (s : Running T R) : Prop where
  shown : ∀ sh ∈ s.shards, ∀ subject st, sh.subjects.lookup subject = some st →
    subject ∈ sh.dirty ∨
      ∃ r, s.tree.Live subject r ∧ (s.tree.heap r).count = st.count ∧ (s.tree.heap r).last = st.last
  counted : s.subjectCount = s.known.length

/-- A recount is past a shard. -/
def Passed (phase : T → Phase) (i : Nat) : Prop :=
  ∃ t gone j n, phase t = .counting gone j n ∧ i < j

/-- No shard that was counted gets or loses a subject during the recount, the shards
are empty when `ForgetAll` sets the counter, and what is in a shard when the tree
loses it still waits for the next tick. -/
def Undisturbed (s : Running T R) : Act T R → Prop
  | .process rec => rec.subject ∈ s.known ∨ ¬ Passed s.phase (s.shardOf rec.subject)
  | .forgetShard t => ∀ wanted gone i sh, s.phase t = .forgetting wanted gone i →
      s.shards[i]? = some sh → (∀ x ∈ sh.subjects.keys, x ∉ wanted) ∨ ¬ Passed s.phase i
  | .emptyShard t => ∀ i sh, s.phase t = .emptying i → s.shards[i]? = some sh →
      sh.subjects.keys = [] ∨ ¬ Passed s.phase i
  | .zero _ => s.known = []
  | .remove t => ∀ gone, s.phase t = .removing gone →
      ∀ sh ∈ s.shards, ∀ x ∈ sh.subjects.keys, x ∈ gone → x ∈ sh.dirty
  | .renew _ => ∀ sh ∈ s.shards, ∀ x ∈ sh.subjects.keys, x ∈ sh.dirty
  | _ => True

end Running
end NatsExplorer.Subscription.Shards
