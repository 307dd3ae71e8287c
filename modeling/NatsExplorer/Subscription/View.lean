import NatsExplorer.Filter
import NatsExplorer.Library.Mirror
import NatsExplorer.Subscription.Tree

/-! What one browser tab shows of the tree (`clientView` in
`internal/subscription/tree.go`) and the deltas it is sent. The walks are
bounded by the height of the tree they run on. -/
namespace NatsExplorer.Subscription
open Go

structure View where
  all : Bool
  paths : List Str
  filter : Str
  expr : Str
  noPreview : Bool

structure ClientView where
  all : Bool
  paths : KeySet Str
  terms : List Str
  prg : Option Filter.Program
  exprErr : Str
  noPreview : Bool
  sent : KeySet Str
  /-- View changed since the last emit. -/
  dirty : Bool
  /-- A view was received at all. -/
  loaded : Bool
  /-- The next update replaces everything the tab has. -/
  needFull : Bool

abbrev TreeUpdate (R : Type) := Mirror.Update Str (SubjectEntry R)

def keySet {K : Type} [DecidableEq K] (keys : List K) : KeySet K :=
  keys.foldl (fun set k => set.insert k ()) ∅

/-- A bound on the nodes on any path from a root downwards. -/
def Tree.height {R : Type} (t : Tree R) : Nat :=
  (t.nodes.values.map fun r => (t.heap r).depth).foldr max 0 + 1

namespace ClientView
variable {R : Type}

def newClientView : ClientView where
  all := false
  paths := ∅
  terms := []
  prg := none
  exprErr := []
  noPreview := false
  sent := ∅
  dirty := false
  loaded := false
  needFull := true

/-- The expression of a view; one that does not compile leaves its error. -/
def setExpr [Tables] [Filter.Compiler] (v : ClientView) (text : Str) : ClientView :=
  let v := { v with prg := none, exprErr := [] }
  let expr := strings.trimSpace text
  if expr ≠ [] then
    match Filter.Compiler.compile expr with
    | .error err => { v with exprErr := err }
    | .ok prg => { v with prg := some prg }
  else v

/-- The entries already sent carry the wrong shape when the preview changes. -/
def setPreview (v : ClientView) (noPreview : Bool) : ClientView :=
  if v.noPreview ≠ noPreview then { v with noPreview := noPreview, needFull := true } else v

def set [Tables] [Filter.Compiler] (v : ClientView) (view : View) : ClientView :=
  let v := { v with
    all := view.all
    paths := keySet view.paths
    terms := strings.fields (strings.toLower view.filter) }
  { (v.setExpr view.expr).setPreview view.noPreview with dirty := true, loaded := true }

def filtering (v : ClientView) : Bool := decide (0 < v.terms.length) || v.prg.isSome

def «matches» [Tables] (v : ClientView) (subject : Str) : Bool :=
  v.terms.all fun term => strings.contains (strings.toLower subject) term

def matchesNode [Tables] (v : ClientView) (n : Node R) : Bool :=
  v.matches n.subject &&
    match v.prg with
    | none => true
    | some prg => match n.last with
      | some r => prg.onRecord r
      | none => false

def expanded (v : ClientView) (subject : Str) : Bool :=
  if v.all then !(subject ∈ v.paths) else subject ∈ v.paths

/-- The loop of `visibleByExpansion` from the parent upwards. -/
def expandedAbove (v : ClientView) (t : Tree R) : Nat → Option Ref → Bool
  | _, none => true
  | 0, some _ => true
  | fuel + 1, some p => v.expanded (t.heap p).subject && v.expandedAbove t fuel (t.heap p).parent

/-- Whether every ancestor of `n` is expanded. -/
def visibleByExpansion (v : ClientView) (t : Tree R) (n : Ref) : Bool :=
  v.expandedAbove t (t.heap n).depth (t.heap n).parent

/-- The walk of `collect` in filter mode. -/
def walkMatching [Tables] (rt : Runtime) (v : ClientView) (t : Tree R) :
    Nat → Bool → Ref → KeySet Str → Bool × KeySet Str
  | 0, _, _, out => (false, out)
  | fuel + 1, above, n, out =>
    let self := (above && v.prg.isNone) || v.matchesNode (t.heap n)
    let (below, out) := (rt.range (t.heap n).children.values).foldl
      (fun (below, out) c =>
        let (shown, out) := walkMatching rt v t fuel self c out
        (shown || below, out)) (false, out)
    if self || below then (true, out.insert (t.heap n).subject ()) else (false, out)

/-- The walk of `collect` without a filter. -/
def walkExpanded (rt : Runtime) (v : ClientView) (t : Tree R) : Nat → Ref → KeySet Str → KeySet Str
  | 0, _, out => out
  | fuel + 1, n, out =>
    let out := out.insert (t.heap n).subject ()
    if v.expanded (t.heap n).subject then
      (rt.range (t.heap n).children.values).foldl (fun out c => walkExpanded rt v t fuel c out) out
    else out

/-- The complete visible set for the view. -/
def collect [Tables] (rt : Runtime) (v : ClientView) (t : Tree R) : KeySet Str :=
  if v.filtering then
    (rt.range t.roots.values).foldl (fun out r => (walkMatching rt v t t.height false r out).2) ∅
  else (rt.range t.roots.values).foldl (fun out r => walkExpanded rt v t t.height r out) ∅

/-- Decides for one node under an unchanged view. -/
def visible [Tables] (v : ClientView) (t : Tree R) (n : Ref) : Bool :=
  if v.prg.isSome then v.matchesNode (t.heap n)
  else if 0 < v.terms.length then
    if (t.heap n).subject ∈ v.sent then true else v.matches (t.heap n).subject
  else v.visibleByExpansion t n

/-- What the incremental path of `update` has sent so far in this tick. -/
structure Emission (R : Type) where
  sent : KeySet Str
  done : List Ref
  entries : List (SubjectEntry R)

def emit [Tables] (v : ClientView) (t : Tree R) (e : Emission R) (n : Ref) : Emission R :=
  if n ∈ e.done then e
  else {
    sent := e.sent.insert (t.heap n).subject ()
    done := e.done ++ [n]
    entries := e.entries ++ [entryOf (t.heap n) !v.noPreview] }

/-- Sends the unsent ancestors, so that the browser can place a node. -/
def emitAbove [Tables] (v : ClientView) (t : Tree R) :
    Nat → Option Ref → Emission R → Emission R
  | _, none, e => e
  | 0, some _, e => e
  | fuel + 1, some p, e =>
    if (t.heap p).subject ∈ e.sent then e
    else v.emitAbove t fuel (t.heap p).parent (v.emit t e p)

/-- The body of the loop over the dirty nodes. -/
def emitVisible [Tables] (v : ClientView) (t : Tree R) (e : Emission R) (n : Ref) : Emission R :=
  if { v with sent := e.sent }.visible t n then
    v.emit t (v.emitAbove t (t.heap n).depth (t.heap n).parent e) n
  else e

/-- The entries that come into sight. -/
def added [Tables] (rt : Runtime) (v : ClientView) (t : Tree R) (full : Bool) (want : KeySet Str) :
    List (SubjectEntry R) :=
  ((rt.range want.keys).filter fun s => !(s ∈ v.sent ∧ ¬ full)).filterMap fun s =>
    (t.nodes.lookup s).map fun n => entryOf (t.heap n) !v.noPreview

/-- Changed nodes that stay visible are part of the delta too. -/
def changed [Tables] (v : ClientView) (t : Tree R) (want : KeySet Str) (dirty : List Ref) :
    List (SubjectEntry R) :=
  (dirty.filter fun n => (t.heap n).subject ∈ v.sent ∧ (t.heap n).subject ∈ want).map fun n =>
    entryOf (t.heap n) !v.noPreview

/-- The part of `update` for a changed view: the difference between the old and
the new visible set. -/
def viewDelta [Tables] (rt : Runtime) (v : ClientView) (t : Tree R) (full : Bool) (dirty : List Ref) :
    ClientView × TreeUpdate R :=
  let want := v.collect rt t
  ({ v with sent := want }, {
    full := full
    entries := v.added rt t full want ++ v.changed t want dirty
    removed := rt.sortSlice (fun a b => decide (a < b))
      ((rt.range v.sent.keys).filter fun s => s ∉ want) })

/-- The part of `update` for an unchanged view: the dirty nodes that are visible. -/
def dirtyDelta [Tables] (v : ClientView) (t : Tree R) (dirty : List Ref) :
    ClientView × TreeUpdate R :=
  let e := dirty.foldl (v.emitVisible t) { sent := v.sent, done := [], entries := [] }
  ({ v with sent := e.sent }, { full := false, entries := e.entries, removed := [] })

/-- The tree message for one tab, none when there is nothing to send. -/
def update [Tables] (rt : Runtime) (v : ClientView) (t : Tree R) (dirty : List Ref) :
    ClientView × Option (TreeUpdate R) :=
  if !v.loaded then (v, none)
  else
    let full := v.needFull
    let v := { v with needFull := false, sent := if full then ∅ else v.sent }
    if v.dirty || full then
      let (v, up) := { v with dirty := false }.viewDelta rt t full dirty
      if !full ∧ up.entries.length = 0 ∧ up.removed.length = 0 then (v, none) else (v, some up)
    else
      let (v, up) := v.dirtyDelta t dirty
      if up.entries.length = 0 then (v, none) else (v, some up)

end ClientView
end NatsExplorer.Subscription
