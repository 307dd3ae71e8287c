import NatsExplorer.Message
import NatsExplorer.Subject
import Mathlib.Logic.Function.Basic

/-! The subject tree of one connection (`internal/subscription/tree.go`). Nodes
are heap objects: a removed node stays where the dirty list still points to it
while a new object takes its subject, so references and subjects are kept apart.
Rates are any type with a zero and a sum: `float64` addition is not associative
and nothing here needs it to be. -/
namespace NatsExplorer.Subscription
open Go

abbrev Ref := Nat

structure Node (R : Type) where
  subject : Str
  depth : Nat
  parent : Option Ref
  children : Map Str Ref
  /-- Own messages, rate and last message. -/
  count : Nat
  rate : R
  last : Option Record
  /-- Subtree aggregates. -/
  total : Nat
  totalRate : R
  subjects : Nat
  dirty : Bool

/-- `heap` holds every node ever made for this tree, `next` is the next free
address; `nodes` and `roots` are what is reachable. -/
structure Tree (R : Type) where
  heap : Ref → Node R
  next : Ref
  roots : Map Str Ref
  nodes : Map Str Ref
  dirty : List Ref

namespace Tree
variable {R : Type} [Zero R]

def blank : Node R where
  subject := []
  depth := 0
  parent := none
  children := ∅
  count := 0
  rate := 0
  last := none
  total := 0
  totalRate := 0
  subjects := 0
  dirty := false

def newTree : Tree R where
  heap _ := blank
  next := 0
  roots := ∅
  nodes := ∅
  dirty := []

omit [Zero R] in
def modify (t : Tree R) (r : Ref) (f : Node R → Node R) : Tree R :=
  { t with heap := Function.update t.heap r (f (t.heap r)) }

/-- The loop of `markDirty` from `n` upwards, bounded by the depth it starts at. -/
def markUp : Nat → Option Ref → Tree R → Tree R
  | _, none, t => t
  | 0, some _, t => t
  | fuel + 1, some n, t =>
    if (t.heap n).dirty then t
    else markUp fuel (t.heap n).parent
      { t.modify n fun node => { node with dirty := true } with dirty := t.dirty ++ [n] }

/-- Flags a node and its ancestors for the next tick. -/
def markDirty (t : Tree R) (n : Ref) : Tree R := markUp ((t.heap n).depth + 1) (some n) t

omit [Zero R] in
def depthBelow (t : Tree R) : Option Ref → Nat
  | some p => (t.heap p).depth + 1
  | none => 0

/-- A new node for `full`, entered in the level below `parent` but not yet marked. -/
def link (t : Tree R) (parent : Option Ref) (full seg : Str) : Tree R :=
  let n := t.next
  let node : Node R := { blank with
    subject := full
    parent := parent
    depth := t.depthBelow parent }
  let made := { t with
    heap := Function.update t.heap n node
    next := n + 1
    nodes := t.nodes.insert full n }
  match parent with
  | some p => made.modify p fun above => { above with children := above.children.insert seg n }
  | none => { made with roots := made.roots.insert seg n }

/-- One turn of the loop in `get`: the node for `full`, made if there is none.
`parent` decides the level it is entered in. -/
def enter (t : Tree R) (parent : Option Ref) (full seg : Str) : Tree R × Ref :=
  match t.nodes.lookup full with
  | some n => (t, n)
  | none => ((t.link parent full seg).markDirty t.next, t.next)

/-- The loop of `get` over the bytes of the subject: `full` is `subject[:i]` and
`seg` is `subject[start:i]`. -/
def getFrom (t : Tree R) (parent : Option Ref) (full seg : Str) : Str → Tree R × Ref
  | [] => t.enter parent full seg
  | c :: rest =>
    if c = '.' then
      let (t, n) := t.enter parent full seg
      t.getFrom (some n) (full ++ ['.']) [] rest
    else t.getFrom parent (full ++ [c]) (seg ++ [c]) rest

/-- The node for a subject, made with its ancestors if there is none. -/
def get (t : Tree R) (subject : Str) : Tree R × Ref :=
  match t.nodes.lookup subject with
  | some n => (t, n)
  | none => t.getFrom none [] [] subject

/-- Unlinks a node that is left empty. -/
def unlink (t : Tree R) (cur : Ref) : Tree R :=
  let node := t.heap cur
  let t := { t with nodes := t.nodes.erase node.subject }
  match node.parent with
  | some p => t.modify p fun above =>
      { above with children := above.children.erase (lastSegment node.subject) }
  | none => { t with roots := t.roots.erase node.subject }

/-- The loop of `remove`: a branch that still has something stays and is marked. -/
def removeUp : Nat → Option Ref → Tree R → Tree R
  | _, none, t => t
  | 0, some _, t => t
  | fuel + 1, some cur, t =>
    if 0 < (t.heap cur).children.keys.length ∨ 0 < (t.heap cur).count then t.markDirty cur
    else removeUp fuel (t.heap cur).parent (t.unlink cur)

/-- Deletes a node and the ancestors it leaves empty. -/
def remove (t : Tree R) (subject : Str) : Tree R :=
  match t.nodes.lookup subject with
  | none => t
  | some n =>
    let cleared := t.modify n fun node => { node with count := 0, rate := 0, last := none }
    removeUp ((t.heap n).depth + 1) (some n) cleared

/-- Records a subject's current numbers. -/
def observe (t : Tree R) (subject : Str) (count : Nat) (rate : R) (last : Option Record) : Tree R :=
  let (t, n) := t.get subject
  (t.modify n fun node => { node with count := count, rate := rate, last := last }).markDirty n

omit [Zero R] in
/-- Nodes of one depth come in any order. -/
def deepestFirst (rt : Runtime) (t : Tree R) : List Ref :=
  rt.sortSlice (fun i j => decide ((t.heap i).depth > (t.heap j).depth)) t.dirty

variable [Add R]

/-- The body of the loop in `refresh`: the aggregates of one node from its
children's, which `range` visits in any order. -/
def recompute (rt : Runtime) (t : Tree R) (n : Ref) : Tree R :=
  let children := (rt.range (t.heap n).children.values).map t.heap
  t.modify n fun node => { node with
    total := children.foldl (fun sum c => sum + c.total) node.count
    totalRate := children.foldl (fun sum c => sum + c.totalRate) node.rate
    subjects := children.foldl (fun sum c => sum + c.subjects) (if 0 < node.count then 1 else 0) }

/-- Recomputes the aggregates of the dirty nodes, deepest first. -/
def refresh (rt : Runtime) (t : Tree R) : Tree R :=
  (t.deepestFirst rt).foldl (recompute rt) { t with dirty := t.deepestFirst rt }

def clearDirty (t : Tree R) : Tree R :=
  { t.dirty.foldl (fun t n => t.modify n fun node => { node with dirty := false }) t with dirty := [] }

end Tree

def previewMaxChars : Nat := 100

def truncateRunes (s : Str) (max : Nat) : Str :=
  if byteLen s ≤ max then s
  else if s.length ≤ max then s
  else s.take max ++ ['…']

/-- The wire form of one tree node. -/
structure SubjectEntry (R : Type) where
  subject : Str
  count : Nat
  rate : R
  total : Nat
  totalRate : R
  children : Nat
  subjects : Nat
  payload : Str
  payloadType : Option Kind
  timestamp : Int
  size : Nat
  deriving DecidableEq, Repr

/-- Without preview the payload itself is left out. -/
def entryOf {R : Type} [Tables] (n : Node R) (preview : Bool) : SubjectEntry R where
  subject := n.subject
  count := n.count
  rate := n.rate
  total := n.total
  totalRate := n.totalRate
  children := n.children.keys.length
  subjects := n.subjects
  payload := match n.last with
    | some lm => if preview ∧ lm.kind ≠ .binary then truncateRunes lm.text previewMaxChars else []
    | none => []
  payloadType := n.last.map Record.kind
  timestamp := (n.last.map Record.timestamp).getD 0
  size := (n.last.map fun lm => lm.data.length).getD 0

end NatsExplorer.Subscription
