import NatsExplorer.Subject
import NatsExplorer.Library.OrderedMap
import NatsExplorer.Library.Insertion
import Mathlib.Algebra.Group.Defs
import Mathlib.Order.Defs.LinearOrder

/-! The subject tree of the browser (`components/subjects/tree.ts`), merged over the connections. A node
is named by its subject, in lists and links as in the map. `nodes` are the names in the map; the object
that was made last for a name stays in `heap` when it leaves the map. -/
namespace NatsExplorer.Client
open Go

inductive PayloadType where
  | string
  | json
  | binary
  deriving DecidableEq

structure SubjectEntry (N : Type) where
  s : Str
  n : Option N
  r : Option N
  t : Option N
  tr : Option N
  c : Option N
  sc : Option N
  p : Option Str
  pt : Option PayloadType
  ts : Option N
  sz : Option N

structure Last (N : Type) where
  payload : Str
  payloadType : PayloadType
  timestamp : N
  size : N

structure TreeNode (N : Type) where
  segment : Str
  fullSubject : Str
  messageCount : N
  total : N
  rate : N
  totalRate : N
  childCount : N
  subjects : N
  last : Option (Last N)
  children : List Str
  connIds : List Str
  parent : Option Str
  byConn : OrderedMap Str (SubjectEntry N)

structure TreeModel (N : Type) where
  roots : List Str
  nodes : List Str
  heap : Str → TreeNode N

variable {N : Type} [AddCommMonoid N] [LinearOrder N] (le : Str → Str → Prop) [DecidableRel le]

omit [LinearOrder N] in
def newNode (segment fullSubject : Str) (parent : Option Str) : TreeNode N where
  segment := segment
  fullSubject := fullSubject
  messageCount := 0
  total := 0
  rate := 0
  totalRate := 0
  childCount := 0
  subjects := 0
  last := none
  children := []
  connIds := []
  parent := parent
  byConn := .empty

/-- The newest preview; no timestamp is none. -/
def Last.newer (last : Option (Last N)) (c : SubjectEntry N) : Option (Last N) :=
  match c.ts with
  | none => last
  | some ts =>
      if ts ≠ 0 ∧ ∀ l ∈ last, l.timestamp < ts then
        some ⟨c.p.getD [], c.pt.getD .string, ts, c.sz.getD 0⟩
      else last

def TreeNode.recompute (node : TreeNode N) : TreeNode N := { node with
  messageCount := node.byConn.values.foldl (fun count c => count + c.n.getD 0) 0
  total := node.byConn.values.foldl (fun total c => total + c.t.getD 0) 0
  rate := node.byConn.values.foldl (fun rate c => rate + c.r.getD 0) 0
  totalRate := node.byConn.values.foldl (fun totalRate c => totalRate + c.tr.getD 0) 0
  childCount := node.byConn.values.foldl (fun childCount c => max childCount (c.c.getD 0)) 0
  subjects := node.byConn.values.foldl (fun subjects c => max subjects (c.sc.getD 0)) 0
  last := node.byConn.values.foldl Last.newer none }

omit [AddCommMonoid N] [LinearOrder N] in
/-- `byConn` and `connIds` without a connection. -/
def TreeNode.forget (connId : Str) (node : TreeNode N) : TreeNode N :=
  { node with byConn := node.byConn.delete connId, connIds := node.connIds.filter (· ≠ connId) }

omit [AddCommMonoid N] [LinearOrder N] in
def TreeNode.listConn (connId : Str) (node : TreeNode N) : TreeNode N :=
  if connId ∈ node.connIds then node else { node with connIds := node.connIds ++ [connId] }

namespace TreeModel

omit [LinearOrder N] in
/-- What the heap holds for a name without an object is never looked at but for its links. -/
def new : TreeModel N where
  roots := []
  nodes := []
  heap := fun s => newNode (lastSegment s) s (parentSubject s)

omit [AddCommMonoid N] [LinearOrder N] in
def update (m : TreeModel N) (s : Str) (f : TreeNode N → TreeNode N) : TreeModel N :=
  { m with heap := Function.update m.heap s (f (m.heap s)) }

omit [AddCommMonoid N] [LinearOrder N] in
/-- `bySegment`, as a preorder of nodes. -/
def bySegment (m : TreeModel N) (a b : Str) : Prop := le (m.heap a).segment (m.heap b).segment

instance (m : TreeModel N) : DecidableRel (m.bySegment le) := fun _ _ => inferInstanceAs (Decidable (le _ _))

/-- The node for `full`, made below `parent` if there is none. -/
def place (m : TreeModel N) (parent : Option Str) (segment full : Str) : TreeModel N :=
  if full ∈ m.nodes then m
  else
    let made := m.update full fun _ => newNode segment full parent
    let linked := match parent with
      | some p => made.update p fun above => { above with children := Insertion.insert (made.bySegment le) above.children full }
      | none => { made with roots := Insertion.insert (made.bySegment le) made.roots full }
    { linked with nodes := linked.nodes ++ [full] }

/-- One turn of the loop of `insert`, with the node of the last one. -/
def enter (m : TreeModel N × Option Str) (segment : Str) : TreeModel N × Option Str :=
  let full := m.2.elim segment (child · segment)
  (m.1.place le m.2 segment full, some full)

def insert (m : TreeModel N) (fullSubject : Str) : TreeModel N × Option Str :=
  (fullSubject.splitOn '.').foldl (enter le) (m, none)

/-- `node!` is the last one entered; a split has at least one segment. -/
def applyEntry (connId : Str) (m : TreeModel N) (e : SubjectEntry N) : TreeModel N :=
  let found := if e.s ∈ m.nodes then (m, some e.s) else m.insert le e.s
  let node := found.2.getD []
  (found.1.update node fun node => { node with byConn := node.byConn.set connId e }.recompute).update node
    (TreeNode.listConn connId)

omit [AddCommMonoid N] [LinearOrder N] in
/-- `detach` without the climb. -/
def unlink (m : TreeModel N) (s : Str) : TreeModel N :=
  let cut := match (m.heap s).parent with
    | some p => m.update p fun above => { above with children := above.children.erase s }
    | none => { m with roots := m.roots.erase s }
  { cut with nodes := cut.nodes.erase s }

omit [AddCommMonoid N] [LinearOrder N] in
def detach : Nat → TreeModel N → Str → Option (TreeModel N)
  | 0, _, _ => none
  | fuel + 1, m, s =>
      match (m.heap s).parent with
      | none => some (m.unlink s)
      | some p =>
          -- A placeholder parent that only existed for this child goes too.
          if ((m.unlink s).heap p).byConn.keys = [] ∧ ((m.unlink s).heap p).children = [] then
            detach fuel (m.unlink s) p
          else some (m.unlink s)

/-- `none` is out of fuel, which is as deep as the recursion goes. -/
def removeEntry : Nat → TreeModel N → Str → Str → Option (TreeModel N)
  | fuel, m, connId, subject =>
      if subject ∈ m.nodes ∧ connId ∈ (m.heap subject).byConn.keys then
        match fuel with
        | 0 => none
        | fuel + 1 =>
            let cut := m.update subject (TreeNode.forget connId)
            if (cut.heap subject).byConn.keys ≠ [] then some (cut.update subject TreeNode.recompute)
            else do
              -- Nothing left from any connection: drop the node and whatever hangs below it.
              let below ← (cut.heap subject).children.foldlM (fun m child =>
                (m.heap child).connIds.foldlM (fun m id => removeEntry fuel m id (m.heap child).fullSubject) m) cut
              if (below.heap subject).byConn.keys ≠ [] ∨ (below.heap subject).children ≠ [] then some below
              else below.detach (subject.length + 1) subject
      else some m

omit [AddCommMonoid N] [LinearOrder N] in
/-- Fuel for a removal: the subjects grow from a node to its children. -/
def height (m : TreeModel N) : Nat := (m.nodes.map List.length).foldr max 0 + 1

def dropConnection (m : TreeModel N) (connId : Str) : Option (TreeModel N) :=
  m.nodes.foldlM (fun m s =>
    if connId ∈ (m.heap s).byConn.keys then m.removeEntry m.height connId (m.heap s).fullSubject else some m) m

def apply (m : TreeModel N) (connId : Str) (full : Bool) (entries : List (SubjectEntry N)) (removed : List Str) :
    Option (TreeModel N) := do
  let dropped ← if full then m.dropConnection connId else some m
  let left ← removed.foldlM (fun m s => m.removeEntry m.height connId s) dropped
  some (entries.foldl (applyEntry le connId) left)

end TreeModel
end NatsExplorer.Client
