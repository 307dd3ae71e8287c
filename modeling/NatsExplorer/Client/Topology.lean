import NatsExplorer.Handler.Topology
import NatsExplorer.Client.Strings
import NatsExplorer.Library.OrderedMap
import Mathlib.Analysis.SpecialFunctions.Trigonometric.Basic
import Mathlib.Data.List.Dedup
import Mathlib.Tactic.Linarith
import Mathlib.Tactic.NormNum

/-! Where everything goes in the topology picture (`client/src/components/cluster/topologyLayout.ts`): each cluster is a box
with its servers on a circle inside, the boxes stand in a row, gateways arc over the row from box to box, and the leaf nodes
of a server hang below its box. -/
namespace NatsExplorer.Client
open Go Handler.topology js

namespace topology

/-- What the browser brings; `sort` is for a comparison that need not be an order. -/
class Canvas (K : Type) where
  pi : K
  sin : K → K
  cos : K → K
  toFixed : K → Str
  localeCompare : Str → Str → ℤ
  sort {α : Type} (compare : α → α → ℤ) : List α → List α
  sort_perm {α : Type} (compare : α → α → ℤ) (l : List α) : (sort compare l).Perm l

def nodeR : ℕ := 16
/-- Inside a cluster box, around the circle of servers. -/
def pad : ℕ := 48
/-- Between cluster columns. -/
def gap : ℕ := 110
/-- Between leaf nodes in their row. -/
def leafGap : ℕ := 96
/-- From the bottom of a box to the row of leaf nodes. -/
def leafDrop : ℕ := 90
def margin : ℕ := 24

inductive EdgeState where
  | ok
  | warn
  | down
  | oneSided
  deriving DecidableEq, Repr

inductive EdgeKind where
  | route
  | gateway
  | leaf
  deriving DecidableEq, Repr

structure LaidCluster (K : Type) where
  name : Str
  /-- A server that is in no cluster gets a box of its own. -/
  standalone : Bool
  x : K
  y : K
  w : K
  h : K
  /-- A cluster known only as the far end of a gateway. -/
  unseen : Bool

structure LaidNode (K : Type) where
  id : Str
  label : Str
  kind : NodeKind
  cluster : Str := []
  x : K
  y : K

structure LaidEdge (K : Type) where
  key : Str
  kind : EdgeKind
  /-- Node ids for routes and leafs, cluster names for gateways. -/
  a : Str
  b : Str
  d : Str
  state : EdgeState
  mx : K
  my : K
  label : Option Str := none

structure TopologyLayout (K : Type) where
  width : K
  height : K
  clusters : List (LaidCluster K)
  nodes : List (LaidNode K)
  edges : List (LaidEdge K)

def clusterKey (cluster id : Str) : Str := if cluster ≠ [] then cluster else '\x00' :: id

/-- Two strings, sorted. -/
def ordered (a b : Str) : Str × Str := if codeUnits b < codeUnits a then (b, a) else (a, b)

def joined (a b : Str) : Str := a ++ '\x00' :: b

structure Sized (K : Type) where
  k : Str
  n : ℕ
  r : K
  box : K
  col : K
  leafs : List Str

structure GatewayPair where
  a : Str
  b : Str
  states : List EdgeState := []
  count : ℕ := 0

structure RoutePair where
  a : Str
  b : Str
  sides : List Str := []
  pending : ℤ := 0

section Layout
variable (t : Topology)

def leafNames : List Str := (t.leafs.map TopoLeaf.name).dedup

/-- The server that is first to report a leaf node. -/
def hubOf (name : Str) : Option Str := (t.leafs.find? (·.name = name)).map TopoLeaf.server

def nodeById (id : Str) : Option TopoNode := t.nodes.reverse.find? (·.id = id)

/-- A leaf node hangs below its hub, unless it is a server of a cluster of its own that answered for itself: then it is
that cluster's box. -/
def inRow (id : Str) : Bool :=
  decide (id ∈ leafNames t) && !(nodeById t id).any fun n => decide (n.kind = .server ∧ n.cluster ≠ [])

/-- The servers of each cluster, leaf nodes aside. -/
def seen : OrderedMap Str (List Str) :=
  t.nodes.foldl (fun members n => if inRow t n.id then members else members.push (clusterKey n.cluster n.id) n.id) .empty

/-- A gateway to a cluster nobody of which answered or connected still has an end to draw to. -/
def addUnseen (s : OrderedMap Str (List Str) × List Str) (g : TopoGateway) : OrderedMap Str (List Str) × List Str :=
  if g.remote ∈ s.1.keys then s else (s.1.set g.remote [], s.2 ++ [g.remote])

def members : OrderedMap Str (List Str) × List Str := t.gateways.foldl addUnseen (seen t, [])

def membersOf (k : Str) : List Str := ((members t).1.get k).getD []

/-- The box a leaf node hangs below. -/
def hubKey (name : Str) : Str :=
  let hub := nodeById t ((hubOf t name).getD [])
  clusterKey ((hub.map TopoNode.cluster).getD []) ((hub.map TopoNode.id).getD [])

/-- Leaf nodes per cluster, in the order of their hubs. -/
def leafsOfCluster : OrderedMap Str (List Str) :=
  (sorted ((leafNames t).filter (inRow t))).foldl (fun leafs name => leafs.push (hubKey t name) name) .empty

variable {K : Type} [Field K] [LinearOrder K] [Canvas K]

variable (K) in
/-- The biggest cluster first, the way people draw a hub and its spokes. -/
def keys : List Str :=
  Canvas.sort K (fun a b =>
    let d : ℤ := (membersOf t b).length - (membersOf t a).length
    if d ≠ 0 then d else Canvas.localeCompare K a b) (members t).1.keys

def size (k : Str) : Sized K :=
  let n := (membersOf t k).length
  let r : K := if n ≤ 1 then 0 else max 44 ((n * (nodeR * 2 + 26)) / (2 * Canvas.pi))
  let box := max 150 (2 * r + 2 * pad + 20)
  let leafs := ((leafsOfCluster t).get k).getD []
  { k := k, n := n, r := r, box := box, col := max box (leafs.length * leafGap), leafs := leafs }

def sized : List (Sized K) := (keys t K).map (size t)

/-- The middles of the columns, the first of which starts at `x`. -/
def centersFrom (x : K) : List (Sized K) → List (Str × K)
  | [] => []
  | s :: rest => (s.k, x + s.col / 2) :: centersFrom (x + (s.col + gap)) rest

def centers : List (Str × K) := centersFrom (margin : K) (sized t)

def center (k : Str) : K := ((centers t).lookup k).getD 0

def width : K :=
  let x := (sized t).foldl (fun (x : K) s => x + (s.col + gap)) (margin : K)
  max (x - gap + margin) 320

/-- Gateway pairs, unordered. -/
def gatewayPairs : OrderedMap Str GatewayPair :=
  t.gateways.foldl (fun pairs (g : TopoGateway) =>
    if g.cluster = g.remote then pairs
    else
      let (a, b) := ordered g.cluster g.remote
      let key := joined a b
      let p := (pairs.get key).getD { a := a, b := b }
      let state := if !g.connected then EdgeState.down else if 0 < g.pending.toInt then .warn else .ok
      pairs.set key { p with count := p.count + 1, states := p.states ++ [state] }) .empty

def arcHeight (a b : Str) : K := 46 + |(center t a : K) - center t b| * (14 / 100)

def topRoom : K := ((gatewayPairs t).values.map fun p => (arcHeight t p.a p.b : K)).foldl max 0

def top : K := margin + if (gatewayPairs t).keys ≠ [] then topRoom t + 12 else 0

def tallest : K := ((sized t : List (Sized K)).map Sized.box).foldl max 0

def boxY (s : Sized K) : K := top t + (tallest t - s.box) / 2

def clusterBox (s : Sized K) : LaidCluster K :=
  let standalone := ['\x00'].isPrefixOf s.k
  { name := if standalone then [] else s.k, standalone := standalone, x := center t s.k - s.box / 2, y := boxY t s, w := s.box, h := s.box
    unseen := decide (s.k ∈ (members t).2) }

/-- The servers of a cluster, on their circle. -/
def memberNodes (s : Sized K) : List (LaidNode K) :=
  let ids := sorted (membersOf t s.k)
  let cy := boxY t s + s.box / 2 + 6
  ids.zipIdx.filterMap fun (id, i) =>
    let angle : K := -Canvas.pi / 2 + (i / ids.length) * 2 * Canvas.pi
    (nodeById t id).map fun n =>
      { id := id, label := n.name, kind := n.kind, cluster := n.cluster
        x := center t s.k + s.r * Canvas.cos angle, y := cy + s.r * Canvas.sin angle }

def leafY (s : Sized K) : K := boxY t s + s.box + leafDrop

/-- The leaf nodes of a cluster, in their row. -/
def leafNodes (s : Sized K) : List (LaidNode K) :=
  s.leafs.zipIdx.map fun (name, i) =>
    { id := name, label := ((nodeById t name).map TopoNode.name).getD name, kind := .leaf
      x := center t s.k + ((i : K) - ((s.leafs.length : K) - 1) / 2) * leafGap, y := leafY t s }

def nodes : List (LaidNode K) := (sized t).flatMap fun s => memberNodes t s ++ leafNodes t s

/-- Where a node stands. -/
def pos (id : Str) : Option (K × K) := ((nodes t).reverse.find? (·.id = id)).map fun n => (n.x, n.y)

def bottom : K :=
  (sized t).foldl (fun bottom s => if s.leafs = [] then bottom else max bottom (leafY t s + nodeR + 30)) (top t + tallest t)

def line (a b : K × K) : Str :=
  'M' :: Canvas.toFixed a.1 ++ ',' :: Canvas.toFixed a.2 ++ " L".toList ++ Canvas.toFixed b.1 ++ ',' :: Canvas.toFixed b.2

def pair (r : TopoRoute) : Str × Str := ordered r.server r.remote

def keyOf (r : TopoRoute) : Str := joined (pair r).1 (pair r).2

def RoutePair.add (p : RoutePair) (r : TopoRoute) : RoutePair :=
  { p with sides := if r.server ∈ p.sides then p.sides else p.sides ++ [r.server], pending := p.pending + r.pending.toInt }

def addRoutePair (pairs : OrderedMap Str RoutePair) (r : TopoRoute) : OrderedMap Str RoutePair :=
  pairs.set (keyOf r) (((pairs.get (keyOf r)).getD { a := (pair r).1, b := (pair r).2 }).add r)

/-- Routes, one line per pair of servers whichever side reported them. -/
def routePairs : OrderedMap Str RoutePair := t.routes.foldl addRoutePair .empty

/-- The straight edge between two nodes that stand somewhere. -/
def straight (key : Str) (kind : EdgeKind) (a b : Str) (state : EdgeState) (label : Option Str) : Option (LaidEdge K) :=
  match pos t a, pos t b with
  | some pa, some pb => some
    { key := key, kind := kind, a := a, b := b, d := line pa pb, state := state, mx := (pa.1 + pb.1) / 2, my := (pa.2 + pb.2) / 2, label := label }
  | _, _ => none

def routeEdges : List (LaidEdge K) :=
  (routePairs t).entries.filterMap fun (key, p) =>
    straight t ("route:".toList ++ key) .route p.a p.b
      (if 0 < p.pending then .warn else if p.sides.length < 2 then .oneSided else .ok) none

def boxOf (name : Str) : Option (LaidCluster K) :=
  ((sized t).map (clusterBox t)).reverse.find? fun c => !c.standalone && decide (c.name = name)

/-- Gateways arc from the top of one box to the top of the other. -/
def gatewayEdges : List (LaidEdge K) :=
  (gatewayPairs t).entries.filterMap fun (key, p) =>
    match (boxOf t p.a : Option (LaidCluster K)), (boxOf t p.b : Option (LaidCluster K)) with
    | some ca, some cb =>
      let ax := ca.x + ca.w / 2
      let bx := cb.x + cb.w / 2
      let ay := ca.y
      let by_ := cb.y
      let peak := min ay by_ - arcHeight t p.a p.b * 2
      let mx := (ax + bx) / 2
      some
        { key := "gateway:".toList ++ key, kind := .gateway, a := p.a, b := p.b
          d := 'M' :: Canvas.toFixed ax ++ ',' :: Canvas.toFixed ay ++ " Q".toList ++ Canvas.toFixed mx ++ ',' :: Canvas.toFixed peak ++
            ' ' :: Canvas.toFixed bx ++ ',' :: Canvas.toFixed by_
          state := if .down ∈ p.states then .down else if .warn ∈ p.states then .warn else .ok
          mx := mx, my := (ay + by_) / 4 + peak / 2
          label := some ((toString p.count).toList ++ " conn".toList ++ if p.count = 1 then [] else ['s']) }
    | _, _ => none

/-- Leaf connections, from the hub down. -/
def leafEdges : List (LaidEdge K) :=
  t.leafs.filterMap fun l => straight t ("leaf:".toList ++ l.server ++ '\x00' :: l.name ++ '\x00' :: l.account) .leaf l.server l.name .ok (some l.account)

def layoutTopology : TopologyLayout K :=
  { width := width t, height := bottom t + margin, clusters := (sized t).map (clusterBox t), nodes := nodes t
    edges := routeEdges t ++ gatewayEdges t ++ leafEdges t }

end Layout

/-! ### Boxes -/

section Boxes
variable {t : Topology}

/-- A row of nodes is the nodes that stand in it. -/
theorem seen_grouped : seen t = .grouped (fun n => clusterKey n.cluster n.id) TopoNode.id (t.nodes.filter (!inRow t ·.id)) := by
  unfold seen OrderedMap.grouped
  rw [List.foldl_filter]
  congr 1
  funext members n
  cases inRow t n.id <;> rfl

theorem members_fold (gateways : List TopoGateway) (s : OrderedMap Str (List Str) × List Str) (k : Str) :
    ((gateways.foldl addUnseen s).1.get k).getD [] = (s.1.get k).getD [] ∧
      (k ∈ (gateways.foldl addUnseen s).1.keys ↔ k ∈ s.1.keys ∨ ∃ g ∈ gateways, g.remote = k) := by
  induction gateways generalizing s with
  | nil => simp
  | cons g gateways ih =>
    rw [List.foldl_cons]
    obtain ⟨same, listed⟩ := ih (addUnseen s g)
    rw [same, listed, List.exists_mem_cons_iff, ← or_assoc]
    unfold addUnseen
    by_cases there : g.remote ∈ s.1.keys
    · rw [if_pos there]
      refine ⟨rfl, or_congr_left ?_⟩
      exact ⟨.inl, fun either => either.elim id fun here => here ▸ there⟩
    · rw [if_neg there]
      have absent : s.1.get g.remote = none := not_not.mp fun some_ => there ((s.1.mem_keys _).mpr some_)
      rw [OrderedMap.keys_set, if_neg there, OrderedMap.get_set]
      refine ⟨?_, or_congr_left ?_⟩
      · split
        · rename_i here
          rw [here, absent]
          rfl
        · rfl
      · rw [List.mem_append, List.mem_singleton, eq_comm (a := k)]

theorem mem_members {k : Str} :
    k ∈ (members t).1.keys ↔ (∃ n ∈ t.nodes, inRow t n.id = false ∧ clusterKey n.cluster n.id = k) ∨ ∃ g ∈ t.gateways, g.remote = k := by
  rw [members, (members_fold t.gateways (seen t, []) k).2, seen_grouped, OrderedMap.mem_grouped]
  simp only [List.mem_filter, Bool.not_eq_true', and_assoc]

theorem membersOf_eq (k : Str) :
    membersOf t k = ((t.nodes.filter (!inRow t ·.id)).filter fun n => clusterKey n.cluster n.id = k).map TopoNode.id := by
  rw [membersOf, members, (members_fold t.gateways (seen t, []) k).1, seen_grouped, OrderedMap.grouped_get]

theorem leafsOfCluster_get (k : Str) :
    ((leafsOfCluster t).get k).getD [] = (sorted ((leafNames t).filter (inRow t))).filter (hubKey t · = k) := by
  refine (@OrderedMap.grouped_get _ _ _ _ (hubKey t) id _ _).trans (List.map_id _)

theorem nodeById_some {id : Str} (there : id ∈ t.nodes.map TopoNode.id) : ∃ n ∈ t.nodes, n.id = id ∧ nodeById t id = some n := by
  obtain ⟨n, member, rfl⟩ := List.mem_map.mp there
  have some_ : (nodeById t n.id).isSome := List.find?_isSome.mpr ⟨n, List.mem_reverse.mpr member, decide_eq_true rfl⟩
  obtain ⟨n', found⟩ := Option.isSome_iff_exists.mp some_
  exact ⟨n', List.mem_reverse.mp (List.mem_of_find?_eq_some found), of_decide_eq_true (List.find?_some found :), found⟩

variable {K : Type} [Field K] [LinearOrder K] [Canvas K]

omit [Field K] [LinearOrder K] in
theorem keys_perm : (keys t K).Perm (members t).1.keys := Canvas.sort_perm _ _

omit [Field K] [LinearOrder K] in
theorem keys_nodup : (keys t K).Nodup := keys_perm.nodup_iff.mpr (members t).1.nodup

theorem memberNodes_ids (s : Sized K) : (memberNodes t s).map LaidNode.id = sorted (membersOf t s.k) := by
  have known (id : Str) (i : ℕ) (there : (id, i) ∈ (sorted (membersOf t s.k)).zipIdx) : ∃ n, nodeById t id = some n := by
    have member : id ∈ membersOf t s.k := (sorted_perm _).mem_iff.mp (List.fst_mem_of_mem_zipIdx there)
    rw [membersOf_eq] at member
    obtain ⟨n, listed, rfl⟩ := List.mem_map.mp member
    obtain ⟨n', -, -, found⟩ := nodeById_some (List.mem_map_of_mem (List.mem_filter.mp (List.mem_filter.mp listed).1).1)
    exact ⟨n', found⟩
  unfold memberNodes
  rw [List.map_filterMap]
  refine (List.filterMap_congr (g := fun p => some p.1) fun p there => ?_).trans ?_
  · obtain ⟨id, i⟩ := p
    obtain ⟨n, found⟩ := known id i there
    dsimp only
    rw [found]
    rfl
  · rw [List.filterMap_eq_map', List.zipIdx_map_fst]

theorem leafNodes_ids (s : Sized K) : (leafNodes t s).map LaidNode.id = s.leafs := by
  rw [leafNodes, List.map_map]
  exact List.zipIdx_map_fst 0 s.leafs

theorem nodes_ids : ((nodes t : List (LaidNode K)).map LaidNode.id).Perm
    ((keys t K).flatMap (membersOf t) ++ (keys t K).flatMap fun k => ((leafsOfCluster t).get k).getD []) := by
  unfold nodes sized
  rw [List.map_flatMap, List.flatMap_map]
  refine .trans (.flatMap_left _ fun k _ => ?_) (List.flatMap_append_perm _ _ _).symm
  rw [List.map_append, memberNodes_ids, leafNodes_ids]
  exact (sorted_perm _).append_right _

omit [Field K] [LinearOrder K] in
/-- The servers that stand in a box are those not in a row. -/
theorem keys_members : ((keys t K).flatMap (membersOf t)).Perm ((t.nodes.map TopoNode.id).filter (!inRow t ·)) := by
  have all (n : TopoNode) (member : n ∈ t.nodes.filter (!inRow t ·.id)) : clusterKey n.cluster n.id ∈ keys t K := by
    obtain ⟨listed, apart⟩ := List.mem_filter.mp member
    exact keys_perm.mem_iff.mpr (mem_members.mpr (.inl ⟨n, listed, Bool.not_eq_true' _ ▸ apart, rfl⟩))
  have flat := (OrderedMap.flat_groups (fun n : TopoNode => clusterKey n.cluster n.id) (t.nodes.filter (!inRow t ·.id))
    (keys_nodup (t := t) (K := K))).map TopoNode.id
  rw [List.map_flatMap] at flat
  simp only [← membersOf_eq] at flat
  rw [List.filter_map]
  refine flat.trans (.of_eq (congrArg _ (List.filter_eq_self.mpr fun n member => ?_)))
  rw [decide_eq_true_iff]
  exact all n member

omit [Field K] [LinearOrder K] in
/-- The leaf nodes that stand in a row are those whose hub has a box. -/
theorem keys_leafs : ((keys t K).flatMap fun k => ((leafsOfCluster t).get k).getD []).Perm
    (((leafNames t).filter (inRow t)).filter (hubKey t · ∈ (members t).1.keys)) := by
  simp only [leafsOfCluster_get]
  refine (OrderedMap.flat_groups (hubKey t) _ keys_nodup).trans ?_
  refine .trans (.of_eq ?_) ((sorted_perm _).filter _)
  exact List.filter_congr fun name _ => decide_eq_decide.mpr keys_perm.mem_iff

/-- What a picture needs of a topology: each node is there once, and each leaf node is there. -/
structure Sound (t : Topology) : Prop where
  once : (t.nodes.map TopoNode.id).Nodup
  leafs : ∀ l ∈ t.leafs, l.name ∈ t.nodes.map TopoNode.id

omit [Field K] [LinearOrder K] [Canvas K] in
theorem inRow_leaf {id : Str} (row : inRow t id = true) : ∃ l ∈ t.leafs, l.name = id := by
  unfold inRow at row
  exact List.mem_map.mp (List.mem_dedup.mp (of_decide_eq_true (Bool.and_eq_true_iff.mp row).1))

/-- Everybody has a place, once, if the hub of everybody in a row has a box. -/
theorem nodes_placed (sound : Sound t) : ((nodes t : List (LaidNode K)).map LaidNode.id).Perm (t.nodes.map TopoNode.id) ↔
    ∀ id, inRow t id = true → hubKey t id ∈ (members t).1.keys := by
  have laid := (nodes_ids (t := t) (K := K)).trans ((keys_members (K := K)).append (keys_leafs (K := K)))
  have rows : ((leafNames t).filter (inRow t)).Perm ((t.nodes.map TopoNode.id).filter (inRow t)) := by
    refine (List.perm_ext_iff_of_nodup ((List.nodup_dedup _).filter _) (sound.once.filter _)).mpr fun id => ?_
    rw [List.mem_filter, List.mem_filter]
    refine and_congr_left fun row => ?_
    obtain ⟨l, member, rfl⟩ := inRow_leaf row
    exact iff_of_true (List.mem_dedup.mpr (List.mem_map_of_mem member)) (sound.leafs l member)
  constructor
  · intro all id row
    obtain ⟨l, member, rfl⟩ := inRow_leaf row
    have placed := laid.mem_iff.mp (all.mem_iff.mpr (sound.leafs l member))
    rcases List.mem_append.mp placed with apart | hung
    · have apart := (List.mem_filter.mp apart).2
      rw [row] at apart
      cases apart
    · exact of_decide_eq_true (List.mem_filter.mp hung).2
  · intro hung
    have every : ((leafNames t).filter (inRow t)).filter (hubKey t · ∈ (members t).1.keys) = (leafNames t).filter (inRow t) :=
      List.filter_eq_self.mpr fun id member => decide_eq_true (hung id (List.mem_filter.mp member).2)
    rw [every] at laid
    refine (laid.trans (rows.append_left _)).trans ?_
    refine List.perm_append_comm.trans ?_
    exact List.filter_append_perm (inRow t) _

end Boxes

/-! ### Lines -/

section Lines
variable {t : Topology}

theorem ordered_comm (a b : Str) : ordered a b = ordered b a := by
  unfold ordered
  split <;> split
  · rename_i less more
    exact absurd more less.asymm
  · rfl
  · rfl
  · rename_i less more
    have same := codeUnits_inj (le_antisymm (not_lt.mp less) (not_lt.mp more))
    rw [same]

theorem ordered_or (a b : Str) : ordered a b = (a, b) ∨ ordered a b = (b, a) := by
  unfold ordered
  split
  · exact .inr rfl
  · exact .inl rfl

/-- The lines are those of the routes, each between the servers of the first route of its key. -/
theorem routePairs_get (routes : List TopoRoute) (key : Str) :
    (∀ p, (routes.foldl addRoutePair .empty).get key = some p → ∃ r ∈ routes, keyOf r = key ∧ pair r = (p.a, p.b)) ∧
      ((∃ r ∈ routes, keyOf r = key) → ∃ p, (routes.foldl addRoutePair .empty).get key = some p) := by
  induction routes using List.reverseRecOn with
  | nil => simp
  | append_singleton routes r ih =>
    rw [List.foldl_append]
    generalize routes.foldl addRoutePair .empty = pairs at ih ⊢
    obtain ⟨own, listed⟩ := ih
    change (∀ p, (addRoutePair pairs r).get key = some p → _) ∧ (_ → ∃ p, (addRoutePair pairs r).get key = some p)
    rw [addRoutePair, OrderedMap.get_set]
    by_cases same : key = keyOf r
    · subst same
      rw [if_pos rfl]
      refine ⟨fun p here => ?_, fun _ => ⟨_, rfl⟩⟩
      obtain rfl := Option.some.inj here
      cases before : pairs.get (keyOf r) with
      | none => exact ⟨r, by simp, rfl, rfl⟩
      | some p =>
        obtain ⟨r', member, key, ends⟩ := own p before
        exact ⟨r', List.mem_append_left _ member, key, ends⟩
    · rw [if_neg same]
      refine ⟨fun p here => ?_, fun ⟨r', member, key⟩ => ?_⟩
      · obtain ⟨r', member, rest⟩ := own p here
        exact ⟨r', List.mem_append_left _ member, rest⟩
      · rcases List.mem_append.mp member with before | last
        · exact listed ⟨r', before, key⟩
        · obtain rfl := List.mem_singleton.mp last
          exact absurd key.symm same

variable {K : Type} [Field K] [LinearOrder K] [Canvas K]

/-- A straight edge of a kind between two nodes. -/
def Drawn (edges : List (LaidEdge K)) (kind : EdgeKind) (a b : Str) : Prop :=
  ∃ e ∈ edges, e.kind = kind ∧ (e.a = a ∧ e.b = b ∨ e.a = b ∧ e.b = a)

theorem straight_some (key : Str) (kind : EdgeKind) {a b : Str} (state : EdgeState) (label : Option Str)
    (here : a ∈ (nodes t : List (LaidNode K)).map LaidNode.id) (there : b ∈ (nodes t : List (LaidNode K)).map LaidNode.id) :
    ∃ e : LaidEdge K, straight t key kind a b state label = some e ∧ e.kind = kind ∧ e.a = a ∧ e.b = b := by
  have stands {id : Str} (here : id ∈ (nodes t : List (LaidNode K)).map LaidNode.id) : ∃ p : K × K, pos t id = some p := by
    obtain ⟨n, member, rfl⟩ := List.mem_map.mp here
    have some_ : ((nodes t).reverse.find? (·.id = n.id)).isSome := List.find?_isSome.mpr ⟨n, List.mem_reverse.mpr member, decide_eq_true rfl⟩
    obtain ⟨n', found⟩ := Option.isSome_iff_exists.mp some_
    exact ⟨(n'.x, n'.y), congrArg (Option.map fun n : LaidNode K => (n.x, n.y)) found⟩
  obtain ⟨pa, atA⟩ := stands here
  obtain ⟨pb, atB⟩ := stands there
  unfold straight
  rw [atA, atB]
  exact ⟨_, rfl, rfl, rfl, rfl⟩

theorem straight_ends {key : Str} {kind : EdgeKind} {a b : Str} {state : EdgeState} {label : Option Str} {e : LaidEdge K}
    (some_ : straight t key kind a b state label = some e) : e.kind = kind ∧ e.a = a ∧ e.b = b := by
  unfold straight at some_
  split at some_
  · obtain rfl := Option.some.inj some_
    exact ⟨rfl, rfl, rfl⟩
  · cases some_

/-- A route that is drawn is drawn with its key. -/
theorem drawn_key {a b : Str} (drawn : Drawn (layoutTopology t : TopologyLayout K).edges .route a b) :
    ∃ p, (routePairs t).get (joined (ordered a b).1 (ordered a b).2) = some p ∧ ordered a b = (p.a, p.b) := by
  obtain ⟨e, member, kind, ends⟩ := drawn
  have routed : e ∈ (routeEdges t : List (LaidEdge K)) := by
    change e ∈ routeEdges t ++ gatewayEdges t ++ leafEdges t at member
    rw [List.mem_append, List.mem_append] at member
    rcases member with (route | gateway) | leaf
    · exact route
    · obtain ⟨⟨key, p⟩, -, same⟩ := List.mem_filterMap.mp gateway
      dsimp only at same
      split at same
      · obtain rfl := Option.some.inj same
        cases kind
      · cases same
    · obtain ⟨l, -, same⟩ := List.mem_filterMap.mp leaf
      rw [(straight_ends same).1] at kind
      cases kind
  obtain ⟨⟨key, p⟩, listed, same⟩ := List.mem_filterMap.mp routed
  obtain ⟨-, atA, atB⟩ := straight_ends same
  have found := OrderedMap.mem_entries.mp listed
  obtain ⟨r, -, keyed, ordered_⟩ := (routePairs_get t.routes key).1 p found
  have tidy : ordered p.a p.b = (p.a, p.b) := by
    have twice : ordered (pair r).1 (pair r).2 = pair r := by
      rcases ordered_or r.server r.remote with same | same
      · unfold pair
        rw [same]
        exact same
      · unfold pair
        rw [same, ordered_comm]
        exact same
    rwa [ordered_] at twice
  have same : ordered a b = (p.a, p.b) := by
    rw [atA, atB] at ends
    rcases ends with ⟨rfl, rfl⟩ | ⟨rfl, rfl⟩
    · exact tidy
    · exact (ordered_comm _ _).trans tidy
  refine ⟨p, ?_, same⟩
  have key_ : joined (ordered a b).1 (ordered a b).2 = key := by
    rw [same, ← keyed, keyOf, ordered_]
  rw [key_]
  exact found

/-- With everybody in place, the routes are drawn unless two of them share a key. -/
theorem routes_drawn (placed : ∀ r ∈ t.routes, r.server ∈ (nodes t : List (LaidNode K)).map LaidNode.id ∧
    r.remote ∈ (nodes t : List (LaidNode K)).map LaidNode.id) :
    (∀ r ∈ t.routes, Drawn (layoutTopology t : TopologyLayout K).edges .route r.server r.remote) ↔
      ∀ r ∈ t.routes, ∀ r' ∈ t.routes, keyOf r = keyOf r' → pair r = pair r' := by
  constructor
  · intro all r member r' member' same
    obtain ⟨p, found, ends⟩ := drawn_key (all r member)
    obtain ⟨p', found', ends'⟩ := drawn_key (all r' member')
    have same : joined (ordered r.server r.remote).1 (ordered r.server r.remote).2 =
      joined (ordered r'.server r'.remote).1 (ordered r'.server r'.remote).2 := same
    rw [same] at found
    obtain rfl := Option.some.inj (found.symm.trans found')
    exact ends.trans ends'.symm
  · intro apart r member
    obtain ⟨own, listed⟩ := routePairs_get t.routes (keyOf r)
    obtain ⟨p, found⟩ := listed ⟨r, member, rfl⟩
    obtain ⟨r', member', keyed, ends⟩ := own p found
    have same : pair r = (p.a, p.b) := (apart r member r' member' keyed.symm).trans ends
    have either : p.a = r.server ∧ p.b = r.remote ∨ p.a = r.remote ∧ p.b = r.server := by
      rcases ordered_or r.server r.remote with order | order <;> rw [pair, order, Prod.mk.injEq] at same
      · exact .inl ⟨same.1.symm, same.2.symm⟩
      · exact .inr ⟨same.1.symm, same.2.symm⟩
    obtain ⟨server, remote⟩ := placed r member
    have both : p.a ∈ (nodes t : List (LaidNode K)).map LaidNode.id ∧ p.b ∈ (nodes t : List (LaidNode K)).map LaidNode.id := by
      rcases either with ⟨atA, atB⟩ | ⟨atA, atB⟩ <;> rw [atA, atB]
      · exact ⟨server, remote⟩
      · exact ⟨remote, server⟩
    obtain ⟨e, line, kind, atA, atB⟩ := straight_some ("route:".toList ++ keyOf r) .route
      (if 0 < p.pending then .warn else if p.sides.length < 2 then .oneSided else .ok) none both.1 both.2
    refine ⟨e, List.mem_append_left _ (List.mem_append_left _ (List.mem_filterMap.mpr ⟨(keyOf r, p), OrderedMap.mem_entries.mpr found, line⟩)), kind, ?_⟩
    rwa [atA, atB]

theorem leafs_drawn (placed : ∀ l ∈ t.leafs, l.server ∈ (nodes t : List (LaidNode K)).map LaidNode.id ∧
    l.name ∈ (nodes t : List (LaidNode K)).map LaidNode.id) (l : TopoLeaf) (member : l ∈ t.leafs) :
    Drawn (layoutTopology t : TopologyLayout K).edges .leaf l.server l.name := by
  obtain ⟨server, name⟩ := placed l member
  obtain ⟨e, line, kind, ends⟩ := straight_some ("leaf:".toList ++ l.server ++ '\x00' :: l.name ++ '\x00' :: l.account) .leaf .ok
    (some l.account) server name
  exact ⟨e, List.mem_append_right _ (List.mem_filterMap.mpr ⟨l, member, line⟩), kind, .inl ends⟩

end Lines

/-! ### Columns -/

section Columns
variable {t : Topology} {K : Type} [Field K] [LinearOrder K] [Canvas K] [IsStrictOrderedRing K]

omit [Canvas K] in
theorem centersFrom_lookup (x : K) (l : List (Sized K)) (once : (l.map Sized.k).Nodup) (wide : ∀ s ∈ l, 0 ≤ s.col) {s : Sized K} (member : s ∈ l) :
    ∃ c, (centersFrom x l).lookup s.k = some c ∧ x + s.col / 2 ≤ c := by
  have room : (0 : K) ≤ gap := Nat.cast_nonneg _
  induction l generalizing x with
  | nil => cases member
  | cons first l ih =>
    obtain ⟨width, wide⟩ := List.forall_mem_cons.mp wide
    obtain ⟨fresh, once⟩ := List.nodup_cons.mp once
    rw [centersFrom, List.lookup_cons]
    rcases List.mem_cons.mp member with rfl | later
    · rw [beq_self_eq_true]
      exact ⟨_, rfl, le_rfl⟩
    · have other : (s.k == first.k) = false := beq_eq_false_iff_ne.mpr fun same => fresh (same ▸ List.mem_map_of_mem later)
      obtain ⟨c, found, after⟩ := ih (x + (first.col + gap)) once wide later
      rw [other]
      exact ⟨c, found, by linarith⟩

omit [Canvas K] in
/-- Each column starts a gap after the one before. -/
theorem centersFrom_apart (x : K) (l : List (Sized K)) (once : (l.map Sized.k).Nodup) (wide : ∀ s ∈ l, 0 ≤ s.col) (middle : Str → K)
    (found : ∀ s ∈ l, (centersFrom x l).lookup s.k = some (middle s.k)) :
    l.Pairwise fun s s' => middle s.k + s.col / 2 + gap ≤ middle s'.k - s'.col / 2 := by
  induction l generalizing x with
  | nil => exact .nil
  | cons first l ih =>
    obtain ⟨width, wide'⟩ := List.forall_mem_cons.mp wide
    obtain ⟨fresh, once'⟩ := List.nodup_cons.mp once
    have here := found first List.mem_cons_self
    rw [centersFrom, List.lookup_cons_self] at here
    have start := Option.some.inj here
    have rest (s : Sized K) (later : s ∈ l) : (centersFrom (x + (first.col + gap)) l).lookup s.k = some (middle s.k) := by
      have there := found s (List.mem_cons_of_mem _ later)
      have other : (s.k == first.k) = false := beq_eq_false_iff_ne.mpr fun same => fresh (same ▸ List.mem_map_of_mem later)
      rwa [centersFrom, List.lookup_cons, other] at there
    refine List.pairwise_cons.mpr ⟨fun s later => ?_, ih _ once' wide' rest⟩
    obtain ⟨c, there, after⟩ := centersFrom_lookup _ l once' wide' later
    obtain rfl := Option.some.inj ((rest s later).symm.trans there)
    linarith

theorem size_box (k : Str) : 0 ≤ (size t k : Sized K).box ∧ (size t k : Sized K).box ≤ (size t k : Sized K).col := by
  refine ⟨le_trans ?_ (le_max_left _ _), le_max_left _ _⟩
  norm_num

/-- The boxes stand a gap apart. -/
theorem boxes_apart : (layoutTopology t : TopologyLayout K).clusters.Pairwise fun (a b : LaidCluster K) => a.x + a.w + gap ≤ b.x := by
  have once : ((sized t : List (Sized K)).map Sized.k).Nodup := by
    have same : (sized t : List (Sized K)).map Sized.k = keys t K := by
      rw [sized, List.map_map]
      exact List.map_id _
    rw [same]
    exact keys_nodup
  have narrow (s : Sized K) (member : s ∈ sized t) : 0 ≤ s.box ∧ s.box ≤ s.col := by
    obtain ⟨k, -, rfl⟩ := List.mem_map.mp member
    exact size_box k
  have wide (s : Sized K) (member : s ∈ sized t) : 0 ≤ s.col := (narrow s member).1.trans (narrow s member).2
  have apart := centersFrom_apart (margin : K) (sized t) once wide (center t) fun s member => by
    obtain ⟨c, found, -⟩ := centersFrom_lookup (margin : K) (sized t) once wide member
    rw [center, centers, found]
    rfl
  change ((sized t).map (clusterBox t)).Pairwise _
  rw [List.pairwise_map]
  refine List.Pairwise.imp_of_mem (fun {s s'} here there apart => ?_) apart
  have first := (narrow s here).2
  have second := (narrow s' there).2
  change center t s.k - s.box / 2 + s.box + gap ≤ center t s'.k - s'.box / 2
  linarith

end Columns

/-! ### The whole picture -/

section Picture
variable (rt : Runtime) (reports : List ServerReport)

/-- Who is reported as a leaf node, and by whom. -/
def Leaf (server name : Str) : Prop := ∃ r ∈ reports, ∃ l ∈ r.hung, l.server = server ∧ l.name = name

/-- A server reports a route to another. -/
def Routed (server remote : Str) : Prop := ∃ r ∈ reports, r.server.name = server ∧ remote ∈ r.remotes (namesOf reports)

def cluster (id : Str) : Str := clusterOf (said rt reports) id

/-- A leaf node that is no server of a cluster. -/
def Hangs (id : Str) : Prop := (∃ h, Leaf reports h id) ∧ ¬ ((∃ r ∈ reports, r.server.name = id) ∧ cluster rt reports id ≠ [])

/-- The server a leaf node hangs below, of those that report it. -/
def Hub (h id : Str) : Prop := Leaf reports h id ∧ ∀ h', Leaf reports h' id → ¬ h' < h

/-- A server that stands in a box; a box may happen to have the key that the server would have. -/
def Boxed (h : Str) : Prop :=
  ¬ Hangs rt reports h ∨ (∃ r ∈ reports, ∃ g ∈ r.far rt (namesOf reports), g.remote = '\x00' :: h) ∨
    ∃ m ∈ said rt reports, ¬ Hangs rt reports m.id ∧ cluster rt reports m.id = '\x00' :: h

/-- No leaf node hangs below a server that hangs itself. -/
def Flat : Prop := ∀ h id, Hangs rt reports id → Hub reports h id → Boxed rt reports h

/-- Routes of one key are between the same servers. -/
def Apart : Prop := ∀ a b a' b', Routed reports a b → Routed reports a' b' →
  joined (ordered a b).1 (ordered a b).2 = joined (ordered a' b').1 (ordered a' b').2 → ordered a b = ordered a' b'

/-- The picture loses nobody. -/
structure Shows {K : Type} [Field K] [LinearOrder K] (lay : TopologyLayout K) : Prop where
  nodes : (lay.nodes.map LaidNode.id).Perm ((buildTopology rt reports).nodes.map TopoNode.id)
  routes : ∀ a b, Routed reports a b → Drawn lay.edges .route a b
  leafs : ∀ h id, Leaf reports h id → Drawn lay.edges .leaf h id
  boxes : lay.clusters.Pairwise fun a b => a.x + a.w < b.x

variable {rt} {reports} {t : Topology}

theorem leaf_mem (tells : Tells rt reports t) {h id : Str} : Leaf reports h id ↔ ∃ l ∈ t.leafs, l.server = h ∧ l.name = id := by
  unfold Leaf
  constructor
  · rintro ⟨r, there, l, member, ends⟩
    exact ⟨l, (tells.leafs l).mpr ⟨r, there, member⟩, ends⟩
  · rintro ⟨l, member, ends⟩
    obtain ⟨r, there, member⟩ := (tells.leafs l).mp member
    exact ⟨r, there, l, member, ends⟩

theorem leaf_said {h id : Str} (leaf : Leaf reports h id) :
    (∃ m ∈ said rt reports, m.id = id) ∧ ∃ r ∈ reports, r.server.name = h := by
  obtain ⟨r, there, l, member, server, name⟩ := leaf
  obtain ⟨c, listed, rfl⟩ := List.mem_map.mp member
  refine ⟨⟨leafNode (leafName c) c.account, ?_, name⟩, r, there, server⟩
  refine List.mem_append_right _ (List.mem_flatMap.mpr ⟨r, there, ?_⟩)
  exact List.mem_append_right _ (List.mem_map_of_mem (f := fun l : LeafConn => leafNode (leafName l) l.account) listed)

theorem server_said {h : Str} (server : ∃ r ∈ reports, r.server.name = h) : ∃ m ∈ said rt reports, m.id = h := by
  obtain ⟨r, there, same⟩ := server
  exact ⟨serverNode r.server, List.mem_append_left _ (List.mem_map_of_mem there), same⟩

theorem node_at (tells : Tells rt reports t) {id : Str} (known : ∃ m ∈ said rt reports, m.id = id) :
    ∃ n ∈ t.nodes, n.id = id ∧ nodeById t id = some n ∧ n.cluster = cluster rt reports id ∧
      (n.kind = .server ↔ ∃ r ∈ reports, r.server.name = id) := by
  obtain ⟨n, member, rfl, found⟩ := nodeById_some ((tells.there id).mpr known)
  exact ⟨n, member, rfl, found, tells.cluster n member, tells.server n member⟩

theorem inRow_iff (tells : Tells rt reports t) (id : Str) : inRow t id = true ↔ Hangs rt reports id := by
  have leaf : id ∈ leafNames t ↔ ∃ h, Leaf reports h id := by
    rw [leafNames, List.mem_dedup, List.mem_map]
    constructor
    · rintro ⟨l, member, same⟩
      exact ⟨l.server, (leaf_mem tells).mpr ⟨l, member, rfl, same⟩⟩
    · rintro ⟨h, hung⟩
      obtain ⟨l, member, -, same⟩ := (leaf_mem tells).mp hung
      exact ⟨l, member, same⟩
  rw [inRow, Bool.and_eq_true, decide_eq_true_iff, leaf]
  refine and_congr_right fun ⟨h, hung⟩ => ?_
  obtain ⟨n, -, -, found, cluster_, server⟩ := node_at tells (@leaf_said rt _ _ _ hung).1
  rw [found, Option.any_some, cluster_, Bool.not_eq_true', decide_eq_false_iff_not, server]

/-- The leaf connections are sorted by server, so the first of a name is the one of its hub. -/
theorem hub_found (tells : Tells rt reports t) {h id : Str} (leaf : Leaf reports h id) : ∃ h, Hub reports h id ∧ hubOf t id = some h := by
  obtain ⟨l, member, -, name⟩ := (leaf_mem tells).mp leaf
  have some_ : (t.leafs.find? (·.name = id)).isSome := List.find?_isSome.mpr ⟨l, member, decide_eq_true name⟩
  obtain ⟨first, found⟩ := Option.isSome_iff_exists.mp some_
  obtain ⟨same, before, after, split, none⟩ := List.find?_eq_some_iff_append.mp found
  have same : first.name = id := of_decide_eq_true same
  have listed : first ∈ t.leafs := List.mem_of_find?_eq_some found
  refine ⟨first.server, ⟨(leaf_mem tells).mpr ⟨first, listed, rfl, same⟩, fun h' leaf' lower => ?_⟩, congrArg (Option.map TopoLeaf.server) found⟩
  obtain ⟨l', member', rfl, name'⟩ := (leaf_mem tells).mp leaf'
  rw [split, List.mem_append, List.mem_cons] at member'
  rcases member' with early | rfl | later
  · have other := none l' early
    rw [Bool.not_eq_true', decide_eq_false_iff_not] at other
    exact other name'
  · exact lt_irrefl _ lower
  · have sorted := tells.sorted
    rw [split, List.pairwise_append] at sorted
    have less := (List.pairwise_cons.mp sorted.2.1).1 l' later
    rw [leafLess, if_pos lower.ne, decide_eq_false_iff_not] at less
    exact less lower

theorem hubOf_eq (tells : Tells rt reports t) {h id : Str} (hub : Hub reports h id) : hubOf t id = some h := by
  obtain ⟨h', hub', found⟩ := hub_found tells hub.1
  rw [found, le_antisymm (not_lt.mp (hub'.2 h hub.1)) (not_lt.mp (hub.2 h' hub'.1))]

/-- A leaf node has a box to hang below just if its hub stands in one. -/
theorem hubKey_iff (tells : Tells rt reports t) {h id : Str} (hub : Hub reports h id) :
    hubKey t id ∈ (members t).1.keys ↔ Boxed rt reports h := by
  have server := (@leaf_said rt _ _ _ hub.1).2
  obtain ⟨n, member, same, found, cluster_, kind⟩ := node_at tells (server_said server)
  have key : hubKey t id = clusterKey (cluster rt reports h) h := by
    rw [hubKey, hubOf_eq tells hub, Option.getD_some, found, Option.map_some, Option.map_some, Option.getD_some, Option.getD_some, cluster_, same]
  have alone (hangs : Hangs rt reports h) : hubKey t id = '\x00' :: h := by
    have blank : cluster rt reports h = [] := not_not.mp fun some_ => hangs.2 ⟨server, some_⟩
    rw [key, blank]
    rfl
  rw [mem_members]
  unfold Boxed
  constructor
  · rintro (⟨m, there, apart, keyed⟩ | ⟨g, there, keyed⟩)
    · by_cases hangs : Hangs rt reports h
      · rw [alone hangs, clusterKey] at keyed
        have stands : ¬ Hangs rt reports m.id := fun hangs => by
          rw [(inRow_iff tells m.id).mpr hangs] at apart
          cases apart
        split at keyed
        · obtain ⟨m', said_, same'⟩ := (tells.there m.id).mp (List.mem_map_of_mem there)
          exact .inr (.inr ⟨m', said_, same'.symm ▸ stands, by rw [same', ← keyed]; exact (tells.cluster m there).symm⟩)
        · exact absurd ((List.cons.inj keyed).2 ▸ hangs) stands
      · exact .inl hangs
    · by_cases hangs : Hangs rt reports h
      · obtain ⟨r, from_, listed⟩ := (tells.gateways g).mp there
        exact .inr (.inl ⟨r, from_, g, listed, keyed.trans (alone hangs)⟩)
      · exact .inl hangs
  · intro boxed
    by_cases hangs : Hangs rt reports h
    · rw [alone hangs]
      rcases boxed with stands | ⟨r, from_, g, listed, keyed⟩ | ⟨m, known, stands, keyed⟩
      · exact absurd hangs stands
      · exact .inr ⟨g, (tells.gateways g).mpr ⟨r, from_, listed⟩, keyed⟩
      · obtain ⟨n', there, same', -, cluster', -⟩ := node_at tells ⟨m, known, rfl⟩
        refine .inl ⟨n', there, ?_, ?_⟩
        · rw [same', ← Bool.not_eq_true, inRow_iff tells]
          exact stands
        · rw [clusterKey, cluster', keyed]
          rfl
    · refine .inl ⟨n, member, ?_, ?_⟩
      · rw [same, ← Bool.not_eq_true, inRow_iff tells]
        exact hangs
      · rw [key, cluster_, same]

theorem tells_sound (tells : Tells rt reports t) : Sound t where
  once := tells.once
  leafs l member := (tells.there l.name).mpr (leaf_said (h := l.server) ((leaf_mem tells).mpr ⟨l, member, rfl, rfl⟩)).1

variable {K : Type} [Field K] [LinearOrder K] [Canvas K]

theorem placed_iff (tells : Tells rt reports t) :
    ((layoutTopology t : TopologyLayout K).nodes.map LaidNode.id).Perm (t.nodes.map TopoNode.id) ↔ Flat rt reports := by
  refine (nodes_placed (tells_sound tells)).trans ⟨fun placed h id hangs hub => ?_, fun flat id row => ?_⟩
  · exact (hubKey_iff tells hub).mp (placed id ((inRow_iff tells id).mpr hangs))
  · have hangs := (inRow_iff tells id).mp row
    obtain ⟨h, leaf⟩ := hangs.1
    obtain ⟨h, hub, -⟩ := hub_found tells leaf
    exact (hubKey_iff tells hub).mpr (flat h id hangs hub)

/-- The picture loses nobody just if no leaf node hangs below a server that hangs itself, and no two routes share a key. -/
theorem shown_iff [IsStrictOrderedRing K] (distinct : (reports.map (·.server.name)).Nodup) :
    Shows rt reports (layoutTopology (buildTopology rt reports) : TopologyLayout K) ↔ Flat rt reports ∧ Apart reports := by
  have tells := buildTopology_tells rt reports distinct
  generalize built : buildTopology rt reports = t at tells ⊢
  have routed (a b : Str) : Routed reports a b ↔ ∃ x ∈ t.routes, x.server = a ∧ x.remote = b := (tells.routes a b).symm
  have apart : Apart reports ↔ ∀ r ∈ t.routes, ∀ r' ∈ t.routes, keyOf r = keyOf r' → pair r = pair r' := by
    constructor
    · intro apart r member r' member'
      exact apart _ _ _ _ ((routed _ _).mpr ⟨r, member, rfl, rfl⟩) ((routed _ _).mpr ⟨r', member', rfl, rfl⟩)
    · intro apart a b a' b' first second
      obtain ⟨r, member, rfl, rfl⟩ := (routed a b).mp first
      obtain ⟨r', member', rfl, rfl⟩ := (routed a' b').mp second
      exact apart r member r' member'
  have ends (placed : ((layoutTopology t : TopologyLayout K).nodes.map LaidNode.id).Perm (t.nodes.map TopoNode.id)) (r : TopoRoute)
      (member : r ∈ t.routes) : r.server ∈ (nodes t : List (LaidNode K)).map LaidNode.id ∧
        r.remote ∈ (nodes t : List (LaidNode K)).map LaidNode.id := by
    obtain ⟨report, there, server, remote⟩ := (routed r.server r.remote).mpr ⟨r, member, rfl, rfl⟩
    refine ⟨placed.mem_iff.mpr ((tells.there _).mpr (server_said ⟨report, there, server⟩)), placed.mem_iff.mpr ((tells.there _).mpr ?_)⟩
    refine ⟨peerNode r.remote report.server.cluster, List.mem_append_right _ (List.mem_flatMap.mpr ⟨report, there, ?_⟩), rfl⟩
    exact List.mem_append_left _ (List.mem_append_left _ (List.mem_map_of_mem (f := (peerNode · report.server.cluster)) remote))
  constructor
  · intro shows
    have placed := shows.nodes
    rw [built] at placed
    refine ⟨(placed_iff tells).mp placed, apart.mpr ((routes_drawn (ends placed)).mp fun r member => ?_)⟩
    exact shows.routes _ _ ((routed _ _).mpr ⟨r, member, rfl, rfl⟩)
  · rintro ⟨flat, keyed⟩
    have placed := (placed_iff (K := K) tells).mpr flat
    refine ⟨built ▸ placed, fun a b route => ?_, fun h id leaf => ?_, boxes_apart.imp fun {a b} far => ?_⟩
    · obtain ⟨r, member, rfl, rfl⟩ := (routed a b).mp route
      exact (routes_drawn (ends placed)).mpr (apart.mp keyed) r member
    · obtain ⟨l, member, rfl, rfl⟩ := (leaf_mem tells).mp leaf
      refine leafs_drawn (fun l member => ?_) l member
      obtain ⟨known, server⟩ := @leaf_said rt _ _ _ ((leaf_mem tells).mpr ⟨l, member, rfl, rfl⟩)
      exact ⟨placed.mem_iff.mpr ((tells.there _).mpr (server_said server)), placed.mem_iff.mpr ((tells.there _).mpr known)⟩
    · have room : (0 : K) < gap := Nat.cast_pos.mpr (by decide)
      linarith

end Picture

theorem mergeSort_same {A : Type} (compare : A → A → ℤ) (l : List A) :
    (l.mergeSort fun a b => decide (compare a b ≤ 0)).Perm l := List.mergeSort_perm _ _

/-- A browser, with the coordinates as real numbers. -/
@[reducible] noncomputable def canvas : Canvas ℝ where
  pi := Real.pi
  sin := Real.sin
  cos := Real.cos
  toFixed := tenths
  localeCompare := byLetters
  sort compare l := l.mergeSort fun a b => decide (compare a b ≤ 0)
  sort_perm := @mergeSort_same

/-- A server, a leaf node of it, and a leaf node of that one; no clusters. -/
def chained : List ServerReport :=
  [{ server := { name := "hub".toList, id := "A".toList }, leafs := some [{ name := "edge".toList }] },
    { server := { name := "edge".toList, id := "B".toList }, leafs := some [{ name := "far".toList }] }]

theorem shown_iff_chained :
    Shows .plain chained (@layoutTopology (buildTopology .plain chained) ℝ _ _ canvas) ↔ Flat .plain chained ∧ Apart chained :=
  @shown_iff .plain chained ℝ _ _ canvas _ (by decide)

/-- The leaf node of the leaf node is nowhere. -/
theorem chained_lost : ¬ Shows .plain chained (@layoutTopology (buildTopology .plain chained) ℝ _ _ canvas) := by
  intro shows
  have flat := (@placed_iff .plain chained _ ℝ _ _ canvas (buildTopology_tells .plain chained (by decide))).mp shows.nodes
  have leaf (h id : Str) : Leaf chained h id ↔ h = "hub".toList ∧ id = "edge".toList ∨ h = "edge".toList ∧ id = "far".toList := by
    unfold Leaf chained ServerReport.hung
    simp only [List.exists_mem_cons_iff, Option.getD_some, List.map_cons, List.map_nil, List.not_mem_nil, false_and, exists_false, or_false]
    exact or_congr ⟨fun ends => ⟨ends.1.symm, ends.2.symm⟩, fun ends => ⟨ends.1.symm, ends.2.symm⟩⟩
      ⟨fun ends => ⟨ends.1.symm, ends.2.symm⟩, fun ends => ⟨ends.1.symm, ends.2.symm⟩⟩
  have blank : ∀ m ∈ said .plain chained, cluster .plain chained m.id = [] := by decide
  have edge : Hangs .plain chained "edge".toList := by
    refine ⟨⟨"hub".toList, (leaf _ _).mpr (.inl ⟨rfl, rfl⟩)⟩, fun both => both.2 ?_⟩
    exact blank (serverNode { name := "edge".toList, id := "B".toList }) (by simp [said, chained])
  have far : Hangs .plain chained "far".toList := by
    refine ⟨⟨"edge".toList, (leaf _ _).mpr (.inr ⟨rfl, rfl⟩)⟩, fun both => ?_⟩
    have none : ¬ ∃ r ∈ chained, r.server.name = "far".toList := by decide
    exact none both.1
  have hub : Hub chained "edge".toList "far".toList := by
    refine ⟨(leaf _ _).mpr (.inr ⟨rfl, rfl⟩), fun h' leaf' lower => ?_⟩
    rcases (leaf _ _).mp leaf' with ⟨-, other⟩ | ⟨rfl, -⟩
    · exact absurd other (by decide)
    · exact lt_irrefl _ lower
  rcases flat _ _ far hub with stands | ⟨r, from_, g, listed, -⟩ | ⟨m, known, -, keyed⟩
  · exact stands edge
  · have silent : ∀ r ∈ chained, r.far .plain (namesOf chained) = [] := by
      unfold chained ServerReport.far
      simp
    rw [silent r from_] at listed
    exact List.not_mem_nil listed
  · rw [blank m known] at keyed
    cases keyed

end topology
end NatsExplorer.Client
