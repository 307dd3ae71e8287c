import NatsExplorer.Go.Runtime
import Mathlib.Data.List.Induction

/-! The topology is who is connected to whom (`go-server/internal/handler/topology.go`): the routes inside a cluster, the
gateways between clusters and the leaf nodes hanging off a server. Every server describes its own side of each connection,
and `buildTopology` merges what they say into one picture. -/
namespace NatsExplorer.Handler
open Go

namespace topology

structure SysServer where
  name : Str
  id : Str
  cluster : Str := []
  version : Str := []
  jetStream : Bool := false

structure Traffic where
  inMsgs : Int64 := 0
  outMsgs : Int64 := 0
  inBytes : Int64 := 0
  outBytes : Int64 := 0

structure RouteConn where
  remoteID : Str := []
  remoteName : Str := []
  isConfigured : Bool := false
  rtt : Str := []
  pending : Int64 := 0
  subs : Int64 := 0
  compression : Str := []
  traffic : Traffic := {}

structure GatewayConnection where
  /-- The remote server's id. -/
  name : Str
  ip : Str := []
  port : Int := 0
  rtt : Str := []
  uptime : Str := []
  idle : Str := []
  pending : Int64 := 0
  subs : Int64 := 0
  traffic : Traffic := {}

structure GatewayConn where
  configured : Bool
  connection : Option GatewayConnection := none

structure GatewayzData where
  name : Str
  outbound : Map Str GatewayConn := ∅
  inbound : Map Str (List GatewayConn) := ∅

structure LeafConn where
  name : Str := []
  isSpoke : Bool := false
  account : Str := []
  ip : Str := []
  port : Int := 0
  rtt : Str := []
  subs : Int64 := 0
  compression : Str := []
  traffic : Traffic := {}

/-- What one server said about itself and its connections. -/
structure ServerReport where
  server : SysServer
  routes : Option (List RouteConn) := none
  gateways : Option GatewayzData := none
  leafs : Option (List LeafConn) := none

/-- `server` for a server that answered, `peer` for a route or gateway peer that did not, `leaf` for a leaf node. -/
inductive NodeKind where
  | server
  | peer
  | leaf
  deriving DecidableEq, Repr

structure TopoNode where
  /-- The key links refer to: the server name where one is known. -/
  id : Str
  name : Str
  cluster : Str := []
  kind : NodeKind
  version : Str := []
  jetStream : Bool := false
  account : Str := []

structure TopoRoute where
  server : Str
  remote : Str
  connections : Int64 := 0
  rtt : Str
  pending : Int64 := 0
  subs : Int64 := 0
  configured : Bool := false
  compression : Str
  traffic : Traffic := {}

inductive Direction where
  | outbound
  | inbound
  deriving DecidableEq, Repr

structure TopoGateway where
  server : Str
  /-- The gateway name of the reporting server, `remote` that of the other side. -/
  cluster : Str
  remote : Str
  direction : Direction
  configured : Bool
  connected : Bool := false
  remoteServer : Str := []
  address : Str := []
  rtt : Str := []
  uptime : Str := []
  idle : Str := []
  pending : Int64 := 0
  subs : Int64 := 0
  traffic : Traffic := {}

structure TopoLeaf where
  server : Str
  name : Str
  account : Str
  address : Str
  rtt : Str
  spoke : Bool
  subs : Int64
  compression : Str
  traffic : Traffic

structure Topology where
  source : Str := []
  nodes : List TopoNode := []
  routes : List TopoRoute := []
  gateways : List TopoGateway := []
  leafs : List TopoLeaf := []
  errors : List Str := []

def nameOrID (nameOf : Map Str Str) (id : Str) : Str := (nameOf.lookup id).getD id

def hostPort (ip : Str) (port : Int) : Str :=
  if ip = [] then [] else if port = 0 then ip else ip ++ ':' :: (toString port).toList

abbrev Nodes := Map Str TopoNode

/-- What a server says about itself beats what others say about it. -/
def addNode (nodes : Nodes) (n : TopoNode) : Nodes :=
  match nodes.lookup n.id with
  | some old =>
    let old := if old.kind ≠ .server ∧ n.kind = .server then n else old
    nodes.insert n.id (if old.cluster = [] then { old with cluster := n.cluster } else old)
  | none => nodes.insert n.id n

def serverNode (s : SysServer) : TopoNode :=
  { id := s.name, name := s.name, cluster := s.cluster, kind := .server, version := s.version, jetStream := s.jetStream }

def peerNode (name cluster : Str) : TopoNode := { id := name, name := name, cluster := cluster, kind := .peer }

def leafNode (name account : Str) : TopoNode := { id := name, name := name, kind := .leaf, account := account }

def Traffic.add (a b : Traffic) : Traffic :=
  { inMsgs := a.inMsgs + b.inMsgs, outMsgs := a.outMsgs + b.outMsgs, inBytes := a.inBytes + b.inBytes, outBytes := a.outBytes + b.outBytes }

def remoteOf (nameOf : Map Str Str) (c : RouteConn) : Str :=
  if c.remoteName = [] then nameOrID nameOf c.remoteID else c.remoteName

/-- A route can be a pool of connections, which are one link between two servers. -/
def addRoute (nameOf : Map Str Str) (server : SysServer) (s : Nodes × Map Str TopoRoute) (c : RouteConn) : Nodes × Map Str TopoRoute :=
  let remote := remoteOf nameOf c
  let agg := (s.2.lookup remote).getD { server := server.name, remote := remote, rtt := c.rtt, compression := c.compression }
  (addNode s.1 (peerNode remote server.cluster),
    s.2.insert remote { agg with
      connections := agg.connections + 1
      configured := agg.configured || c.isConfigured
      pending := agg.pending + c.pending
      subs := agg.subs + c.subs
      traffic := agg.traffic.add c.traffic })

def gatewayOf (nameOf : Map Str Str) (server : SysServer) (cluster remote : Str) (direction : Direction) (gc : GatewayConn) : TopoGateway :=
  let g : TopoGateway := { server := server.name, cluster := cluster, remote := remote, direction := direction, configured := gc.configured }
  match gc.connection with
  | none => g
  | some c => { g with
      connected := true, remoteServer := nameOrID nameOf c.name, address := hostPort c.ip c.port
      rtt := c.rtt, uptime := c.uptime, idle := c.idle, pending := c.pending, subs := c.subs, traffic := c.traffic }

/-- The gateway connections a server reports, outbound ones first. -/
def GatewayzData.conns (rt : Runtime) (g : GatewayzData) : List (Str × Direction × GatewayConn) :=
  (rt.range g.outbound.entries).map (fun e => (e.1, .outbound, e.2)) ++
    (rt.range g.inbound.entries).flatMap fun e => e.2.map fun gc => (e.1, .inbound, gc)

def addGateway (nameOf : Map Str Str) (server : SysServer) (cluster : Str) (s : Nodes × List TopoGateway) (c : Str × Direction × GatewayConn) :
    Nodes × List TopoGateway :=
  let g := gatewayOf nameOf server cluster c.1 c.2.1 c.2.2
  (if g.connected then addNode s.1 (peerNode g.remoteServer g.remote) else s.1, s.2 ++ [g])

def leafName (l : LeafConn) : Str := if l.name = [] then hostPort l.ip l.port else l.name

def leafOf (server : SysServer) (l : LeafConn) : TopoLeaf :=
  { server := server.name, name := leafName l, account := l.account, address := hostPort l.ip l.port, rtt := l.rtt, spoke := l.isSpoke
    subs := l.subs, compression := l.compression, traffic := l.traffic }

/-- A leaf that is itself a server of the system answered for itself; otherwise it is known only from this side. -/
def addLeaf (server : SysServer) (s : Nodes × List TopoLeaf) (l : LeafConn) : Nodes × List TopoLeaf :=
  (addNode s.1 (leafNode (leafName l) l.account), s.2 ++ [leafOf server l])

structure Building where
  nodes : Nodes := ∅
  routes : List TopoRoute := []
  gateways : List TopoGateway := []
  leafs : List TopoLeaf := []

section
variable (rt : Runtime) (nameOf : Map Str Str)

def addRoutes (r : ServerReport) (s : Building) : Building :=
  match r.routes with
  | none => s
  | some conns =>
    let (nodes, byRemote) := conns.foldl (addRoute nameOf r.server) (s.nodes, ∅)
    { s with nodes := nodes, routes := s.routes ++ rt.range byRemote.values }

def addGateways (r : ServerReport) (s : Building) : Building :=
  match r.gateways with
  | none => s
  | some g =>
    let (nodes, gateways) := (g.conns rt).foldl (addGateway nameOf r.server g.name) (s.nodes, s.gateways)
    { s with nodes := nodes, gateways := gateways }

def addLeafs (r : ServerReport) (s : Building) : Building :=
  match r.leafs with
  | none => s
  | some conns =>
    let (nodes, leafs) := conns.foldl (addLeaf r.server) (s.nodes, s.leafs)
    { s with nodes := nodes, leafs := leafs }

def addReport (s : Building) (r : ServerReport) : Building :=
  addLeafs r (addGateways rt nameOf r (addRoutes rt nameOf r s))

end

def nodeLess (i j : TopoNode) : Bool := if i.cluster ≠ j.cluster then decide (i.cluster < j.cluster) else decide (i.id < j.id)

def routeLess (i j : TopoRoute) : Bool := if i.server ≠ j.server then decide (i.server < j.server) else decide (i.remote < j.remote)

/-- Outbound first. -/
def gatewayLess (a b : TopoGateway) : Bool :=
  if a.server ≠ b.server then decide (a.server < b.server)
  else if a.remote ≠ b.remote then decide (a.remote < b.remote)
  else a.direction = .outbound && b.direction = .inbound

def leafLess (i j : TopoLeaf) : Bool := if i.server ≠ j.server then decide (i.server < j.server) else decide (i.name < j.name)

def namesOf (reports : List ServerReport) : Map Str Str := reports.foldl (fun nameOf r => nameOf.insert r.server.id r.server.name) ∅

def buildTopology (rt : Runtime) (reports : List ServerReport) : Topology :=
  let nameOf := namesOf reports
  let servers := reports.foldl (fun nodes r => addNode nodes (serverNode r.server)) ∅
  let out := reports.foldl (addReport rt nameOf) { nodes := servers }
  { nodes := rt.sortSlice nodeLess (rt.range out.nodes.values)
    routes := rt.sortSlice routeLess out.routes
    gateways := Runtime.insertion gatewayLess out.gateways
    leafs := rt.sortSlice leafLess out.leafs }

/-! ### What is said of whom -/

section Said
variable (rt : Runtime) (reports : List ServerReport)

/-- The servers a server reports routes to. -/
def ServerReport.remotes (nameOf : Map Str Str) (r : ServerReport) : List Str := (r.routes.getD []).map (remoteOf nameOf)

/-- The gateways a server reports. -/
def ServerReport.far (nameOf : Map Str Str) (r : ServerReport) : List TopoGateway :=
  (r.gateways.map fun g => (g.conns rt).map fun c => gatewayOf nameOf r.server g.name c.1 c.2.1 c.2.2).getD []

def ServerReport.hung (r : ServerReport) : List TopoLeaf := (r.leafs.getD []).map (leafOf r.server)

/-- What a server says of others. -/
def ServerReport.others (nameOf : Map Str Str) (r : ServerReport) : List TopoNode :=
  (r.remotes nameOf).map (peerNode · r.server.cluster) ++
    ((r.far rt nameOf).filter (·.connected)).map (fun g => peerNode g.remoteServer g.remote) ++
    (r.leafs.getD []).map fun l => leafNode (leafName l) l.account

/-- Everything that is said of a node, by the servers of themselves first. -/
def said : List TopoNode := reports.map (fun r => serverNode r.server) ++ reports.flatMap (·.others rt (namesOf reports))

/-- The first cluster that is said of a node. -/
def clusterOf (said : List TopoNode) (id : Str) : Str := (((said.filter (·.id = id)).map TopoNode.cluster).find? (· ≠ [])).getD []

end Said

/-- What the nodes are, after what is said of them. -/
structure Merged (said : List TopoNode) (nodes : Nodes) : Prop where
  there : ∀ id, (∃ n, nodes.lookup id = some n) ↔ ∃ m ∈ said, m.id = id
  each : ∀ {id n}, nodes.lookup id = some n →
    n.id = id ∧ n.cluster = clusterOf said id ∧ (n.kind = .server ↔ ∃ m ∈ said, m.id = id ∧ m.kind = .server)

theorem clusterOf_append (said : List TopoNode) (n : TopoNode) (id : Str) :
    clusterOf (said ++ [n]) id = if n.id = id ∧ clusterOf said id = [] then n.cluster else clusterOf said id := by
  unfold clusterOf
  rw [List.filter_append, List.map_append, List.find?_append]
  cases first : ((said.filter (·.id = id)).map TopoNode.cluster).find? (· ≠ []) with
  | some cluster =>
    have some_ : cluster ≠ [] := of_decide_eq_true (List.find?_some first :)
    simp [some_]
  | none =>
    by_cases same : n.id = id
    · by_cases blank : n.cluster = [] <;> simp [same, blank]
    · simp [same]

/-- Each node is under its id. -/
theorem Merged.ids {said : List TopoNode} {nodes : Nodes} (merged : Merged said nodes) : nodes.values.map TopoNode.id = nodes.keys := by
  rw [Map.values, List.map_map]
  refine List.map_congr_left fun e member => ?_
  exact (merged.each (AList.mem_lookup_iff.mpr member)).1

theorem Merged.add {said : List TopoNode} {nodes : Nodes} (merged : Merged said nodes) (n : TopoNode)
    (fresh : n.kind = .server → ∀ m ∈ said, m.id ≠ n.id) : Merged (said ++ [n]) (addNode nodes n) := by
  have grown (f : TopoNode → Prop) : (∃ m ∈ said ++ [n], f m) ↔ (∃ m ∈ said, f m) ∨ f n := by simp [or_and_right, exists_or]
  have there (new : TopoNode) (id : Str) : (∃ m, (AList.insert n.id new nodes).lookup id = some m) ↔ ∃ m ∈ said ++ [n], m.id = id := by
    rw [grown, ← merged.there]
    by_cases same : id = n.id
    · subst same
      simp [AList.lookup_insert]
    · simp [AList.lookup_insert_ne same, Ne.symm same]
  have apart (new : TopoNode) {id : Str} {m : TopoNode} (other : id ≠ n.id) (found : (AList.insert n.id new nodes).lookup id = some m) :
      m.id = id ∧ m.cluster = clusterOf (said ++ [n]) id ∧ (m.kind = .server ↔ ∃ m ∈ said ++ [n], m.id = id ∧ m.kind = .server) := by
    rw [AList.lookup_insert_ne other] at found
    obtain ⟨id_, cluster, server⟩ := merged.each found
    rw [grown, clusterOf_append, if_neg fun both => other both.1.symm]
    exact ⟨id_, cluster, server.trans (or_iff_left fun both => other both.1.symm).symm⟩
  unfold addNode
  split
  · rename_i old found
    obtain ⟨id_, cluster, server⟩ := merged.each found
    have peer : n.kind ≠ .server := fun itself => by
      obtain ⟨m, member, same⟩ := (merged.there n.id).mp ⟨old, found⟩
      exact fresh itself m member same
    have kept : (if old.kind ≠ .server ∧ n.kind = .server then n else old) = old := if_neg fun both => peer both.2
    rw [kept]
    refine ⟨there _, fun {id m} here => ?_⟩
    by_cases other : id = n.id
    · subst other
      rw [AList.lookup_insert] at here
      obtain rfl := Option.some.inj here
      rw [grown, clusterOf_append, ← cluster]
      split
      · rename_i blank
        rw [if_pos ⟨rfl, blank⟩]
        exact ⟨id_, rfl, server.trans (or_iff_left fun both => peer both.2).symm⟩
      · rename_i some_
        rw [if_neg fun both => some_ both.2]
        exact ⟨id_, rfl, server.trans (or_iff_left fun both => peer both.2).symm⟩
    · exact apart _ other here
  · rename_i absent
    have none : ¬ ∃ m ∈ said, m.id = n.id := fun some_ => by
      obtain ⟨m, found⟩ := (merged.there n.id).mpr some_
      rw [absent] at found
      cases found
    refine ⟨there _, fun {id m} here => ?_⟩
    by_cases other : id = n.id
    · subst other
      rw [AList.lookup_insert] at here
      obtain rfl := Option.some.inj here
      have blank : clusterOf said n.id = [] := by
        unfold clusterOf
        rw [List.filter_eq_nil_iff.mpr fun m member => by simpa using fun same => none ⟨m, member, same⟩]
        rfl
      rw [grown, clusterOf_append, if_pos ⟨rfl, blank⟩]
      refine ⟨rfl, rfl, fun server => .inr ⟨rfl, server⟩, fun either => ?_⟩
      rcases either with ⟨m, member, same, -⟩ | ⟨-, server⟩
      · exact absurd ⟨m, member, same⟩ none
      · exact server
    · exact apart _ other here

theorem Merged.fold {said : List TopoNode} {nodes : Nodes} (merged : Merged said nodes) (more : List TopoNode)
    (others : ∀ n ∈ more, n.kind ≠ .server) : Merged (said ++ more) (more.foldl addNode nodes) := by
  induction more generalizing said nodes with
  | nil => rwa [List.append_nil]
  | cons n more ih =>
    obtain ⟨first, others⟩ := List.forall_mem_cons.mp others
    rw [List.foldl_cons, List.append_cons]
    exact ih (merged.add n fun server => absurd server first) others

theorem merged_servers (reports : List ServerReport) (distinct : (reports.map (·.server.name)).Nodup) :
    Merged (reports.map fun r => serverNode r.server) (reports.foldl (fun nodes r => addNode nodes (serverNode r.server)) ∅) := by
  induction reports using List.reverseRecOn with
  | nil => exact ⟨fun id => by simp, fun found => by simp at found⟩
  | append_singleton reports r ih =>
    rw [List.map_append, List.nodup_append] at distinct
    rw [List.map_append, List.foldl_append]
    refine (ih distinct.1).add (serverNode r.server) fun _ m member same => ?_
    obtain ⟨r', listed, rfl⟩ := List.mem_map.mp member
    exact distinct.2.2 r'.server.name (List.mem_map_of_mem listed) r.server.name (List.mem_singleton.mpr rfl) same

section Reports
variable {rt : Runtime} {nameOf : Map Str Str}

theorem addRoute_fold (server : SysServer) (conns : List RouteConn) (s : Nodes × Map Str TopoRoute) :
    (conns.foldl (addRoute nameOf server) s).1 = ((conns.map (remoteOf nameOf)).map (peerNode · server.cluster)).foldl addNode s.1 := by
  induction conns generalizing s with
  | nil => rfl
  | cons c conns ih => exact ih _

/-- A server's routes are one for each server it reports a connection to. -/
theorem addRoute_pool (server : SysServer) (conns : List RouteConn) (nodes : Nodes) (remote : Str) :
    (∀ agg, (conns.foldl (addRoute nameOf server) (nodes, ∅)).2.lookup remote = some agg → agg.server = server.name ∧ agg.remote = remote) ∧
      ((∃ agg, (conns.foldl (addRoute nameOf server) (nodes, ∅)).2.lookup remote = some agg) ↔ remote ∈ conns.map (remoteOf nameOf)) := by
  induction conns using List.reverseRecOn with
  | nil => simp
  | append_singleton conns c ih =>
    rw [List.foldl_append, List.map_append]
    generalize conns.foldl (addRoute nameOf server) (nodes, ∅) = s at ih ⊢
    obtain ⟨own, listed⟩ := ih
    simp only [List.foldl_cons, List.foldl_nil, List.map_cons, List.map_nil, List.mem_append, List.mem_singleton]
    unfold addRoute
    by_cases same : remote = remoteOf nameOf c
    · subst same
      simp only [AList.lookup_insert, Option.some.injEq, or_true, exists_eq', and_true]
      rintro agg rfl
      cases before : s.2.lookup (remoteOf nameOf c) with
      | none => exact ⟨rfl, rfl⟩
      | some agg => exact own agg before
    · simp only [AList.lookup_insert_ne same, same, or_false]
      exact ⟨own, listed⟩

theorem addGateway_fold (server : SysServer) (cluster : Str) (conns : List (Str × Direction × GatewayConn)) (s : Nodes × List TopoGateway) :
    conns.foldl (addGateway nameOf server cluster) s =
      ((((conns.map fun c => gatewayOf nameOf server cluster c.1 c.2.1 c.2.2).filter (·.connected)).map
          fun g => peerNode g.remoteServer g.remote).foldl addNode s.1,
        s.2 ++ conns.map fun c => gatewayOf nameOf server cluster c.1 c.2.1 c.2.2) := by
  induction conns generalizing s with
  | nil => simp
  | cons c conns ih =>
    rw [List.foldl_cons, ih, List.map_cons, addGateway, List.filter_cons]
    cases (gatewayOf nameOf server cluster c.1 c.2.1 c.2.2).connected <;> simp

theorem addLeaf_fold (server : SysServer) (conns : List LeafConn) (s : Nodes × List TopoLeaf) :
    conns.foldl (addLeaf server) s =
      ((conns.map fun l => leafNode (leafName l) l.account).foldl addNode s.1, s.2 ++ conns.map (leafOf server)) := by
  induction conns generalizing s with
  | nil => simp
  | cons c conns ih =>
    rw [List.foldl_cons, ih, addLeaf]
    simp

/-- What a report adds. -/
theorem addReport_adds (s : Building) (r : ServerReport) :
    (addReport rt nameOf s r).nodes = (r.others rt nameOf).foldl addNode s.nodes ∧
      (addReport rt nameOf s r).gateways = s.gateways ++ r.far rt nameOf ∧ (addReport rt nameOf s r).leafs = s.leafs ++ r.hung ∧
        ∃ pools, (addReport rt nameOf s r).routes = s.routes ++ pools ∧
          ∀ a b, (∃ x ∈ pools, x.server = a ∧ x.remote = b) ↔ r.server.name = a ∧ b ∈ r.remotes nameOf := by
  have routes : (addRoutes rt nameOf r s).nodes = ((r.remotes nameOf).map (peerNode · r.server.cluster)).foldl addNode s.nodes ∧
      (addRoutes rt nameOf r s).gateways = s.gateways ∧ (addRoutes rt nameOf r s).leafs = s.leafs ∧
        ∃ pools, (addRoutes rt nameOf r s).routes = s.routes ++ pools ∧
          ∀ a b, (∃ x ∈ pools, x.server = a ∧ x.remote = b) ↔ r.server.name = a ∧ b ∈ r.remotes nameOf := by
    unfold addRoutes ServerReport.remotes
    cases r.routes with
    | none => exact ⟨rfl, rfl, rfl, [], (List.append_nil _).symm, by simp⟩
    | some conns =>
      refine ⟨addRoute_fold r.server conns _, rfl, rfl, _, rfl, fun a b => ?_⟩
      obtain ⟨own, listed⟩ := @addRoute_pool nameOf r.server conns s.nodes b
      refine ⟨?_, ?_⟩
      · rintro ⟨x, member, rfl, rfl⟩
        obtain ⟨remote, found⟩ := Map.mem_values.mp (rt.mem_range.mp member)
        obtain ⟨server, same⟩ := (@addRoute_pool nameOf r.server conns s.nodes remote).1 x found
        exact ⟨server.symm, listed.mp ⟨x, same ▸ found⟩⟩
      · rintro ⟨rfl, member⟩
        obtain ⟨x, found⟩ := listed.mpr member
        exact ⟨x, rt.mem_range.mpr (Map.mem_values.mpr ⟨b, found⟩), own x found⟩
  unfold addReport
  generalize addRoutes rt nameOf r s = s' at routes ⊢
  obtain ⟨nodes, gateways, leafs, pools⟩ := routes
  have gates : (addGateways rt nameOf r s').nodes =
        (((r.far rt nameOf).filter (·.connected)).map fun g => peerNode g.remoteServer g.remote).foldl addNode s'.nodes ∧
      (addGateways rt nameOf r s').gateways = s'.gateways ++ r.far rt nameOf ∧ (addGateways rt nameOf r s').leafs = s'.leafs ∧
        (addGateways rt nameOf r s').routes = s'.routes := by
    unfold addGateways ServerReport.far
    cases r.gateways with
    | none => exact ⟨rfl, (List.append_nil _).symm, rfl, rfl⟩
    | some g =>
      dsimp only [Option.map_some, Option.getD_some]
      rw [addGateway_fold]
      exact ⟨rfl, rfl, rfl, rfl⟩
  generalize addGateways rt nameOf r s' = s'' at gates ⊢
  have hung : (addLeafs r s'').nodes = ((r.leafs.getD []).map fun l => leafNode (leafName l) l.account).foldl addNode s''.nodes ∧
      (addLeafs r s'').leafs = s''.leafs ++ r.hung ∧ (addLeafs r s'').gateways = s''.gateways ∧ (addLeafs r s'').routes = s''.routes := by
    unfold addLeafs ServerReport.hung
    cases r.leafs with
    | none => exact ⟨rfl, (List.append_nil _).symm, rfl, rfl⟩
    | some conns =>
      dsimp only [Option.getD_some]
      rw [addLeaf_fold]
      exact ⟨rfl, rfl, rfl, rfl⟩
  refine ⟨?_, ?_, ?_, ?_⟩
  · rw [hung.1, gates.1, nodes, ServerReport.others, List.foldl_append, List.foldl_append]
  · rw [hung.2.2.1, gates.2.1, gateways]
  · rw [hung.2.1, gates.2.2.1, leafs]
  · rw [hung.2.2.2, gates.2.2.2]
    exact pools

/-- What the reports add. -/
theorem addReports_add (reports : List ServerReport) (s : Building) :
    (reports.foldl (addReport rt nameOf) s).nodes = (reports.flatMap (·.others rt nameOf)).foldl addNode s.nodes ∧
      (reports.foldl (addReport rt nameOf) s).gateways = s.gateways ++ reports.flatMap (·.far rt nameOf) ∧
        (reports.foldl (addReport rt nameOf) s).leafs = s.leafs ++ reports.flatMap (·.hung) ∧
          ∃ pools, (reports.foldl (addReport rt nameOf) s).routes = s.routes ++ pools ∧
            ∀ a b, (∃ x ∈ pools, x.server = a ∧ x.remote = b) ↔ ∃ r ∈ reports, r.server.name = a ∧ b ∈ r.remotes nameOf := by
  induction reports generalizing s with
  | nil => exact ⟨rfl, (List.append_nil _).symm, (List.append_nil _).symm, [], (List.append_nil _).symm, by simp⟩
  | cons r reports ih =>
    obtain ⟨nodes, gateways, leafs, pools, routes, listed⟩ := @addReport_adds rt nameOf s r
    obtain ⟨nodes', gateways', leafs', pools', routes', listed'⟩ := ih (addReport rt nameOf s r)
    rw [List.foldl_cons, List.flatMap_cons, List.flatMap_cons, List.flatMap_cons]
    refine ⟨?_, ?_, ?_, pools ++ pools', ?_, fun a b => ?_⟩
    · rw [nodes', nodes, List.foldl_append]
    · rw [gateways', gateways, List.append_assoc]
    · rw [leafs', leafs, List.append_assoc]
    · rw [routes', routes, List.append_assoc]
    · rw [List.exists_mem_cons_iff, ← listed, ← listed']
      simp only [List.mem_append, or_and_right, exists_or]

end Reports

theorem leafLess_weak : StrictWeak leafLess where
  asymm a b less := by
    unfold leafLess at less ⊢
    grind
  trans a b c ab bc := by
    unfold leafLess at ab bc ⊢
    grind

/-- What a topology tells of the servers that reported. -/
structure Tells (rt : Runtime) (reports : List ServerReport) (t : Topology) : Prop where
  once : (t.nodes.map TopoNode.id).Nodup
  there : ∀ id, id ∈ t.nodes.map TopoNode.id ↔ ∃ m ∈ said rt reports, m.id = id
  cluster : ∀ n ∈ t.nodes, n.cluster = clusterOf (said rt reports) n.id
  server : ∀ n ∈ t.nodes, n.kind = .server ↔ ∃ r ∈ reports, r.server.name = n.id
  routes : ∀ a b, (∃ x ∈ t.routes, x.server = a ∧ x.remote = b) ↔ ∃ r ∈ reports, r.server.name = a ∧ b ∈ r.remotes (namesOf reports)
  gateways : ∀ g, g ∈ t.gateways ↔ ∃ r ∈ reports, g ∈ r.far rt (namesOf reports)
  leafs : ∀ l, l ∈ t.leafs ↔ ∃ r ∈ reports, l ∈ r.hung
  sorted : t.leafs.Pairwise fun a b => leafLess b a = false

theorem buildTopology_tells (rt : Runtime) (reports : List ServerReport) (distinct : (reports.map (·.server.name)).Nodup) :
    Tells rt reports (buildTopology rt reports) := by
  let start : Building := { nodes := reports.foldl (fun nodes r => addNode nodes (serverNode r.server)) ∅ }
  obtain ⟨nodes, gateways, leafs, pools, routes, listed⟩ := @addReports_add rt (namesOf reports) reports start
  have others : ∀ n ∈ reports.flatMap (·.others rt (namesOf reports)), n.kind ≠ .server := by
    intro n member
    obtain ⟨r, -, member⟩ := List.mem_flatMap.mp member
    unfold ServerReport.others at member
    simp only [List.mem_append, List.mem_map] at member
    rcases member with (⟨_, -, rfl⟩ | ⟨_, -, rfl⟩) | ⟨_, -, rfl⟩ <;> exact nofun
  have merged := (merged_servers reports distinct).fold _ others
  change Merged (said rt reports) _ at merged
  change (reports.foldl (addReport rt (namesOf reports)) start).nodes = _ at nodes
  rw [← nodes] at merged
  change (reports.foldl (addReport rt (namesOf reports)) start).gateways = [] ++ _ at gateways
  change (reports.foldl (addReport rt (namesOf reports)) start).leafs = [] ++ _ at leafs
  change (reports.foldl (addReport rt (namesOf reports)) start).routes = [] ++ _ at routes
  unfold buildTopology
  dsimp only
  generalize reports.foldl (addReport rt (namesOf reports)) _ = out at merged gateways leafs routes ⊢
  have mem_nodes {n : TopoNode} : n ∈ rt.sortSlice nodeLess (rt.range out.nodes.values) ↔ ∃ id, out.nodes.lookup id = some n := by
    rw [rt.mem_sortSlice, rt.mem_range, Map.mem_values]
  constructor
  · have perm := (rt.sortSlice_perm nodeLess (rt.range out.nodes.values)).trans (rt.range_perm _)
    refine (perm.map TopoNode.id).nodup_iff.mpr ?_
    rw [merged.ids]
    exact out.nodes.nodupKeys
  · intro id
    rw [List.mem_map, ← merged.there]
    constructor
    · rintro ⟨n, member, rfl⟩
      obtain ⟨id, found⟩ := mem_nodes.mp member
      exact ⟨n, (merged.each found).1.symm ▸ found⟩
    · rintro ⟨n, found⟩
      exact ⟨n, mem_nodes.mpr ⟨id, found⟩, (merged.each found).1⟩
  · intro n member
    obtain ⟨id, found⟩ := mem_nodes.mp member
    obtain ⟨rfl, cluster, -⟩ := merged.each found
    exact cluster
  · intro n member
    obtain ⟨id, found⟩ := mem_nodes.mp member
    obtain ⟨rfl, -, server⟩ := merged.each found
    rw [server, said]
    constructor
    · rintro ⟨m, said, same, itself⟩
      rcases List.mem_append.mp said with own | other
      · obtain ⟨r, there, rfl⟩ := List.mem_map.mp own
        exact ⟨r, there, same⟩
      · exact absurd itself (others m other)
    · rintro ⟨r, there, same⟩
      exact ⟨serverNode r.server, List.mem_append_left _ (List.mem_map_of_mem there), same, rfl⟩
  · intro a b
    simp only [rt.mem_sortSlice, routes, List.nil_append]
    exact listed a b
  · intro g
    rw [(Runtime.insertion_perm gatewayLess out.gateways).mem_iff, gateways, List.nil_append, List.mem_flatMap]
  · intro l
    rw [rt.mem_sortSlice, leafs, List.nil_append, List.mem_flatMap]
  · exact rt.sortSlice_sorted _ leafLess_weak

end topology
end NatsExplorer.Handler
