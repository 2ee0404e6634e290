import RouteServer.Snode.NodeGraph

/-!
# Routes between nodes

A route is computed along a path of the graph. The graph is built when there is none, or when
the last one is older than three seconds; until it is built anew, routes that were computed are
answered again. On a graph that was just built, the path is a cheapest one, and no node or link
that the labels need is missing.

Costs are sums of floating-point numbers, so that a large one absorbs small ones. The sums are
formed from the destination on, and of these the least is found.
-/

namespace RouteServer.Snode

open Rust Keys Ann Encoding Labels Splice Pathsearch Words

/-- `RoutingError`. -/
inductive RouteError where
  | noInput
  | pathIsEmpty (src dst : Ip6)
  | labels (error : RoutingError)
deriving DecidableEq

/-- `Routing`. -/
structure Routing where
  lastRebuild : Int
  routeCache : AList (fun _ : Ip6 × Ip6 => Option Route)
  dijkstra : Option (Dijkstra Ip6 F64)

/-- `Routing::new`. -/
def Routing.new (now : Int) : Routing := ⟨now, ∅, none⟩

/-- `REBUILD_INTERVAL`. -/
def rebuildInterval : Int := seconds 3

/-- `PartialEq` of nodes. -/
def Node.eq (node other : Node) : Bool :=
  node.nodeType = other.nodeType ∧ node.version = other.version ∧ node.key = other.key ∧
    node.ipv6 = other.ipv6 ∧ node.encodingScheme = other.encodingScheme

/-- The route along a path, if there is one. -/
def routeAlong (nodes : Nodes) (useOldImpl : Bool) (src dst : Ip6) (path : List Ip6) :
    Outcome Unreturned (Except RouteError Route) :=
  if path.isEmpty then .ok (.error (.pathIsEmpty src dst))
  else
    match computeRoutingLabel nodes path useOldImpl with
    | .ok (label, hops) => .ok (.ok { label, hops, path })
    | .err error => .ok (.error (.labels error))
    | .panicked => .panicked

/-- `compute_route`. -/
def computeRoute (nodes : Nodes) (graph : Dijkstra Ip6 F64) (fuel : Nat) (src dst : Node)
    (useOldImpl : Bool) : Outcome Unreturned (Except RouteError Route) := do
  let path ← Outcome.mapErr (fun _ => .outOfFuel) (graph.reversePath fuel dst.ipv6 src.ipv6)
  routeAlong nodes useOldImpl src.ipv6 dst.ipv6 path

/-- Whether the graph is to be built anew. -/
def Routing.Stale (now : Int) (routing : Routing) : Prop :=
  routing.lastRebuild + rebuildInterval < now ∨ routing.dijkstra = none

instance (now : Int) (routing : Routing) : Decidable (routing.Stale now) :=
  inferInstanceAs (Decidable (_ < _ ∨ _))

/-- The first part of `get_route_impl`, up to there being a graph. -/
def refresh (nodes : Nodes) (now : Int) (routing : Routing) : Outcome Unreturned Routing :=
  if routing.Stale now then do
    let graph ← buildNodeGraph nodes
    return ⟨now, ∅, some graph⟩
  else .ok routing

/-- `get_route_impl`, with the state it leaves. -/
def getRouteImpl (nodes : Nodes) (fuel : Nat) (now : Int) (src dst : Node) (useOldImpl : Bool)
    (routing : Routing) : Outcome Unreturned (Routing × Except RouteError Route) := do
  let routing ← refresh nodes now routing
  let cacheKey := (dst.ipv6, src.ipv6)
  match routing.routeCache.lookup cacheKey with
  | some (some cachedEntry) => return (routing, .ok cachedEntry)
  | _ =>
    match routing.dijkstra with
    | none => .panicked
    | some graph => do
      let route ← computeRoute nodes graph fuel src dst useOldImpl
      return ({ routing with
        routeCache := routing.routeCache.insert cacheKey route.toOption }, route)

/-- `get_route`. -/
def getRoute (nodes : Nodes) (fuel : Nat) (now : Int) (useOldImpl : Bool) (src dst : Option Node)
    (routing : Routing) : Outcome Unreturned (Routing × Except RouteError Route) :=
  match src, dst with
  | some src, some dst =>
    if src.eq dst then .ok (routing, .ok Route.identity)
    else getRouteImpl nodes fuel now src dst useOldImpl routing
  | _, _ => .ok (routing, .error .noInput)

/-- A node and the one before it on a route have links from each other. -/
def Linked (last node : Node) : Prop :=
  (firstLink node last.ipv6).isSome ∧ (firstLink last node.ipv6).isSome

/-- A link of the graph is one of the table, in both directions. -/
theorem LeadsTo.linked {nodes : Nodes}
    (sound : ∀ ip node, nodes.lookup ip = some node → Sound ip node) {nip pip : Ip6} {cost : F64}
    (leads : LeadsTo nodes nip pip cost) :
    ∃ node last, nodes.lookup nip = some node ∧ nodes.lookup pip = some last ∧
      Linked last node := by
  obtain ⟨node, last, first, rest, found, links, known, linked, _⟩ := leads
  have soundNode := sound nip node found
  have soundLast := sound pip last known
  refine ⟨node, last, found, known, ?_, ?_⟩
  · rw [firstLink, soundLast.ownIp, links]
    rfl
  · obtain ⟨stored, back⟩ := Option.isSome_iff_exists.mp linked
    obtain ⟨nonempty, _⟩ := soundLast.tidy nip (numbers stored) (by rw [numbersOf, back]; rfl)
    rw [firstLink, soundNode.ownIp, back]
    cases stored with
    | nil => exact absurd rfl nonempty
    | cons first rest => rfl

/-- The nodes of a route in the graph are known and linked one after another. -/
theorem visits_of_route {nodes : Nodes}
    (sound : ∀ ip node, nodes.lookup ip = some node → Sound ip node) {start : Ip6} {origin : Node}
    (known : nodes.lookup start = some origin) {path : List Ip6} {cost : F64}
    (route : Graphs.Route (LeadsTo nodes) start path cost) :
    ∃ visited, Visits nodes path visited ∧ visited.IsChain Linked := by
  induction route with
  | start => exact ⟨[origin], .cons known .nil, .singleton origin⟩
  | step _ along inductionHypothesis =>
    obtain ⟨visited, visits, chain⟩ := inductionHypothesis
    obtain ⟨node, last, found, next, linked⟩ := along.linked sound
    cases visits with
    | cons here rest =>
      cases here.symm.trans found
      exact ⟨_, .cons next (.cons here rest), .cons_cons linked chain⟩

/-- An error that names a missing node or missing links. -/
def RoutingError.Misses (error : RoutingError) : Prop :=
  (∃ ip, error = .noNodeByIp ip) ∨ ∃ name ip, error = .noInwardLinksByIp name ip

/-- A call that does not miss anything. -/
def Complete {α : Type} (outcome : Outcome RoutingError α) : Prop :=
  ∀ error, outcome = .err error → ¬error.Misses

/-- What is there is not missed. -/
theorem Complete.ok {α : Type} (value : α) : Complete (.ok value) := nofun

/-- A sequence of which no part misses anything misses nothing. -/
theorem Complete.bind {α β : Type} {first : Outcome RoutingError α}
    {next : α → Outcome RoutingError β} (complete : Complete first)
    (continues : ∀ value, Complete (next value)) : Complete (first >>= next) := by
  intro error fails
  rcases (Outcome.bind_err_iff _ _ _).mp fails with fails | ⟨value, _, fails⟩
  · exact complete error fails
  · exact continues value error fails

/-- Errors of another kind miss nothing. -/
theorem Complete.mapErr {α ε : Type} {rename : ε → RoutingError}
    (renames : ∀ fault, ¬(rename fault).Misses) (outcome : Outcome ε α) :
    Complete (Outcome.mapErr rename outcome) := by
  intro error fails
  cases outcome with
  | ok value => cases fails
  | err fault =>
    cases fails
    exact renames fault
  | panicked => cases fails

/-- Making a label misses nothing. -/
theorem labelOf_complete (width bits : Nat) : Complete (labelOf width bits) := by
  rw [labelOf]
  cases labelOfWord width bits with
  | some label => exact .ok label
  | none =>
    rintro _ ⟨⟩
    simp [RoutingError.Misses]

/-- Recognizing a form misses nothing. -/
theorem formNumber_complete (label : RoutingLabel 64) (scheme : EncodingScheme) :
    Complete (formNumber label scheme) :=
  (Complete.mapErr (by simp [RoutingError.Misses]) _).bind fun _ => .ok _

/-- Writing a label in another form misses nothing. -/
theorem raiseForm_complete (label : RoutingLabel 64) (scheme : EncodingScheme)
    (curFormNum formNum : Nat) : Complete (raiseForm label scheme curFormNum formNum) := by
  rw [raiseForm]
  split
  · exact Complete.mapErr (by simp [RoutingError.Misses]) _
  · exact .ok label

/-- Between linked nodes the older computation finds its label. -/
theorem oldHop_complete {last node : Node} (linked : Linked last node) (formNum : Nat) :
    Complete (oldHop last node formNum) := by
  obtain ⟨link, found⟩ := Option.isSome_iff_exists.mp linked.1
  rw [oldHop, found]
  refine (labelOf_complete _ _).bind fun label => ?_
  refine (formNumber_complete _ _).bind fun curFormNum => ?_
  exact (raiseForm_complete _ _ _ _).bind fun _ => .ok _

/-- Between linked nodes the newer computation finds its labels. -/
theorem newHop_complete {last node : Node} (linked : Linked last node) (formNum : Nat) :
    Complete (newHop last node formNum) := by
  obtain ⟨gretaOpinionLink, found⟩ := Option.isSome_iff_exists.mp linked.1
  obtain ⟨yuryOpinionLink, back⟩ := Option.isSome_iff_exists.mp linked.2
  rw [newHop, found, back]
  refine (labelOf_complete _ _).bind fun labelYg32 => (labelOf_complete _ _).bind fun labelYg =>
    (labelOf_complete _ _).bind fun labelGy => (formNumber_complete _ _).bind fun curFormNumYg =>
      (formNumber_complete _ _).bind fun curFormNumGy => ?_
  exact (raiseForm_complete _ _ _ _).bind fun _ => .ok _

/-- Along linked nodes no hop is missed, by induction on the path. -/
theorem hopsAlong_complete {hopOf : Node → Node → Nat → Outcome RoutingError (Hop × Nat)}
    (each : ∀ last node formNum, Linked last node → Complete (hopOf last node formNum))
    {last : Node} {path : List Node} (chain : (last :: path).IsChain Linked) (formNum : Nat) :
    Complete (hopsAlong hopOf formNum last path) := by
  induction path generalizing last formNum with
  | nil => exact .ok []
  | cons node path inductionHypothesis =>
    obtain ⟨linked, chain⟩ := List.isChain_cons_cons.mp chain
    rw [hopsAlong]
    refine (each last node formNum linked).bind fun hop => ?_
    exact (inductionHypothesis chain hop.2).bind fun _ => .ok _

/-- On a route of the graph no node and no links are missing. -/
theorem computeRoutingLabel_complete {nodes : Nodes} {path : List Ip6} {visited : List Node}
    (visits : Visits nodes path visited) (chain : visited.IsChain Linked) (useOldImpl : Bool) :
    Complete (computeRoutingLabel nodes path useOldImpl) := by
  have each (last node : Node) (formNum : Nat) (linked : Linked last node) :
      Complete ((if useOldImpl then oldHop else newHop) last node formNum) := by
    cases useOldImpl with
    | true => exact oldHop_complete linked formNum
    | false => exact newHop_complete linked formNum
  rw [computeRoutingLabel]
  refine Complete.bind ?_ fun hops => ?_
  · cases visited with
    | nil =>
      cases visits
      exact .ok []
    | cons first rest =>
      rw [routeLoop_none visits]
      exact hopsAlong_complete each chain 0
  · exact (Complete.mapErr (by simp [RoutingError.Misses]) _).bind fun _ => .ok _

/-! ## Paths of the graph -/

/-- A path to the destination, and none is cheaper. -/
structure CheapestPath (nodes : Nodes) (src dst : Ip6) (path : List Ip6) : Prop where
  begins : path.head? = some src
  ends : path.getLast? = some dst
  distinct : path.Nodup
  cheapest : ∃ cost, Graphs.Route (LeadsTo nodes) dst path cost ∧
    ∀ behind other, Graphs.Route (LeadsTo nodes) dst (src :: behind) other → cost ≤ other

/-- The path that a route is computed along: a cheapest one, or none if there is none. -/
def PathOf (nodes : Nodes) (src dst : Ip6) (path : List Ip6) : Prop :=
  path = [] ∧ (∀ behind cost, ¬Graphs.Route (LeadsTo nodes) dst (src :: behind) cost) ∨
    CheapestPath nodes src dst path

/-- A route that was computed along such a path goes along it, and there is one. -/
theorem PathOf.of_routeAlong {drawn nodes : Nodes} {src dst : Ip6} {path : List Ip6}
    (pathOf : PathOf drawn src dst path) {useOldImpl : Bool} {route : Route}
    (along : routeAlong nodes useOldImpl src dst path = .ok (.ok route)) :
    route.path = path ∧ CheapestPath drawn src dst path := by
  rcases pathOf with ⟨rfl, _⟩ | cheapest
  · cases along
  · refine ⟨?_, cheapest⟩
    rw [routeAlong] at along
    split_ifs at along
    · cases along
    · split at along
      · cases along
        rfl
      · cases along
      · cases along

/-- The graph shows where the nodes of a table lead. -/
def Draws (nodes : Nodes) (graph : Dijkstra Ip6 F64) : Prop :=
  ∀ nip pip cost, graph.Edge nip pip cost ↔ LeadsTo nodes nip pip cost

/-- Routes are computed along such paths of the table that the graph was drawn from. -/
theorem computeRoute_spec {drawn : Nodes} {graph : Dijkstra Ip6 F64} (draws : Draws drawn graph)
    {src dst : Node} (different : src.ipv6 ≠ dst.ipv6) :
    ∃ path enough, PathOf drawn src.ipv6 dst.ipv6 path ∧
      ∀ nodes useOldImpl fuel, enough ≤ fuel → computeRoute nodes graph fuel src dst useOldImpl =
        routeAlong nodes useOldImpl src.ipv6 dst.ipv6 path := by
  have edges : graph.Edge = LeadsTo drawn := by
    funext nip pip cost
    exact propext (draws nip pip cost)
  obtain ⟨path, enough, returns, empty_iff, otherwise⟩ :=
    Dijkstra.reversePath_finds (fun _ _ => intoOrd_lt) graph different.symm
  rw [edges] at empty_iff otherwise
  refine ⟨path, enough, ?_, fun nodes useOldImpl fuel bound => ?_⟩
  · by_cases empty : path = []
    · exact .inl ⟨empty, empty_iff.mp empty⟩
    · obtain ⟨begins, ends, distinct, cheapest⟩ := otherwise empty
      exact .inr ⟨begins, ends, distinct, cheapest⟩
  · rw [computeRoute, (returns fuel bound).1]
    rfl

/-- More fuel does not change a route that was computed. -/
theorem computeRoute_further {nodes : Nodes} {graph : Dijkstra Ip6 F64} {fuel more : Nat}
    {src dst : Node} {useOldImpl : Bool} {route : Except RouteError Route}
    (computes : computeRoute nodes graph fuel src dst useOldImpl = .ok route)
    (bound : fuel ≤ more) : computeRoute nodes graph more src dst useOldImpl = .ok route := by
  rw [computeRoute] at computes ⊢
  obtain ⟨path, found, along⟩ := (Outcome.bind_ok_iff _ _ _).mp computes
  have searched := Dijkstra.reversePath_further ((Outcome.mapErr_ok_iff _ _ _).mp found) bound
  rw [searched]
  exact along

/-- So is a route that was computed in some number of turns. -/
theorem computeRoute_ok {drawn : Nodes} {graph : Dijkstra Ip6 F64} (draws : Draws drawn graph)
    {src dst : Node} (different : src.ipv6 ≠ dst.ipv6) {nodes : Nodes} {fuel : Nat}
    {useOldImpl : Bool} {route : Except RouteError Route}
    (computes : computeRoute nodes graph fuel src dst useOldImpl = .ok route) :
    ∃ path, PathOf drawn src.ipv6 dst.ipv6 path ∧
      routeAlong nodes useOldImpl src.ipv6 dst.ipv6 path = .ok route := by
  obtain ⟨path, enough, pathOf, along⟩ := computeRoute_spec draws different
  refine ⟨path, pathOf, ?_⟩
  rw [← along nodes useOldImpl (max fuel enough) (le_max_right _ _)]
  exact computeRoute_further computes (le_max_left _ _)

/-- Nodes are compared by their addresses. -/
theorem Node.eq_iff_ip {nodes : Nodes}
    (sound : ∀ ip node, nodes.lookup ip = some node → Sound ip node) {srcIp dstIp : Ip6}
    {src dst : Node} (fromSrc : nodes.lookup srcIp = some src)
    (toDst : nodes.lookup dstIp = some dst) : src.eq dst = true ↔ srcIp = dstIp := by
  rw [Node.eq, decide_eq_true_iff, (sound srcIp src fromSrc).ownIp, (sound dstIp dst toDst).ownIp]
  constructor
  · exact fun same => same.2.2.2.1
  · rintro rfl
    cases fromSrc.symm.trans toDst
    exact ⟨rfl, rfl, rfl, rfl, rfl⟩

/-- Where the graph is too old it is built anew and no route is kept. -/
theorem refresh_stale {nodes : Nodes} {now : Int} {routing : Routing} (stale : routing.Stale now) :
    refresh nodes now routing = do
      let graph ← buildNodeGraph nodes
      return ⟨now, ∅, some graph⟩ := by
  rw [refresh, if_pos stale]

/-- **A route that is requested with a stale graph is computed along a cheapest path of the
table**, by the sums that the search forms from the destination on, and misses nothing on its way;
or else there is no path at all. The table is the same from the first node of the graph to the
last label.

Proof: the graph has a link for each pair of nodes that are linked in both directions, at the cost
of its best link. The search finds a cheapest path of it, and along linked nodes every hop of the
label is found. -/
theorem fresh_route_is_cheapest {crypto : Crypto} {events : List Event} {server : Server}
    (reached : (routeServer crypto).Reached events server) (apart : ¬SelfPeering server.nodes)
    {srcIp dstIp : Ip6} {src dst : Node} (fromSrc : server.nodes.lookup srcIp = some src)
    (toDst : server.nodes.lookup dstIp = some dst) (different : srcIp ≠ dstIp)
    {routing : Routing} {now : Int} (stale : routing.Stale now) (useOldImpl : Bool) :
    ∃ path enough, PathOf server.nodes srcIp dstIp path ∧
      Complete (computeRoutingLabel server.nodes path useOldImpl) ∧
      ∀ fuel, enough ≤ fuel →
        Prod.snd <$> getRoute server.nodes fuel now useOldImpl (some src) (some dst) routing =
          routeAlong server.nodes useOldImpl srcIp dstIp path := by
  have sound := sound_of_reached reached
  rcases buildNodeGraph_spec server.nodes with ⟨_, selfPeering⟩ | ⟨_, graph, built, draws⟩
  · exact absurd selfPeering apart
  · have ownIps : src.ipv6 = srcIp ∧ dst.ipv6 = dstIp :=
      ⟨(sound _ _ fromSrc).ownIp, (sound _ _ toDst).ownIp⟩
    have apartIps : src.ipv6 ≠ dst.ipv6 := by rwa [ownIps.1, ownIps.2]
    obtain ⟨path, enough, pathOf, computes⟩ := computeRoute_spec draws apartIps
    rw [ownIps.1, ownIps.2] at pathOf computes
    refine ⟨path, enough, pathOf, ?_, fun fuel bound => ?_⟩
    · rcases pathOf with ⟨rfl, _⟩ | ⟨_, _, _, cost, route, _⟩
      · exact computeRoutingLabel_complete .nil .nil useOldImpl
      · obtain ⟨visited, visits, chain⟩ := visits_of_route sound toDst route
        exact computeRoutingLabel_complete visits chain useOldImpl
    · have unlike : src.eq dst ≠ true := mt (Node.eq_iff_ip sound fromSrc toDst).mp different
      rw [getRoute, if_neg unlike, getRouteImpl, refresh_stale stale, built]
      simp only [Outcome.ok_bind, Outcome.pure_def, AList.lookup_empty,
        computes server.nodes useOldImpl fuel bound, Outcome.map_def]
      cases routeAlong server.nodes useOldImpl srcIp dstIp path <;> rfl

/-! ## Two neighbours -/

namespace Sample

open Ann.Sample (bytesOf length_bytesOf halves)

/-- The key under which one of the neighbours signs, and the same key as an encryption key. -/
def northSigns : List UInt8 :=
  bytesOf 32 0xb1e8df8984114cc78c434a7d2b91473af145fff296508aacd40baf55eebb771e

def northKey : PublicKey :=
  ⟨bytesOf 32 0x433e34acb5d2ba928d8be1c9506068aaf27e99f53be7a8dab775d526201a7c52,
    length_bytesOf 32 _⟩

def north : Ip6 := ⟨bytesOf 16 0xfc605398af8fd715c1b1def5ca5e14c6, by decide +kernel⟩

/-- The keys of the other. -/
def southSigns : List UInt8 :=
  bytesOf 32 0x05a9741bd9626c1aec81abfe61b414ddcaa7387307b291b5a73d5b0b2647de73

def southKey : PublicKey :=
  ⟨bytesOf 32 0xec6db4570c0b59afdd34c4c13cd10d416af8a962e37d6257d005e8a5a2208872,
    length_bytesOf 32 _⟩

def south : Ip6 := ⟨bytesOf 16 0xfc3a602a2e12f63597a0e42a5b5628a1, by decide +kernel⟩

/-- A packet of a neighbour. -/
def signed (signature : Bytes 64) (key : List UInt8) (stamp : Nat) (entities : List UInt8) :
    List UInt8 :=
  signature.bytes ++ key ++ bytesOf 16 0xfc00000000000000000000000000dead ++
    bytesOf 8 stamp ++ entities

/-- A reset of the one, with the other for a peer. -/
def northReset : List UInt8 :=
  signed (halves
      0x5e92f3f098a50dcc079fb92cd97a6de658adfc0f7f82892f49a8059adf59a721
      0xce5ec173257f4d9297a60bb973806e03371ec98702bcdc996e0111584c5ad701)
    northSigns 0x174876e80009
    (bytesOf 11 0x0700611445810004020014 ++
      bytesOf 32 0x200100010000001300000000fc3a602a2e12f63597a0e42a5b5628a100000013)

/-- A reset of the other, with the one for a peer. -/
def southReset : List UInt8 :=
  signed (halves
      0x81f1d64d63245a668d0a18bbd129819a5ec2d8211275b58215825f09550b5ebc
      0x8cf93f20c6c4f0115234900b9d2983da48d807a389f5ec0c3e10e1b55c73b600)
    southSigns 0x174876e80009
    (bytesOf 11 0x0700611445810004020014 ++
      bytesOf 32 0x200100010000001300000000fc605398af8fd715c1b1def5ca5e14c600000013)

/-- A second later: the other is a peer of itself. -/
def southItself : List UInt8 :=
  signed (halves
      0x626ab975544a79cd91287974ff69bb9707d4410189bb4698ffa02128489ee183
      0x87d3ffc0eccf7a1264f7498d4423ca9eb324bc035aa36b82583f34236bee7e07)
    southSigns 0x174876e83e81
    (bytesOf 32 0x200100010000001500000000fc3a602a2e12f63597a0e42a5b5628a100000015)

def southState : Digest :=
  halves
    0x96907d8e3f62936efe6fe9b51b886b626d1c2d1d94a23ef44572504401b820e9
    0x94402609ab9705c0cb5e1e159c31c5f120a483b1d3677a8ab294a582b8835182

/-- The hashes that are taken when the packets are handled. -/
def neighbourHashes : List (List UInt8 × Digest) := [
  (northKey.bytes, halves
      0x82961e0b09efc0e73d60d0eac471ae0073d8569f11914441e5ce2dac1e6a3566
      0x23d00307554cc51a6a0f95c3ecce3c1754fc035e11f869063bff92dbd300a09b),
  ((halves
      0x82961e0b09efc0e73d60d0eac471ae0073d8569f11914441e5ce2dac1e6a3566
      0x23d00307554cc51a6a0f95c3ecce3c1754fc035e11f869063bff92dbd300a09b).bytes, halves
      0xfc605398af8fd715c1b1def5ca5e14c6d946b8983e0cded2fe4e75d1ace8885b
      0xace40208be36d203f046303c65513bbe784b2ecd50b3f032a72a8cf18c104160),
  (southKey.bytes, halves
      0x329f927823930f7e2e0058167b164a007aaaa35df519af82341fd0ae130da75a
      0x29035e4fd1524a2730c3c63d6b2b47200350862da8b190327499a430521c3f6f),
  ((halves
      0x329f927823930f7e2e0058167b164a007aaaa35df519af82341fd0ae130da75a
      0x29035e4fd1524a2730c3c63d6b2b47200350862da8b190327499a430521c3f6f).bytes, halves
      0xfc3a602a2e12f63597a0e42a5b5628a188c9c5b3c65ce2c6ac4b222a8e0eeedf
      0x8e66bcbd04f5686ab7c293aec73edb02198b9cae4a3db0078ab307ef4057f78c),
  (northReset, halves
      0xbc0ce54c6d45b409678f009513ef145de244f91107349050cc85169f194b1f4f
      0xf00ffc5de767ebbe4e306ad89226ccbc2eba205c2a347848b7d030f32a73fb45),
  (southReset, halves
      0x3395a23b631d6c1d135c25f03e5be9f305725ad5db89393a008a862f45775e3f
      0x1e06a8b7f61710e5284158c60695ef8a29b0a2933f7eef644052e58390ba06ba),
  (southItself, halves
      0x7d272b6712f2ad8c08171be27cd61d3ff3cedbb64c3eef3a533d7e7f94f97d36
      0xe0927f968765eaf57485299728236b51f4dcaa0e5c9a890df3707467ef94766a),
  (List.replicate 64 0 ++ northReset, halves
      0xc0837d62de240f062068e8b218c80ae952ace37a325b83a0ce250bc2a84c1c99
      0xd23f4e7d50b28e40684babd67bd1cbc6d7c43af9361fb82f19b1ebbb5939f079),
  (List.replicate 64 0 ++ southReset, southState),
  (southState.bytes ++ southItself, halves
      0x4e109daa128ca8ed7033097bfba0804864081b654ce452a3d8cd3c472027d622
      0x0aa70e601829977739aee12cb1f6ecb3ca12d88f658047a6867072e6961d283d)]

/-- The cryptographic library, as far as their packets need it. -/
def neighbourCrypto : Crypto where
  sha512 := fun bytes => match neighbourHashes.find? (fun entry => entry.1 = bytes) with
    | some entry => entry.2
    | none => halves 0 0
  isSignature := fun signature => (signature.bytes.getLast?.getD 0).toNat < 32
  verifyDetached := fun signature signed key => (key.bytes = northSigns ∨ key.bytes = southSigns) ∧
    [northReset, southReset, southItself].any (· = signature.bytes ++ signed)
  pkToCurve25519 := fun key =>
    if key.bytes = northSigns then some northKey
    else if key.bytes = southSigns then some southKey
    else none

/-- Both announce themselves. -/
def neighbours : List Event :=
  [.announce northReset .gossip ⟨0, .ofEntries⟩, .announce southReset .gossip ⟨0, .ofEntries⟩]

end Sample

/-- A route is computed from one neighbour to the other. -/
theorem fresh_route_of_neighbours : ∃ server src dst,
    (routeServer Sample.neighbourCrypto).Reached Sample.neighbours server ∧
      server.nodes.lookup Sample.north = some src ∧ server.nodes.lookup Sample.south = some dst ∧
      ∃ path enough, PathOf server.nodes Sample.north Sample.south path ∧
        Complete (computeRoutingLabel server.nodes path false) ∧
        ∀ fuel, enough ≤ fuel →
          Prod.snd <$> getRoute server.nodes fuel 0 false (some src) (some dst) (Routing.new 0) =
            routeAlong server.nodes false Sample.north Sample.south path := by
  obtain ⟨server, reached, passes⟩ := (routeServer Sample.neighbourCrypto).exists_reached_of_any
    Sample.neighbours (fun server => (server.nodes.lookup Sample.north).isSome &&
      (server.nodes.lookup Sample.south).isSome && (buildNodeGraph server.nodes).toOption.isSome)
    (by decide +kernel)
  obtain ⟨known, builds⟩ := (Bool.and_eq_true _ _).mp passes
  obtain ⟨⟨src, fromSrc⟩, ⟨dst, toDst⟩⟩ := (Bool.and_eq_true _ _).mp known |>.imp
    Option.isSome_iff_exists.mp Option.isSome_iff_exists.mp
  refine ⟨server, src, dst, reached, fromSrc, toDst, ?_⟩
  refine fresh_route_is_cheapest reached ?_ fromSrc toDst (by decide) (.inr rfl) false
  rcases buildNodeGraph_spec server.nodes with ⟨stops, _⟩ | ⟨apart, _⟩
  · rw [stops] at builds
    cases builds
  · exact apart

end RouteServer.Snode
