import RouteServer.Snode.PeerNumbers
import RouteServer.Snode.Routing

/-!
# Nodes among their own peers

While the graph is built, the links of a node stay locked until its peers have been looked at.
Nothing keeps a node from announcing itself as a peer, and then its lock is taken twice. The
thread that wanted a route stops for good, with the state of the server locked.
-/

namespace RouteServer.Snode

open Rust Keys Ann Encoding Pathsearch Words

/-- An announcement that is accepted links its node with itself. -/
def LinksItself (crypto : Crypto) (server : Server) : Event → Prop
  | .announce announce source call => ∃ ann number, readAnnouncement crypto announce = .ok ann ∧
      Accepts call source server ann ∧ GivesLink ann ann.nodeIp number
  | _ => False

/-- A node is not among its own peers. -/
def Unpeered (ip : Ip6) (node : Node) : Prop := ∀ number, ¬Stores node.inwardLinksByIp ip number

/-- Some node has itself among its peers unless none has. -/
theorem selfPeering_iff (nodes : Nodes) :
    SelfPeering nodes ↔ ¬∀ ip node, nodes.lookup ip = some node → Unpeered ip node := by
  constructor
  · rintro ⟨ip, node, first, rest, found, own⟩ unpeered
    refine unpeered ip node found first.peerNum ⟨numbers (first :: rest), ?_, List.mem_cons_self⟩
    rw [numbersOf, own]
    rfl
  · intro peered
    push Not at peered
    obtain ⟨ip, node, found, stores⟩ := peered
    rw [Unpeered] at stores
    push Not at stores
    obtain ⟨number, stored, own, listed⟩ := stores
    obtain ⟨links, lookup, rfl⟩ := Option.map_eq_some_iff.mp own
    cases links with
    | nil => cases listed
    | cons first rest => exact ⟨ip, node, first, rest, found, lookup⟩

/-- A step adds a node to its own peers exactly when its announcement does.

Proof: an accepted announcement decides on the links of its own node only, and other steps keep
the links of all nodes or drop nodes. -/
theorem step_unpeered_iff {crypto : Crypto} {before after : Server} {event : Event}
    (every : EveryNode Unpeered before) (possible : step crypto before event = some after) :
    EveryNode Unpeered after ↔ ¬LinksItself crypto before event := by
  have ofCore : ∀ ip node, Unpeered ip (Node.core node) ↔ Unpeered ip node :=
    fun _ _ => Iff.rfl
  cases step_effect possible with
  | applied announce source call ann node applies becomes =>
    rw [every.becomes_iff ofCore becomes]
    have unlinked (number : UInt16) :
        ¬Stores (startingLinks before ann) ann.nodeIp number := by
      rw [startingLinks]
      split_ifs
      · rintro ⟨stored, found, _⟩
        cases found
      · cases found : before.nodes.lookup ann.nodeIp with
        | none =>
          rintro ⟨stored, found, _⟩
          cases found
        | some node => exact every ann.nodeIp node found number
    have stores_iff (number : UInt16) :
        Stores (updateLinks call.order ann node).inwardLinksByIp ann.nodeIp number ↔
          GivesLink ann ann.nodeIp number := by
      rw [Stores, updateLinks, numbersOf_linkStateUpdate1, ← Stores, stores_applyPeers_iff,
        applies.startingLinks]
      exact or_iff_left fun both => unlinked number both.1
    simp only [Unpeered, stores_iff]
    constructor
    · rintro none ⟨other, number, read, _, gives⟩
      cases Outcome.ok.inj (applies.read.symm.trans read)
      exact none number gives
    · intro none number gives
      exact none ⟨ann, number, applies.read,
        (accepts_iff call source before applies.read).mpr ⟨node, applies⟩, gives⟩
  | cleaned now cleaned =>
    subst cleaned
    exact iff_of_true (every.cleaned now) not_false
  | idle _ nodes anns refused =>
    refine iff_of_true (every.of_same_cores ofCore nodes) ?_
    cases event with
    | announce announce source call =>
      rintro ⟨ann, number, read, accepts, _⟩
      exact refused announce source call ann rfl read accepts
    | keepTableClean => exact not_false
    | connect => exact not_false

/-- A label is computed or refused with an error of its own, and no lock is taken twice. -/
theorem routeAlong_ne_err (nodes : Nodes) (useOldImpl : Bool) (src dst : Ip6) (path : List Ip6)
    (why : Unreturned) : routeAlong nodes useOldImpl src dst path ≠ .err why := by
  rw [routeAlong]
  split_ifs
  · rintro ⟨⟩
  · split <;> rintro ⟨⟩

/-- A route is computed without a deadlock, once the graph is there. -/
theorem computeRoute_ne_deadlock (nodes : Nodes) (graph : Dijkstra Ip6 F64) (fuel : Nat)
    (src dst : Node) (useOldImpl : Bool) :
    computeRoute nodes graph fuel src dst useOldImpl ≠ .err .deadlock := by
  rw [computeRoute]
  intro deadlocks
  rcases (Outcome.bind_err_iff _ _ _).mp deadlocks with searching | ⟨path, _, labelling⟩
  · cases found : graph.reversePath fuel dst.ipv6 src.ipv6 with
    | ok path => simp [found, Outcome.mapErr] at searching
    | err fault => simp [found, Outcome.mapErr] at searching
    | panicked => simp [found, Outcome.mapErr] at searching
  · exact routeAlong_ne_err _ _ _ _ _ _ labelling

/-- Only building the graph can take a lock twice. -/
theorem build_of_deadlock {nodes : Nodes} {fuel : Nat} {now : Int} {useOldImpl : Bool}
    {src dst : Option Node} {routing : Routing}
    (deadlocks : getRoute nodes fuel now useOldImpl src dst routing = .err .deadlock) :
    buildNodeGraph nodes = .err .deadlock := by
  cases src with
  | none => cases deadlocks
  | some src =>
    cases dst with
    | none => cases deadlocks
    | some dst =>
      rw [getRoute] at deadlocks
      split_ifs at deadlocks
      rcases (Outcome.bind_err_iff _ _ _).mp deadlocks with building | ⟨routing, _, computing⟩
      · rw [refresh] at building
        split_ifs at building
        rcases (Outcome.bind_err_iff _ _ _).mp building with building | ⟨graph, _, impossible⟩
        · exact building
        · cases impossible
      · dsimp only at computing
        split at computing
        · cases computing
        · split at computing
          · cases computing
          · rcases (Outcome.bind_err_iff _ _ _).mp computing with computing | ⟨route, _, impossible⟩
            · exact absurd computing (computeRoute_ne_deadlock _ _ _ _ _ _)
            · cases impossible

/-- A call with a stale graph that is not answered at once builds the graph. -/
theorem deadlock_of_build {nodes : Nodes} (deadlocks : buildNodeGraph nodes = .err .deadlock)
    {src dst : Node} (unlike : src.eq dst = false) {now : Int} {routing : Routing}
    (stale : routing.Stale now) (fuel : Nat) (useOldImpl : Bool) :
    getRoute nodes fuel now useOldImpl (some src) (some dst) routing = .err .deadlock := by
  rw [getRoute, if_neg (by simp [unlike]), getRouteImpl, refresh_stale stale, deadlocks]
  rfl

/-- **In a run no call for a route ever deadlocks exactly when no announcement that is accepted
links its node with itself.**

Proof: the graph cannot be built exactly when some node has itself among its peers, and that comes
into a table only by an announcement that links its node with itself. -/
theorem calls_never_deadlock_iff (crypto : Crypto) (events : List Event) :
    (∀ state, (routeServer crypto).Reached events state →
      ∀ fuel now useOldImpl src dst routing,
        getRoute state.nodes fuel now useOldImpl src dst routing ≠ .err .deadlock) ↔
      ∀ state event next, (routeServer crypto).Taken events state event next →
        ¬LinksItself crypto state event := by
  have run_iff := Machine.System.always_iff (routeServer crypto) events (fun _ => True)
    (EveryNode Unpeered) (fun state event => ¬LinksItself crypto state event) trivial
    (fun _ _ found => absurd found (by simp [routeServer, Server.new]))
    (fun _ _ _ _ _ _ _ => trivial)
    (fun _ _ _ _ _ every possible => step_unpeered_iff every possible)
  rw [← run_iff]
  refine forall₂_congr fun state reached => ?_
  have spec := buildNodeGraph_spec state.nodes
  constructor
  · intro never
    by_contra peered
    have selfPeering := (selfPeering_iff state.nodes).mpr peered
    rcases spec with ⟨deadlocks, _⟩ | ⟨apart, _⟩
    · obtain ⟨ip, node, first, rest, found, own⟩ := selfPeering
      have unlike : node.eq { node with version := node.version + 1 } = false := by
        simp [Node.eq]
      exact never 0 0 false (some node) _ (Routing.new 0)
        (deadlock_of_build deadlocks unlike (.inr rfl) 0 false)
    · exact apart selfPeering
  · intro unpeered fuel now useOldImpl src dst routing deadlocks
    rcases spec with ⟨_, selfPeering⟩ | ⟨_, graph, built, _⟩
    · exact (selfPeering_iff state.nodes).mp selfPeering unpeered
    · cases built.symm.trans (build_of_deadlock deadlocks)

/-- The other neighbour announces itself as a peer, and a call for a route deadlocks. -/
theorem call_of_neighbours_deadlocks : ∃ server src dst,
    (routeServer Sample.neighbourCrypto).Reached
      (Sample.neighbours ++ [.announce Sample.southItself .gossip ⟨0, .ofEntries⟩]) server ∧
      server.nodes.lookup Sample.north = some src ∧ server.nodes.lookup Sample.south = some dst ∧
      ∀ fuel, getRoute server.nodes fuel 0 false (some src) (some dst) (Routing.new 0) =
        .err .deadlock := by
  obtain ⟨server, reached, passes⟩ := (routeServer Sample.neighbourCrypto).exists_reached_of_any
    (Sample.neighbours ++ [.announce Sample.southItself .gossip ⟨0, .ofEntries⟩])
    (fun server => (server.nodes.lookup Sample.north).isSome &&
      (server.nodes.lookup Sample.south).any fun south =>
        (south.inwardLinksByIp.lookup Sample.south).any (fun links => !links.isEmpty))
    (by decide +kernel)
  obtain ⟨knownSrc, passes⟩ := (Bool.and_eq_true _ _).mp passes
  obtain ⟨src, fromSrc⟩ := Option.isSome_iff_exists.mp knownSrc
  obtain ⟨dst, toDst, passes⟩ := (Option.any_eq_true _ _).mp passes
  obtain ⟨links, own, nonempty⟩ := (Option.any_eq_true _ _).mp passes
  refine ⟨server, src, dst, reached, fromSrc, toDst, fun fuel => ?_⟩
  have sound := sound_of_reached reached
  have unlike : src.eq dst ≠ true :=
    mt (Node.eq_iff_ip sound fromSrc toDst).mp (by decide : Sample.north ≠ Sample.south)
  refine deadlock_of_build ?_ (Bool.eq_false_iff.mpr unlike) (.inr rfl) fuel false
  cases links with
  | nil => cases nonempty
  | cons first rest =>
    have selfPeering : SelfPeering server.nodes := ⟨_, dst, first, rest, toDst, own⟩
    rcases buildNodeGraph_spec server.nodes with ⟨deadlocks, _⟩ | ⟨apart, _⟩
    · exact deadlocks
    · exact absurd selfPeering apart

end RouteServer.Snode
