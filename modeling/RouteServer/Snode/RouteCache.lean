import RouteServer.Machine.Histories
import RouteServer.Snode.Routing

/-!
# Answers from a cache

Between requests for routes the table changes, while the graph and the routes that were computed
along it are kept for some time. So an answer may be computed with one table along a path of an
earlier one, and be given when the table has changed again. How old it can be is bounded: the
path is a cheapest one of a table not more than three seconds ago.

Announcements, cleanings and requests are handled one after the other here. The server takes the
lock of the table anew for every node, so an announcement may also come in between while a graph
is built: of such a graph nothing is said.
-/

namespace RouteServer.Snode

open Rust Keys Ann Encoding Pathsearch Words

/-- A server that answers requests for routes, and the time of the last one. -/
structure Router where
  server : Server
  routing : Routing
  clock : Int

/-- What happens to it. A request is given enough turns for its loops. -/
inductive RouterEvent where
  | table (event : Event)
  | request (now : Int) (src dst : Ip6) (fuel : Nat)

/-- What happens to the table. -/
def RouterEvent.toTable : RouterEvent → List Event
  | .table event => [event]
  | .request _ _ _ _ => []

/-- The answer to a request. -/
def Router.answer (useOldImpl : Bool) (router : Router) (now : Int) (src dst : Ip6) (fuel : Nat) :
    Outcome Unreturned (Routing × Except RouteError Route) :=
  let nodes := router.server.nodes
  getRoute nodes fuel now useOldImpl (nodes.lookup src) (nodes.lookup dst) router.routing

/-- What a request leaves of the graph and the routes, if it ends. A panic leaves what there was
when the graph had been built. -/
def Router.leaves (useOldImpl : Bool) (router : Router) (now : Int) (src dst : Ip6) (fuel : Nat) :
    Option Routing :=
  match router.answer useOldImpl now src dst fuel with
  | .ok (routing, _) => some routing
  | .panicked => (refresh router.server.nodes now router.routing).toOption
  | .err _ => none

/-- The clock does not go back. -/
def routerStep (crypto : Crypto) (useOldImpl : Bool) (router : Router) : RouterEvent → Option Router
  | .table event =>
    (step crypto router.server event).map fun server => { router with server }
  | .request now src dst fuel =>
    if now < router.clock then none
    else
      (router.leaves useOldImpl now src dst fuel).map fun routing =>
        { router with routing, clock := now }

/-- A router as a machine. -/
def router (crypto : Crypto) (useOldImpl : Bool) : Machine.System Router RouterEvent where
  initial := ⟨Server.new, Routing.new 0, 0⟩
  step := routerStep crypto useOldImpl

/-- The table was such when a route was requested. -/
def Requested (crypto : Crypto) (useOldImpl : Bool) (events : List RouterEvent) (time : Int)
    (nodes : Nodes) : Prop :=
  ∃ before src dst fuel after state, events = before ++ .request time src dst fuel :: after ∧
    (router crypto useOldImpl).run (router crypto useOldImpl).initial before = some state ∧
    state.server.nodes = nodes

/-- A route that was computed at a time along a path of a table drawn before. -/
structure Computed (crypto : Crypto) (useOldImpl : Bool) (events : List RouterEvent)
    (drawnAt : Int) (drawn : Nodes) (latest : Int) (src dst : Ip6) (route : Route) : Prop where
  path : CheapestPath drawn src dst route.path
  label : ∃ computedAt nodes, Requested crypto useOldImpl events computedAt nodes ∧
    drawnAt ≤ computedAt ∧ computedAt ≤ latest ∧
    routeAlong nodes useOldImpl src dst route.path = .ok (.ok route)

/-- What is kept of the requests so far. -/
structure Kept (crypto : Crypto) (useOldImpl : Bool) (events : List RouterEvent)
    (routing : Routing) (latest : Int) (graph : Dijkstra Ip6 F64) (drawn : Nodes) : Prop where
  requested : Requested crypto useOldImpl events routing.lastRebuild drawn
  draws : Draws drawn graph
  earlier : routing.lastRebuild ≤ latest
  cached : ∀ src dst route, routing.routeCache.lookup (dst, src) = some (some route) →
    Computed crypto useOldImpl events routing.lastRebuild drawn latest src dst route

section

variable {crypto : Crypto} {useOldImpl : Bool} {events : List RouterEvent}

/-- A request that was made stays so as the run goes on. -/
theorem Requested.later {time : Int} {nodes : Nodes}
    (requested : Requested crypto useOldImpl events time nodes) (event : RouterEvent) :
    Requested crypto useOldImpl (events ++ [event]) time nodes := by
  obtain ⟨before, src, dst, fuel, after, state, rfl, ran, same⟩ := requested
  exact ⟨before, src, dst, fuel, after ++ [event], state, by simp, ran, same⟩

/-- A route that was computed stays so as time goes on. -/
theorem Computed.later {drawnAt latest now : Int} {drawn : Nodes} {src dst : Ip6} {route : Route}
    (computed : Computed crypto useOldImpl events drawnAt drawn latest src dst route)
    (event : RouterEvent) (bound : latest ≤ now) :
    Computed crypto useOldImpl (events ++ [event]) drawnAt drawn now src dst route := by
  obtain ⟨computedAt, nodes, requested, after, before, label⟩ := computed.label
  exact ⟨computed.path, computedAt, nodes, requested.later event, after, before.trans bound, label⟩

/-- What the router keeps is kept for the same reasons in the next step. -/
theorem Kept.later {routing : Routing} {latest now : Int} {graph : Dijkstra Ip6 F64}
    {drawn : Nodes} (kept : Kept crypto useOldImpl events routing latest graph drawn)
    (event : RouterEvent) (bound : latest ≤ now) :
    Kept crypto useOldImpl (events ++ [event]) routing now graph drawn where
  requested := kept.requested.later event
  draws := kept.draws
  earlier := kept.earlier.trans bound
  cached src dst route found := (kept.cached src dst route found).later event bound

/-- The request that is being made. -/
theorem requested_now {state : Router}
    (ran : (router crypto useOldImpl).run (router crypto useOldImpl).initial events = some state)
    (now : Int) (src dst : Ip6) (fuel : Nat) :
    Requested crypto useOldImpl (events ++ [.request now src dst fuel]) now state.server.nodes :=
  ⟨events, src, dst, fuel, [], state, rfl, ran, rfl⟩

/-- The tables of a router are those of a route server. -/
theorem Router.sound {state : Router}
    (ran : (router crypto useOldImpl).run (router crypto useOldImpl).initial events = some state) :
    EveryNode Sound state.server := by
  have each (before : Router) (event : RouterEvent) (next : Router)
      (possible : (router crypto useOldImpl).step before event = some next) :
      (routeServer crypto).run before.server event.toTable = some next.server := by
    cases event with
    | table event =>
      obtain ⟨server, stepped, rfl⟩ := Option.map_eq_some_iff.mp possible
      exact (Machine.System.run_singleton (routeServer crypto) before.server event).trans stepped
    | request now src dst fuel =>
      change (if now < before.clock then none else _) = some next at possible
      split_ifs at possible
      obtain ⟨routing, _, rfl⟩ := Option.map_eq_some_iff.mp possible
      rfl
  have reached : (routeServer crypto).Reached _ state.server :=
    Machine.System.reached_of_run (Machine.System.run_part each ran)
  exact sound_of_reached reached

/-- What a router keeps, if it has a graph. -/
def Keeps (crypto : Crypto) (useOldImpl : Bool) (events : List RouterEvent) (routing : Routing)
    (latest : Int) : Prop :=
  ∀ graph, routing.dijkstra = some graph →
    ∃ drawn, Kept crypto useOldImpl events routing latest graph drawn

/-- When there is a graph, it is not older than three seconds. -/
theorem refresh_kept {state : Router}
    (ran : (router crypto useOldImpl).run (router crypto useOldImpl).initial events = some state)
    (keeps : Keeps crypto useOldImpl events state.routing state.clock) {now : Int}
    (bound : state.clock ≤ now) (src dst : Ip6) (fuel : Nat) {refreshed : Routing}
    (refreshes : refresh state.server.nodes now state.routing = .ok refreshed) :
    ∃ graph drawn, refreshed.dijkstra = some graph ∧ now ≤ refreshed.lastRebuild + rebuildInterval ∧
      Kept crypto useOldImpl (events ++ [.request now src dst fuel]) refreshed now graph drawn := by
  by_cases stale : state.routing.Stale now
  · rw [refresh_stale stale] at refreshes
    rcases buildNodeGraph_spec state.server.nodes with
      ⟨stops, _⟩ | ⟨_, graph, built, draws⟩
    · rw [stops] at refreshes
      cases refreshes
    · rw [built] at refreshes
      cases refreshes
      refine ⟨graph, state.server.nodes, rfl, ?_, requested_now ran now src dst fuel, draws, le_rfl,
        fun src dst route found => ?_⟩
      · exact le_add_of_nonneg_right (by decide)
      · cases found
  · rw [refresh, if_neg stale] at refreshes
    cases refreshes
    obtain ⟨recent, drawn⟩ := not_or.mp stale
    obtain ⟨graph, drawn⟩ := Option.ne_none_iff_exists'.mp drawn
    obtain ⟨nodes, kept⟩ := keeps graph drawn
    exact ⟨graph, nodes, drawn, not_lt.mp recent, kept.later _ bound⟩

/-- A route that is answered is one of those that are kept.

Proof: the graph is refreshed first; then the route is found among those that are kept, or it is
computed in this graph and kept from now on. -/
theorem getRouteImpl_kept {state : Router}
    (ran : (router crypto useOldImpl).run (router crypto useOldImpl).initial events = some state)
    (keeps : Keeps crypto useOldImpl events state.routing state.clock) {now : Int}
    (bound : state.clock ≤ now) {srcIp dstIp : Ip6} (different : srcIp ≠ dstIp) {src dst : Node}
    (fromSrc : state.server.nodes.lookup srcIp = some src)
    (toDst : state.server.nodes.lookup dstIp = some dst) {fuel : Nat} {routing : Routing}
    {result : Except RouteError Route}
    (answers : getRouteImpl state.server.nodes fuel now src dst useOldImpl state.routing =
      .ok (routing, result)) :
    ∃ graph drawn, routing.dijkstra = some graph ∧ now ≤ routing.lastRebuild + rebuildInterval ∧
      Kept crypto useOldImpl (events ++ [.request now srcIp dstIp fuel]) routing now graph drawn ∧
      ∀ route, result = .ok route →
        Computed crypto useOldImpl (events ++ [.request now srcIp dstIp fuel]) routing.lastRebuild
          drawn now srcIp dstIp route := by
  have sound := Router.sound ran
  have srcOwn := (sound srcIp src fromSrc).ownIp
  have dstOwn := (sound dstIp dst toDst).ownIp
  rw [getRouteImpl, dstOwn, srcOwn] at answers
  obtain ⟨refreshed, refreshes, answers⟩ := (Outcome.bind_ok_iff _ _ _).mp answers
  obtain ⟨graph, drawn, hasGraph, recent, kept⟩ :=
    refresh_kept ran keeps bound srcIp dstIp fuel refreshes
  dsimp only at answers
  split at answers
  · next cachedEntry cached =>
    cases answers
    refine ⟨graph, drawn, hasGraph, recent, kept, fun route same => ?_⟩
    cases same
    exact kept.cached srcIp dstIp _ cached
  · rw [hasGraph] at answers
    obtain ⟨route, computes, stored⟩ := (Outcome.bind_ok_iff _ _ _).mp answers
    cases stored
    have apart : src.ipv6 ≠ dst.ipv6 := by rwa [srcOwn, dstOwn]
    obtain ⟨path, pathOf, along⟩ := computeRoute_ok kept.draws apart computes
    rw [srcOwn, dstOwn] at pathOf along
    have computed (found : Route) (same : result = .ok found) :
        Computed crypto useOldImpl (events ++ [.request now srcIp dstIp fuel])
          refreshed.lastRebuild drawn now srcIp dstIp found := by
      subst same
      obtain ⟨rfl, cheapest⟩ := pathOf.of_routeAlong along
      exact ⟨cheapest, now, _, requested_now ran now srcIp dstIp fuel, kept.earlier, le_rfl, along⟩
    refine ⟨graph, drawn, rfl, recent, ⟨kept.requested, kept.draws, kept.earlier, ?_⟩, computed⟩
    intro other goal found lookup
    by_cases same : (goal, other) = (dstIp, srcIp)
    · cases same
      rw [AList.lookup_insert] at lookup
      cases result with
      | error => cases lookup
      | ok route =>
        cases lookup
        exact computed _ rfl
    · rw [AList.lookup_insert_ne same] at lookup
      exact kept.cached other goal found lookup

/-- A request that is not answered at once is for a route between two nodes of the table.

Proof: the early returns of the request: a node is missing, or both are the same. -/
theorem answer_cases {state : Router}
    (ran : (router crypto useOldImpl).run (router crypto useOldImpl).initial events = some state)
    {now : Int} {srcIp dstIp : Ip6} {fuel : Nat} {routing : Routing}
    {result : Except RouteError Route}
    (answers : state.answer useOldImpl now srcIp dstIp fuel = .ok (routing, result)) :
    (routing = state.routing ∧
      (result = .ok Route.identity ∧ srcIp = dstIp ∨ result = .error .noInput)) ∨
    ∃ src dst, state.server.nodes.lookup srcIp = some src ∧
      state.server.nodes.lookup dstIp = some dst ∧ srcIp ≠ dstIp ∧
      getRouteImpl state.server.nodes fuel now src dst useOldImpl state.routing =
        .ok (routing, result) := by
  dsimp only [Router.answer] at answers
  cases fromSrc : state.server.nodes.lookup srcIp with
  | none =>
    rw [fromSrc] at answers
    cases answers
    exact .inl ⟨rfl, .inr rfl⟩
  | some src =>
    cases toDst : state.server.nodes.lookup dstIp with
    | none =>
      rw [fromSrc, toDst] at answers
      cases answers
      exact .inl ⟨rfl, .inr rfl⟩
    | some dst =>
      have same_iff := Node.eq_iff_ip (Router.sound ran) fromSrc toDst
      rw [fromSrc, toDst, getRoute] at answers
      split_ifs at answers with same
      · cases answers
        exact .inl ⟨rfl, .inl ⟨rfl, same_iff.mp same⟩⟩
      · exact .inr ⟨src, dst, rfl, rfl, mt same_iff.mpr same, answers⟩

/-- What is kept when a request has been answered, one way or another.

Proof: a request that is answered may refresh the graph and keep one more route; one that stops
may have refreshed it. -/
theorem leaves_keeps {state : Router}
    (ran : (router crypto useOldImpl).run (router crypto useOldImpl).initial events = some state)
    (keeps : Keeps crypto useOldImpl events state.routing state.clock) {now : Int}
    (bound : state.clock ≤ now) {src dst : Ip6} {fuel : Nat} {routing : Routing}
    (leaves : state.leaves useOldImpl now src dst fuel = some routing) :
    Keeps crypto useOldImpl (events ++ [.request now src dst fuel]) routing now := by
  have later :
      Keeps crypto useOldImpl (events ++ [.request now src dst fuel]) state.routing now := by
    intro graph hasGraph
    obtain ⟨drawn, kept⟩ := keeps graph hasGraph
    exact ⟨drawn, kept.later _ bound⟩
  rw [Router.leaves] at leaves
  split at leaves
  · next found result answers =>
    cases leaves
    rcases answer_cases ran answers with ⟨rfl, _⟩ | ⟨src', dst', fromSrc, toDst, different, answers⟩
    · exact later
    · obtain ⟨graph, drawn, hasGraph, _, kept, _⟩ :=
        getRouteImpl_kept ran keeps bound different fromSrc toDst answers
      intro other same
      cases hasGraph.symm.trans same
      exact ⟨drawn, kept⟩
  · cases refreshes : refresh state.server.nodes now state.routing with
    | ok refreshed =>
      rw [refreshes] at leaves
      cases leaves
      obtain ⟨graph, drawn, hasGraph, _, kept⟩ :=
        refresh_kept ran keeps bound src dst fuel refreshes
      intro other same
      cases hasGraph.symm.trans same
      exact ⟨drawn, kept⟩
    | err why =>
      rw [refreshes] at leaves
      cases leaves
    | panicked =>
      rw [refreshes] at leaves
      cases leaves
  · cases leaves

/-- In every run a router keeps no more than what was requested and computed. -/
theorem keeps_of_run {last : Router}
    (ran : (router crypto useOldImpl).run (router crypto useOldImpl).initial events = some last) :
    Keeps crypto useOldImpl events last.routing last.clock := by
  refine Machine.System.run_history
    (fun events state => Keeps crypto useOldImpl events state.routing state.clock) ?_ ?_ ran
  · intro graph hasGraph
    cases hasGraph
  · intro before state event next reached keeps possible
    cases event with
    | table event =>
      obtain ⟨server, stepped, rfl⟩ := Option.map_eq_some_iff.mp possible
      intro graph hasGraph
      obtain ⟨drawn, kept⟩ := keeps graph hasGraph
      exact ⟨drawn, kept.later _ le_rfl⟩
    | request now src dst fuel =>
      change (if now < state.clock then none else _) = some next at possible
      split_ifs at possible with goesBack
      obtain ⟨routing, leaves, rfl⟩ := Option.map_eq_some_iff.mp possible
      exact leaves_keeps reached keeps (not_lt.mp goesBack) leaves

/-- **A route that is answered goes along a cheapest path of a table not more than three seconds
ago**, and was computed with a table since then, whatever else has happened.

Proof: what the router keeps is kept for a reason that is part of the run: the graph was drawn
from the table of a request, and each route was computed with one since then. -/
theorem answers_are_recent {state : Router}
    (ran : (router crypto useOldImpl).run (router crypto useOldImpl).initial events = some state)
    {now : Int} (bound : state.clock ≤ now) {src dst : Ip6} (different : src ≠ dst) {fuel : Nat}
    {routing : Routing} {route : Route}
    (answers : state.answer useOldImpl now src dst fuel = .ok (routing, .ok route)) :
    ∃ drawnAt drawn,
      Requested crypto useOldImpl (events ++ [.request now src dst fuel]) drawnAt drawn ∧
        drawnAt ≤ now ∧ now ≤ drawnAt + rebuildInterval ∧
        Computed crypto useOldImpl (events ++ [.request now src dst fuel]) drawnAt drawn now src dst
          route := by
  rcases answer_cases ran answers with ⟨_, ⟨_, same⟩ | impossible⟩ |
    ⟨srcNode, dstNode, fromSrc, toDst, different, answers⟩
  · exact absurd same different
  · cases impossible
  · obtain ⟨graph, drawn, _, recent, kept, computed⟩ :=
      getRouteImpl_kept ran (keeps_of_run ran) bound different fromSrc toDst answers
    exact ⟨routing.lastRebuild, drawn, kept.requested, kept.earlier, recent, computed route rfl⟩

end

/-- Both neighbours announce themselves, and a route from one to the other is requested. -/
def neighboursRequest : List RouterEvent :=
  Sample.neighbours.map .table ++ [.request (seconds 1) Sample.north Sample.south 20]

/-- A second later the route is requested again. -/
theorem answer_of_neighbours_is_recent : ∃ state,
    (router Sample.neighbourCrypto false).run (router Sample.neighbourCrypto false).initial
        neighboursRequest = some state ∧
      state.clock ≤ seconds 2 ∧ Sample.north ≠ Sample.south ∧ ∃ routing route,
        state.answer false (seconds 2) Sample.north Sample.south 20 = .ok (routing, .ok route) ∧
        ∃ drawnAt drawn,
          Requested Sample.neighbourCrypto false
              (neighboursRequest ++ [.request (seconds 2) Sample.north Sample.south 20])
              drawnAt drawn ∧
            drawnAt ≤ seconds 2 ∧ seconds 2 ≤ drawnAt + rebuildInterval ∧
            Computed Sample.neighbourCrypto false
              (neighboursRequest ++ [.request (seconds 2) Sample.north Sample.south 20])
              drawnAt drawn (seconds 2) Sample.north Sample.south route := by
  have passes : ((router Sample.neighbourCrypto false).run
      (router Sample.neighbourCrypto false).initial neighboursRequest).any (fun state =>
        state.clock ≤ seconds 2 &&
          (state.answer false (seconds 2) Sample.north Sample.south 20).toOption.any
            (fun answer => answer.2.toOption.isSome)) = true := by decide +kernel
  obtain ⟨state, ran, passes⟩ := (Option.any_eq_true _ _).mp passes
  obtain ⟨bound, answered⟩ := (Bool.and_eq_true _ _).mp passes
  obtain ⟨⟨routing, result⟩, answers, isRoute⟩ := Outcome.exists_ok_of_any _ _ answered
  have clock := of_decide_eq_true bound
  have different : Sample.north ≠ Sample.south := by decide
  cases result with
  | error => cases isRoute
  | ok route =>
    exact ⟨state, ran, clock, different, routing, route, answers,
      answers_are_recent ran clock different answers⟩

end RouteServer.Snode
