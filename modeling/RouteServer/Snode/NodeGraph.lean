import RouteServer.Pathsearch.Dijkstra
import RouteServer.Snode.Route
import RouteServer.Snode.Sound

/-!
# The graph of nodes

Routes are searched in a graph that is built from the table: a node leads to each of its peers
from which it has links, if the peer is known and has an entry for the node as well. The more
valuable the best of the links, the lower the cost.

The links of a node stay locked while its peers are looked at, and the lock cannot be taken
twice. So a node with links from its own address stops the thread that builds the graph, for
good. Nothing else does.

Costs are doubles, as the values of links are, and are ordered by their bits. A link without
value costs as much as one of value 1e-20; such a cost absorbs the lesser ones that are added
to it. A reciprocal may be infinite, which an assertion of debug builds excludes.
-/

namespace RouteServer.Snode

open Rust Keys Pathsearch Words

/-- Addresses with the same numbers are the same. -/
theorem ip6_numbers_injective :
    Function.Injective (fun ip : Ip6 => ip.bytes.map UInt8.toNat) := by
  intro left right same
  have bytes : left.bytes = right.bytes :=
    List.map_injective_iff.mpr (fun _ _ equal => UInt8.toNat_inj.mp equal) same
  cases left
  cases right
  cases bytes
  rfl

instance : LinearOrder Ip6 :=
  LinearOrder.lift' (fun ip : Ip6 => ip.bytes.map UInt8.toNat) ip6_numbers_injective

/-- `into_ord`, for doubles whose sign is clear. -/
instance : IntoOrd F64 Int := ⟨fun weight => weight.bits⟩

/-- The numbers of weights are in the order of the weights. -/
theorem intoOrd_lt {left right : F64} (less : left < right) :
    (intoOrd left : Int) < intoOrd right :=
  Int.ofNat_lt.mpr (lt_of_not_ge fun more => less.not_ge more)

instance : Graphs.PathCost F64 where
  le_add cost weight _ := F64.le_add cost weight
  add_mono weight less := F64.add_le_add_right less weight

/-- Why a call does not return: a lock is taken twice, or a loop needs more turns than it is
given here. -/
inductive Unreturned where
  | deadlock
  | outOfFuel
deriving DecidableEq

/-- The greatest of the values of some links. -/
def maxValue (first : Link) (rest : List Link) : F64 :=
  rest.foldl (fun value link => max value link.mutState.value) first.mutState.value

/-- The cost of going along the best of some links. -/
def minCost (first : Link) (rest : List Link) : F64 :=
  let maxValue := maxValue first rest
  let maxValue := if maxValue = 0 then F64.ofRat (1 / 10 ^ 20) else maxValue
  maxValue.recip

/-- The body of the loop over the links into a node, all of them locked. -/
def nodeLink (nodes : Nodes) (nip pip : Ip6) :
    List Link → Outcome Unreturned (Option (Ip6 × F64))
  | [] => .ok none
  | first :: rest =>
    match nodes.lookup pip with
    | none => .ok none
    | some reverse =>
      -- the peer is the node itself, and its links are locked already
      if pip = nip then .err .deadlock
      else if (reverse.inwardLinksByIp.lookup nip).isNone then .ok none
      else .ok (some (pip, minCost first rest))

/-- The loop over the links into a node. -/
def nodeLinks (nodes : Nodes) (nip : Ip6) :
    List ((_ : Ip6) × List Link) → Outcome Unreturned (List (Ip6 × F64))
  | [] => .ok []
  | ⟨pip, peerLinks⟩ :: rest => do
    let link ← nodeLink nodes nip pip peerLinks
    let links ← nodeLinks nodes nip rest
    return link.toList ++ links

/-- The loop over the nodes. -/
def addNodes (nodes : Nodes) :
    List ((_ : Ip6) × Node) → Dijkstra Ip6 F64 → Outcome Unreturned (Dijkstra Ip6 F64)
  | [], graph => .ok graph
  | ⟨nip, node⟩ :: rest, graph => do
    let links ← nodeLinks nodes nip node.inwardLinksByIp.entries
    let graph ← graph.addNode nip links
    addNodes nodes rest graph

/-- `build_node_graph`. -/
def buildNodeGraph (nodes : Nodes) : Outcome Unreturned (Dijkstra Ip6 F64) :=
  addNodes nodes nodes.entries Dijkstra.new

/-- A node leads to a peer at a cost. -/
def LeadsTo (nodes : Nodes) (nip pip : Ip6) (cost : F64) : Prop :=
  ∃ node reverse first rest, nodes.lookup nip = some node ∧
    node.inwardLinksByIp.lookup pip = some (first :: rest) ∧ nodes.lookup pip = some reverse ∧
    (reverse.inwardLinksByIp.lookup nip).isSome ∧ cost = minCost first rest

/-- Some node has links from its own address. -/
def SelfPeering (nodes : Nodes) : Prop :=
  ∃ ip node first rest, nodes.lookup ip = some node ∧
    node.inwardLinksByIp.lookup ip = some (first :: rest)

/-- A node that has itself among its peers is locked twice. -/
theorem nodeLink_deadlock_iff (nodes : Nodes) (nip pip : Ip6) (links : List Link) :
    nodeLink nodes nip pip links = .err .deadlock ↔
      links ≠ [] ∧ pip = nip ∧ (nodes.lookup pip).isSome := by
  cases links with
  | nil => simp [nodeLink]
  | cons first rest =>
    rw [nodeLink]
    cases nodes.lookup pip with
    | none => simp
    | some reverse =>
      dsimp only
      split_ifs with own <;> simp [own]

/-- There is a link where each of two different nodes has links from the other, and its cost is the
least of those.

Proof: the branches of the function. -/
theorem nodeLink_some_iff (nodes : Nodes) (nip pip : Ip6) (links : List Link)
    (link : Ip6 × F64) :
    nodeLink nodes nip pip links = .ok (some link) ↔
      pip ≠ nip ∧ ∃ reverse first rest, links = first :: rest ∧ nodes.lookup pip = some reverse ∧
        (reverse.inwardLinksByIp.lookup nip).isSome ∧ link = (pip, minCost first rest) := by
  cases links with
  | nil => simp [nodeLink]
  | cons first rest =>
    rw [nodeLink]
    cases nodes.lookup pip with
    | none => simp
    | some reverse =>
      dsimp only
      split_ifs with own unlinked
      · simp [own]
      · have none : ¬(reverse.inwardLinksByIp.lookup nip).isSome = true := by
          rw [Option.isNone_iff_eq_none.mp unlinked]
          nofun
        simp [none]
      · have linked : (reverse.inwardLinksByIp.lookup nip).isSome = true := by
          rw [Option.isSome_iff_ne_none]
          exact fun none => unlinked (by rw [none]; rfl)
        rw [Outcome.ok.injEq, Option.some.injEq]
        constructor
        · rintro rfl
          exact ⟨own, reverse, first, rest, rfl, rfl, linked, rfl⟩
        · rintro ⟨_, _, _, _, same, _, _, rfl⟩
          cases same
          rfl

/-- The body of the loop returns, or deadlocks. -/
theorem nodeLink_returns (nodes : Nodes) (nip pip : Ip6) (links : List Link) :
    nodeLink nodes nip pip links = .err .deadlock ∨
      ∃ link, nodeLink nodes nip pip links = .ok link := by
  cases links with
  | nil => exact .inr ⟨none, rfl⟩
  | cons first rest =>
    rw [nodeLink]
    cases nodes.lookup pip with
    | none => exact .inr ⟨none, rfl⟩
    | some reverse =>
      dsimp only
      split_ifs
      · exact .inl rfl
      · exact .inr ⟨_, rfl⟩
      · exact .inr ⟨_, rfl⟩

/-- So does the loop: it returns unless a body deadlocks, and then lists what they return. -/
theorem nodeLinks_spec (nodes : Nodes) (nip : Ip6) (entries : List ((_ : Ip6) × List Link)) :
    (nodeLinks nodes nip entries = .err .deadlock ∧
      ∃ entry ∈ entries, nodeLink nodes nip entry.1 entry.2 = .err .deadlock) ∨
    ((∀ entry ∈ entries, nodeLink nodes nip entry.1 entry.2 ≠ .err .deadlock) ∧
      ∃ links, nodeLinks nodes nip entries = .ok links ∧ ∀ link, link ∈ links ↔
        ∃ entry ∈ entries, nodeLink nodes nip entry.1 entry.2 = .ok (some link)) := by
  induction entries with
  | nil => exact .inr ⟨nofun, [], rfl, by simp⟩
  | cons entry rest inductionHypothesis =>
    obtain ⟨pip, peerLinks⟩ := entry
    rw [nodeLinks]
    rcases nodeLink_returns nodes nip pip peerLinks with stops | ⟨link, returns⟩
    · exact .inl ⟨by rw [stops]; rfl, _, List.mem_cons_self, stops⟩
    · rw [returns, Outcome.ok_bind]
      rcases inductionHypothesis with ⟨stops, entry, among, deadlocks⟩ | ⟨others, links, loops, all⟩
      · exact .inl ⟨by rw [stops]; rfl, entry, List.mem_cons_of_mem _ among, deadlocks⟩
      · refine .inr ⟨?_, link.toList ++ links, by rw [loops]; rfl, fun found => ?_⟩
        · refine List.forall_mem_cons.mpr ⟨?_, others⟩
          rw [returns]
          nofun
        · rw [List.mem_append, all, List.exists_mem_cons_iff, returns, Option.mem_toList]
          simp

/-- Whether looking at the links into a node stops, and where it leads otherwise. -/
def Stops (nodes : Nodes) (entry : (_ : Ip6) × Node) : Prop :=
  ∃ link ∈ entry.2.inwardLinksByIp.entries, nodeLink nodes entry.1 link.1 link.2 = .err .deadlock

def Finds (nodes : Nodes) (entry : (_ : Ip6) × Node) (link : Ip6 × F64) : Prop :=
  ∃ links ∈ entry.2.inwardLinksByIp.entries,
    nodeLink nodes entry.1 links.1 links.2 = .ok (some link)

/-- A node that is added leads where its links do, and all others where they did. -/
theorem addNode_ok {ε T W : Type} [LinearOrder T] [LE W] [Zero W] [DecidableLE W]
    (graph : Dijkstra T W) (tag : T) {links : List (T × W)} (nonneg : ∀ link ∈ links, 0 ≤ link.2) :
    ∃ longer, (graph.addNode tag links : Outcome ε (Dijkstra T W)) = .ok longer ∧
      ∀ other next weight, longer.Edge other next weight ↔
        if other = tag then (next, weight) ∈ links else graph.Edge other next weight := by
  rw [Dijkstra.addNode, dif_pos nonneg]
  refine ⟨_, rfl, fun other next weight => ?_⟩
  rw [Dijkstra.Edge]
  split_ifs with same
  · subst same
    simp only [AList.lookup_insert, Option.some.injEq, exists_eq_left']
  · simp only [AList.lookup_insert_ne same, Dijkstra.Edge]

/-- The loop over the nodes stops at a node that stops it. Otherwise it adds what is found.

Proof: induction on the nodes that are left. A node stops the loop, or is added with its links,
which are no links of the others, as addresses are distinct. -/
theorem addNodes_spec (nodes : Nodes) (entries : List ((_ : Ip6) × Node))
    (distinct : (entries.map Sigma.fst).Nodup) (graph : Dijkstra Ip6 F64) :
    (addNodes nodes entries graph = .err .deadlock ∧ ∃ entry ∈ entries, Stops nodes entry) ∨
    ((∀ entry ∈ entries, ¬Stops nodes entry) ∧
      ∃ built, addNodes nodes entries graph = .ok built ∧ ∀ nip pip cost,
        built.Edge nip pip cost ↔
          (∃ node, ⟨nip, node⟩ ∈ entries ∧ Finds nodes ⟨nip, node⟩ (pip, cost)) ∨
            nip ∉ entries.map Sigma.fst ∧ graph.Edge nip pip cost) := by
  induction entries generalizing graph with
  | nil => exact .inr ⟨nofun, graph, rfl, by simp⟩
  | cons entry rest inductionHypothesis =>
    obtain ⟨nip, node⟩ := entry
    obtain ⟨fresh, distinct⟩ := List.nodup_cons.mp distinct
    rw [addNodes]
    rcases nodeLinks_spec nodes nip node.inwardLinksByIp.entries with
      ⟨stops, entry, among, deadlocks⟩ | ⟨goesOn, links, loops, all⟩
    · exact .inl ⟨by rw [stops]; rfl, _, List.mem_cons_self, entry, among, deadlocks⟩
    · obtain ⟨longer, adds, added⟩ := addNode_ok graph nip fun link _ => F64.nonneg link.2
      have unlisted (node : Node) : (⟨nip, node⟩ : (_ : Ip6) × Node) ∉ rest :=
        fun listed => fresh (List.mem_map.mpr ⟨_, listed, rfl⟩)
      rw [loops, Outcome.ok_bind, adds, Outcome.ok_bind]
      rcases inductionHypothesis distinct longer with
        ⟨stops, entry, among, deadlocks⟩ | ⟨goesOn', built, loops', edges⟩
      · exact .inl ⟨stops, entry, List.mem_cons_of_mem _ among, deadlocks⟩
      · refine .inr ⟨List.forall_mem_cons.mpr ⟨?_, goesOn'⟩, built, loops', ?_⟩
        · rintro ⟨entry, among, deadlocks⟩
          exact goesOn entry among deadlocks
        · intro other pip cost
          rw [edges, added]
          by_cases same : other = nip
          · rw [if_pos same, same, all]
            simp [unlisted, fresh, Finds]
          · rw [if_neg same]
            simp [same]

/-- The graph is built exactly when no node has links from its own address, and a node leads to
a peer in it as described.

Proof: the loop over the nodes is run on the empty graph; a node that stops it is one with links
from its own address. -/
theorem buildNodeGraph_spec (nodes : Nodes) :
    (buildNodeGraph nodes = .err .deadlock ∧ SelfPeering nodes) ∨
    (¬SelfPeering nodes ∧ ∃ graph, buildNodeGraph nodes = .ok graph ∧
      ∀ nip pip cost, graph.Edge nip pip cost ↔ LeadsTo nodes nip pip cost) := by
  have entry_iff (ip : Ip6) (node : Node) := HashMap.mem_entries_iff nodes ip node
  have stops_iff : (∃ entry ∈ nodes.entries, Stops nodes entry) ↔ SelfPeering nodes := by
    constructor
    · rintro ⟨⟨ip, node⟩, listed, ⟨pip, links⟩, among, deadlocks⟩
      obtain ⟨nonempty, own, _⟩ := (nodeLink_deadlock_iff _ _ _ _).mp deadlocks
      dsimp only at own
      subst own
      obtain ⟨first, rest, rfl⟩ := List.exists_cons_of_ne_nil nonempty
      exact ⟨pip, node, first, rest, (entry_iff _ _).mp listed,
        (HashMap.mem_entries_iff _ _ _).mp among⟩
    · rintro ⟨ip, node, first, rest, found, own⟩
      refine ⟨⟨ip, node⟩, (entry_iff ip node).mpr found, ⟨ip, first :: rest⟩,
        (HashMap.mem_entries_iff _ _ _).mpr own, (nodeLink_deadlock_iff _ _ _ _).mpr ?_⟩
      exact ⟨List.cons_ne_nil _ _, rfl, by rw [found]; rfl⟩
  rcases addNodes_spec nodes nodes.entries nodes.nodupKeys Dijkstra.new with
    ⟨stops, deadlocks⟩ | ⟨goesOn, graph, built, edges⟩
  · exact .inl ⟨stops, stops_iff.mp deadlocks⟩
  · have noSelf : ¬SelfPeering nodes := by
      rw [← stops_iff]
      rintro ⟨entry, listed, stops⟩
      exact goesOn entry listed stops
    refine .inr ⟨noSelf, graph, built, fun nip pip cost => ?_⟩
    have unlinked : ¬Dijkstra.Edge Dijkstra.new nip pip cost := by
      rintro ⟨links, found, _⟩
      cases found
    rw [edges, or_iff_left (fun both => unlinked both.2)]
    constructor
    · rintro ⟨node, listed, ⟨peer, links⟩, among, returns⟩
      obtain ⟨_, reverse, first, rest, rfl, known, linked, same⟩ :=
        (nodeLink_some_iff _ _ _ _ _).mp returns
      cases same
      exact ⟨node, reverse, first, rest, (entry_iff _ _).mp listed,
        (HashMap.mem_entries_iff _ _ _).mp among, known, linked, rfl⟩
    · rintro ⟨node, reverse, first, rest, found, links, known, linked, rfl⟩
      refine ⟨node, (entry_iff _ _).mpr found, ⟨pip, first :: rest⟩,
        (HashMap.mem_entries_iff _ _ _).mpr links, (nodeLink_some_iff _ _ _ _ _).mpr ?_⟩
      refine ⟨?_, reverse, first, rest, rfl, known, linked, rfl⟩
      rintro rfl
      exact noSelf ⟨pip, node, first, rest, found, links⟩

end RouteServer.Snode
