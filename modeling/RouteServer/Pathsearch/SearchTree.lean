import RouteServer.Graphs.SearchTree
import RouteServer.Pathsearch.Dijkstra

/-!
# All paths from a node

`path_search_tree` runs the search without a goal, until the frontier is empty, and follows
the previous nodes back from each node that has one. The law is that this gives the same
paths as a search for each goal, which stops when it pops its goal: by then the previous
nodes on its path are those of explored nodes, which no later turn changes.
-/

namespace RouteServer.Pathsearch

open Rust Graphs

universe u v

/-- `PathSearchTree`: paths without their first and their last node, by the last. -/
structure PathSearchTree (T : Type u) where
  startNode : T
  paths : List (T × List T)
deriving DecidableEq

namespace Dijkstra

variable {ε T W : Type u} {O : Type v}

section

variable [LinearOrder T]

/-- Following the previous nodes from the end of a path: the nodes met but for the start. -/
def waypoints (previous : AList (fun _ : T => T)) (start : T) :
    Nat → T → Outcome OutOfFuel.{u} (List T)
  | 0, _ => .err .outOfFuel
  | fuel + 1, curTag =>
    match previous.lookup curTag with
    | some prevTag => do
      let rest ← waypoints previous start fuel prevTag
      return if prevTag ≠ start then prevTag :: rest else rest
    | none => .ok []

/-- The paths to nodes that have a previous one. -/
def treePaths (previous : AList (fun _ : T => T)) (start : T) (fuel : Nat) :
    List T → Outcome OutOfFuel.{u} (List (T × List T))
  | [] => .ok []
  | endTag :: rest => do
    let revPath ← waypoints previous start fuel endTag
    let paths ← treePaths previous start fuel rest
    return (endTag, revPath.reverse) :: paths

variable [LinearOrder W] [LinearOrder O] [IntoOrd W O] [Add W] [Zero W]

/-- The loop over the frontier, until it is empty. -/
def exhaust (graph : Dijkstra T W) : Nat → State T W → Outcome OutOfFuel (State T W)
  | 0, _ => .err .outOfFuel
  | fuel + 1, state =>
    match state.frontier.pop with
    | some ((tag, cost), frontier) => do
      let explored := insert tag state.explored
      let next ← graph.visit tag cost { state with explored, frontier }
      exhaust graph fuel next
    | none => .ok state

/-- `path_search_tree`, with a bound on the turns of its loops. -/
def pathSearchTree (graph : Dijkstra T W) (fuel : Nat) (start : T) :
    Outcome OutOfFuel (PathSearchTree T) :=
  if graph.nodes.entries.isEmpty then .ok ⟨start, []⟩
  else do
    let state ← graph.exhaust fuel ⟨∅, Frontier.new.push start 0, ∅⟩
    let paths ← treePaths state.previous start fuel state.previous.keys
    return ⟨start, paths⟩

end

section

variable [LinearOrder T]

/-- The nodes met behind the end of a trace. -/
theorem waypoints_traced {previous : AList (fun _ : T => T)} {start node : T} {behind : List T}
    (traced : Traced previous.lookup start (node :: behind)) {fuel : Nat}
    (enough : behind.length < fuel) :
    waypoints previous start fuel node = .ok (behind.filter (· ≠ start)) := by
  induction behind generalizing node fuel with
  | nil =>
    obtain ⟨fuel, rfl⟩ : ∃ more, fuel = more + 1 := ⟨fuel - 1, by omega⟩
    cases traced with
    | start unlinked => rw [waypoints, unlinked, List.filter_nil]
  | cons last rest inductionHypothesis =>
    obtain ⟨fuel, rfl⟩ : ∃ more, fuel = more + 1 := ⟨fuel - 1, by omega⟩
    cases traced with
    | step traced link =>
      rw [waypoints, link]
      simp only [inductionHypothesis traced (Nat.lt_of_succ_lt_succ enough), Outcome.ok_bind,
        Outcome.pure_def, List.filter_cons, decide_eq_true_eq]

/-- The paths of a tree, if each of them can be followed back. -/
theorem treePaths_eq {previous : AList (fun _ : T => T)} {start : T} {fuel : Nat}
    {path : T → List T} {tags : List T}
    (followed : ∀ tag ∈ tags, waypoints previous start fuel tag = .ok (path tag).reverse) :
    treePaths previous start fuel tags = .ok (tags.map fun tag => (tag, path tag)) := by
  induction tags with
  | nil => rfl
  | cons tag rest inductionHypothesis =>
    obtain ⟨first, others⟩ := List.forall_mem_cons.mp followed
    rw [treePaths, first, Outcome.ok_bind, inductionHypothesis others, Outcome.ok_bind,
      List.reverse_reverse]
    rfl

/-- What a search for a goal leaves, as the search without a goal has it in the end: the
nodes from the goal back, without the start, if the goal has been explored. -/
def Agrees (final : State T W) (start goal : T) (revPath : List T) : Prop :=
  (goal ∉ final.explored → revPath = []) ∧
    (goal ∈ final.explored → ∃ behind, Traced final.previous.lookup start (goal :: behind) ∧
      goal :: behind = revPath ++ [start])

/-- A search that pops its goal agrees with one that goes on. -/
theorem agrees_of_popped {start goal : T} {state final : State T W} {cost : W}
    {edge : T → T → W → Prop} (growing : Growing edge start (fun _ _ _ => False) state.toSearch)
    (waits : (goal, cost) ∈ state.frontier.queue)
    (extension : (state.toSearch.explore goal).Extends final.toSearch) :
    ∃ revPath, Agrees final start goal revPath ∧ ∃ enough, ∀ fuel, enough ≤ fuel →
      backtrack state.previous fuel goal = .ok revPath := by
  obtain ⟨behind, traced, -, inside⟩ := growing.rooted_of_waits waits
  obtain ⟨revPath, split, followed⟩ := backtrack_traced traced
  have within : ∀ node ∈ goal :: behind, node ∈ (state.toSearch.explore goal).explored := by
    rintro node (_ | ⟨_, listed⟩)
    · exact .inl rfl
    · exact .inr (inside node listed)
  have explored : goal ∈ final.explored := extension.explored (.inl rfl)
  exact ⟨revPath, ⟨fun missing => absurd explored missing,
    fun _ => ⟨behind, extension.traced traced within, split⟩⟩, _, followed goal rfl⟩

/-- The nodes between the start and a node that has a link, in the end.

Proof: the trace of the node ends at the start and has no repetition, so it is shorter than
there are explored nodes and the loop ends within that many turns. -/
theorem exists_mids {final : State T W} {start tag last : T} {edge : T → T → W → Prop}
    (growing : Growing edge start (fun _ _ _ => False) final.toSearch)
    (empty : final.frontier.queue = []) (link : final.previous.lookup tag = some last) :
    ∃ mids : List T, Traced final.previous.lookup start (tag :: (mids.reverse ++ [start])) ∧
      ∀ fuel, final.explored.card ≤ fuel →
        waypoints final.previous start fuel tag = .ok mids.reverse := by
  obtain ⟨other, explored⟩ := (growing.link_iff (toSearch_exhausted empty) tag).mp ⟨last, link⟩
  obtain ⟨behind, traced, different, inside⟩ := growing.rooted tag explored
  obtain ⟨front, rfl⟩ : ∃ front, behind = front ++ [start] := by
    have ends := traced.getLast?
    cases behind with
    | nil => exact absurd (Option.some.inj ends) other
    | cons first rest => exact List.getLast?_eq_some_iff.mp ends
  have absent : start ∉ tag :: front := Traced.start_notMem traced
  have apart : start ∉ front := fun listed => absent (List.mem_cons_of_mem tag listed)
  have unfiltered : (front ++ [start]).filter (· ≠ start) = front := by
    rw [List.filter_append, List.filter_eq_self.mpr]
    · simp
    · intro node listed
      exact decide_eq_true fun same => apart (same ▸ listed)
  have short : (front ++ [start]).length < final.explored.card := by
    have all : (tag :: (front ++ [start])).toFinset ⊆ final.explored := by
      intro node listed
      rcases List.mem_cons.mp (List.mem_toFinset.mp listed) with rfl | listed
      · exact explored
      · exact inside node listed
    have bound := Finset.card_le_card all
    rwa [List.toFinset_card_of_nodup different] at bound
  refine ⟨front.reverse, by rwa [List.reverse_reverse], fun fuel enough => ?_⟩
  rw [waypoints_traced traced (short.trans_le enough), unfiltered, List.reverse_reverse]

/-- A node that has been explored, and is not the start, is found with the nodes behind it. -/
theorem Agrees.eq_cons {final : State T W} {start goal : T} {revPath mids : List T}
    (agrees : Agrees final start goal revPath) (explored : goal ∈ final.explored)
    (traced : Traced final.previous.lookup start (goal :: (mids.reverse ++ [start]))) :
    revPath = goal :: mids.reverse := by
  obtain ⟨behind, also, split⟩ := agrees.2 explored
  rw [also.unique traced, ← List.cons_append] at split
  exact (List.append_left_inj [start]).mp split.symm

/-- Nothing else is found. -/
theorem Agrees.eq_nil {final : State T W} {start goal : T} {revPath : List T}
    (agrees : Agrees final start goal revPath) (unlinked : final.previous.lookup start = none)
    (unlisted : ¬(goal ≠ start ∧ goal ∈ final.explored)) : revPath = [] := by
  by_cases explored : goal ∈ final.explored
  · have same : goal = start := Decidable.not_not.mp fun other => unlisted ⟨other, explored⟩
    subst same
    obtain ⟨behind, traced, split⟩ := agrees.2 explored
    rw [traced.unique (.start unlinked)] at split
    exact (List.append_left_inj [goal]).mp split.symm
  · exact agrees.1 explored

variable [LinearOrder W] [LinearOrder O] [IntoOrd W O] [Add W] [Zero W]

/-- A turn of the loop explores one node and keeps what is known of the others.

Proof: the node that was taken off is explored; then the rule of the loop over its neighbours
applies, with the growing search as what is kept. -/
theorem visit_grows (graph : Dijkstra T W) {start tag : T} {cost : W} {state : State T W}
    {frontier : Frontier T W} (wellFormed : state.frontier.WellFormed)
    (growing : Growing graph.Edge start (fun _ _ _ => False) state.toSearch)
    (popped : state.frontier.pop = some ((tag, cost), frontier)) :
    ∃ next, graph.visit (ε := ε) tag cost
        { state with explored := insert tag state.explored, frontier } = .ok next ∧
      next.frontier.WellFormed ∧ next.explored = insert tag state.explored ∧
      Growing graph.Edge start (fun _ _ _ => False) next.toSearch ∧
      (state.toSearch.explore tag).Extends next.toSearch ∧
      ∀ item ∈ next.frontier.queue, item ∈ frontier.queue ∨ item.1 ∈ graph.linked := by
  have restWellFormed := (wellFormed.pop popped).1
  have grown := growing.explore (wellFormed.popped_mem popped)
  rw [← toSearch_explore wellFormed popped] at grown ⊢
  rw [visit]
  cases found : graph.nodes.lookup tag with
  | none =>
    refine ⟨_, rfl, restWellFormed, rfl, grown.discharge ?_, .refl _, fun _ => .inl⟩
    rintro last next weight ⟨links, listed, _⟩ rfl
    cases found.symm.trans listed
  | some links =>
    let Keeps (rest : List (T × W)) (now : State T W) : Prop :=
      now.explored = insert tag state.explored ∧
        (∀ link ∈ rest, graph.Edge tag link.1 link.2) ∧
        Growing graph.Edge start (Leaving tag rest) now.toSearch ∧
        (State.toSearch { state with explored := insert tag state.explored, frontier }).Extends
          now.toSearch ∧
        ∀ item ∈ now.frontier.queue, item ∈ frontier.queue ∨ item.1 ∈ graph.linked
    have known : ∀ link ∈ links, graph.Edge tag link.1 link.2 := fun link listed =>
      ⟨links, found, listed⟩
    have leaving : Growing graph.Edge start (Leaving tag links)
        (State.toSearch { state with explored := insert tag state.explored, frontier }) := by
      refine grown.discharge ?_
      rintro last next weight ⟨own, listed, toNext⟩ rfl
      cases found.symm.trans listed
      exact .inl ⟨rfl, toNext⟩
    refine Exists.imp ?result (visitNeighbors_rule (ε := ε) tag cost Keeps ?skips ?takes ?refuses
      restWellFormed ⟨rfl, known, leaving, .refl _, fun _ => .inl⟩)
    case result =>
      rintro next ⟨visited, nextWellFormed, same, -, nextGrowing, extension, within⟩
      refine ⟨visited, nextWellFormed, same, nextGrowing.discharge ?_, extension, within⟩
      intro last other weight _ remains
      exact absurd remains.2 List.not_mem_nil
    case skips =>
      rintro neighbor weight rest now ⟨same, along, growing, extension, within⟩ done
      exact ⟨same, (List.forall_mem_cons.mp along).2, growing.passed (.inl done), extension, within⟩
    case takes =>
      rintro neighbor weight rest now next ⟨same, along, growing, extension, within⟩ fresh - holds
      obtain ⟨toNeighbor, restKnown⟩ := List.forall_mem_cons.mp along
      have explored : tag ∈ now.explored := by
        rw [same]
        exact Finset.mem_insert_self tag _
      have improved := toSearch_improve now tag neighbor holds
      refine ⟨same, restKnown, ?_, ?_, fun item listed => ?_⟩
      · rw [improved]
        exact growing.improve explored toNeighbor fresh (fun _ _ _ => Leaving.first_or_rest)
      · rw [improved]
        exact extension.trans (now.toSearch.extends_improve fresh tag _)
      · obtain rfl | ⟨_, before⟩ := (holds item).mp listed
        · exact .inr (graph.mem_linked toNeighbor)
        · exact within item before
    case refuses =>
      rintro neighbor weight rest now old ⟨same, along, growing, extension, within⟩ waits -
      exact ⟨same, (List.forall_mem_cons.mp along).2, growing.passed (.inr ⟨old, waits⟩),
        extension, within⟩

/-- The search without a goal ends, with nothing on the frontier, and agrees with the search
for every goal. The induction is on the nodes that are not explored yet. -/
theorem exhaust_agrees (graph : Dijkstra T W) {start : T} {all : Finset T}
    (closed : ∀ tag ∈ graph.linked, tag ∈ all) {state : State T W}
    (wellFormed : state.frontier.WellFormed)
    (growing : Growing graph.Edge start (fun _ _ _ => False) state.toSearch)
    (within : ∀ item ∈ state.frontier.queue, item.1 ∈ all) :
    ∃ final, (∃ enough, ∀ fuel, enough ≤ fuel → graph.exhaust fuel state = .ok final) ∧
      final.frontier.queue = [] ∧
      Growing graph.Edge start (fun _ _ _ => False) final.toSearch ∧
      state.toSearch.Extends final.toSearch ∧
      ∀ goal ∉ state.explored, ∃ revPath, Agrees final start goal revPath ∧
        ∃ enough, ∀ fuel, enough ≤ fuel → graph.search goal fuel state = .ok revPath := by
  induction sized : (all \ state.explored).card using Nat.strong_induction_on
    generalizing state with
  | _ size inductionHypothesis =>
    cases popped : state.frontier.pop with
    | none =>
      have empty := (Frontier.pop_eq_none_iff _).mp popped
      refine ⟨state, ⟨1, ?_⟩, empty, growing, .refl _, fun goal unmet =>
        ⟨[], ⟨fun _ => rfl, fun met => absurd met unmet⟩, 1, ?_⟩⟩
      · rintro (_ | fuel) bound
        · cases bound
        · rw [exhaust, popped]
      · rintro (_ | fuel) bound
        · cases bound
        · rw [search, popped]
    | some found =>
      obtain ⟨⟨tag, cost⟩, frontier⟩ := found
      have waits := wellFormed.popped_mem popped
      obtain ⟨next, visited, nextWellFormed, nextExplored, nextGrowing, kept, nextWithin⟩ :=
        visit_grows (ε := OutOfFuel) graph wellFormed growing popped
      have inside : tag ∈ all \ state.explored :=
        Finset.mem_sdiff.mpr ⟨within _ waits, growing.apart tag cost waits⟩
      have fewer : (all \ next.explored).card < size := by
        rw [nextExplored, ← sized, Finset.sdiff_insert]
        exact Finset.card_erase_lt_of_mem inside
      have stillWithin : ∀ item ∈ next.frontier.queue, item.1 ∈ all := by
        intro item listed
        obtain before | isLinked := nextWithin item listed
        · exact within item ((wellFormed.mem_popped popped item).mp before).2
        · exact closed _ isLinked
      obtain ⟨final, ⟨enough, ends⟩, empty, grown, extension, agrees⟩ :=
        inductionHypothesis _ fewer nextWellFormed nextGrowing stillWithin rfl
      have whole := kept.trans extension
      refine ⟨final, ⟨enough + 1, ?_⟩, empty, grown,
        (state.toSearch.extends_explore tag).trans whole, fun goal unmet => ?_⟩
      · rintro (_ | fuel) bound
        · cases bound
        · rw [exhaust, popped]
          dsimp only
          rw [visited, Outcome.ok_bind]
          exact ends fuel (Nat.le_of_succ_le_succ bound)
      · by_cases met : tag = goal
        · subst met
          obtain ⟨revPath, holds, turns, follows⟩ := agrees_of_popped growing waits whole
          refine ⟨revPath, holds, turns + 1, ?_⟩
          rintro (_ | fuel) bound
          · cases bound
          · rw [search, popped]
            exact (if_pos rfl).trans (follows fuel (Nat.le_of_succ_le_succ bound))
        · have stillUnmet : goal ∉ next.explored := by
            rw [nextExplored, Finset.mem_insert, not_or]
            exact ⟨Ne.symm met, unmet⟩
          obtain ⟨revPath, holds, turns, finds⟩ := agrees goal stillUnmet
          refine ⟨revPath, holds, turns + 1, ?_⟩
          rintro (_ | fuel) bound
          · cases bound
          · rw [search, popped]
            simp only [if_neg met]
            rw [visited, Outcome.ok_bind]
            exact finds fuel (Nat.le_of_succ_le_succ bound)

/-- The links of a graph, without their weights. -/
def Leads (graph : Dijkstra T W) (node next : T) : Prop := ∃ weight, graph.Edge node next weight

/-- The path that a search leaves. -/
theorem path_of_search (graph : Dijkstra T W) (some_node : ¬graph.nodes.entries.isEmpty)
    {fuel : Nat} {start goal : T} {revPath : List T}
    (found : graph.search goal fuel ⟨∅, Frontier.new.push start 0, ∅⟩ = .ok revPath) :
    graph.path fuel start goal =
      .ok (if revPath.isEmpty then [] else (revPath ++ [start]).reverse) := by
  rw [path, reversePath, if_neg some_node, found, Outcome.ok_bind]
  split_ifs with empty
  · rw [List.isEmpty_iff.mp empty]
    rfl
  · rfl

/-- On every graph and from every node the loops of the exhaustive search end. It lists each
node that can be reached, but for the start, once, and with it what the search for that node
alone finds; the nodes that it does not list are those for which that search finds nothing.

Proof: both searches relax the same links until the goal of the second is reached, so the links of
the nodes explored by then are those that the exhaustive search ends with. Walking back along them
gives the same path. -/
theorem pathSearchTree_agrees (graph : Dijkstra T W) (start : T) :
    ∃ tree enough, (∀ fuel, enough ≤ fuel → graph.pathSearchTree fuel start = .ok tree) ∧
      tree.startNode = start ∧ (tree.paths.map Prod.fst).Nodup ∧
      (∀ goal, goal ∈ tree.paths.map Prod.fst ↔
        goal ≠ start ∧ Relation.ReflTransGen graph.Leads start goal) ∧
      ∀ goal, ∃ path turns, (∀ fuel, turns ≤ fuel → graph.path fuel start goal = .ok path) ∧
        (goal ∉ tree.paths.map Prod.fst ↔ path = []) ∧
        ∀ mids, (goal, mids) ∈ tree.paths → path = [start] ++ mids ++ [goal] := by
  by_cases none : graph.nodes.entries.isEmpty
  · refine ⟨⟨start, []⟩, 0, fun fuel _ => if_pos none, rfl, List.nodup_nil, fun goal => ?_,
      fun goal => ⟨[], 0, fun fuel _ => ?_, iff_of_true List.not_mem_nil rfl, ?_⟩⟩
    · refine iff_of_false List.not_mem_nil ?_
      rintro ⟨other, reached⟩
      rcases Relation.ReflTransGen.cases_tail reached with same | ⟨last, -, weight, along⟩
      · exact other same
      · exact no_edge none last goal weight along
    · rw [path, reversePath, if_pos none]
      rfl
    · exact fun mids listed => absurd listed List.not_mem_nil
  · have wellFormed : (Frontier.new.push start (0 : W)).WellFormed :=
      Frontier.wellFormed_new.push List.not_mem_nil 0
    have growing : Growing graph.Edge start (fun _ _ _ => False)
        (State.toSearch ⟨∅, Frontier.new.push start 0, ∅⟩) :=
      toSearch_initial (W := W) start ▸ Growing.initial graph.Edge start 0
    have closed : ∀ tag ∈ graph.linked, tag ∈ insert start graph.linked := fun tag isLinked =>
      Finset.mem_insert_of_mem isLinked
    obtain ⟨final, ⟨enough, ends⟩, empty, grown, -, agrees⟩ :=
      exhaust_agrees graph closed wellFormed growing (initial_within graph start)
    have nothing := toSearch_exhausted empty
    have keyed (tag : T) :
        tag ∈ final.previous.keys ↔ ∃ last, final.previous.lookup tag = some last := by
      rw [← AList.mem_keys, ← AList.lookup_isSome, Option.isSome_iff_exists]
    have each : ∀ tag ∈ final.previous.keys, ∃ mids : List T,
        Traced final.previous.lookup start (tag :: (mids.reverse ++ [start])) ∧
          ∀ fuel, final.explored.card ≤ fuel →
            waypoints final.previous start fuel tag = .ok mids.reverse := by
      intro tag listed
      obtain ⟨last, link⟩ := (keyed tag).mp listed
      exact exists_mids grown empty link
    choose! mids traced followed using each
    have reached (goal : T) : goal ∈ final.previous.keys ↔ goal ≠ start ∧ goal ∈ final.explored :=
      (keyed goal).trans (grown.link_iff nothing goal)
    let tree : PathSearchTree T := ⟨start, final.previous.keys.map fun tag => (tag, mids tag)⟩
    have keys : tree.paths.map Prod.fst = final.previous.keys := by
      rw [List.map_map]
      exact List.map_id _
    refine ⟨tree, max enough final.explored.card, fun fuel bound => ?_, rfl, ?_,
      fun goal => ?_, fun goal => ?_⟩
    · rw [pathSearchTree, if_neg none, ends fuel (by omega), Outcome.ok_bind,
        treePaths_eq fun tag listed => followed tag listed fuel (by omega)]
      rfl
    · rw [keys]
      exact final.previous.keys_nodup
    · rw [keys, reached]
      exact and_congr_right fun _ => grown.explored_iff nothing goal
    · obtain ⟨revPath, agreed, turns, finds⟩ := agrees goal (Finset.notMem_empty goal)
      refine ⟨_, turns, fun fuel bound => path_of_search graph none (finds fuel bound), ?_⟩
      rw [keys]
      by_cases listed : goal ∈ final.previous.keys
      · rw [agreed.eq_cons ((reached goal).mp listed).2 (traced goal listed)]
        refine ⟨iff_of_false (not_not_intro listed) (by simp), fun others found => ?_⟩
        obtain ⟨tag, -, same⟩ := List.mem_map.mp found
        cases same
        simp
      · rw [agreed.eq_nil grown.unlinked (mt (reached goal).mpr listed)]
        refine ⟨iff_of_true listed rfl, fun others found => absurd ?_ listed⟩
        exact keys ▸ List.mem_map_of_mem found

end

end Dijkstra

example : square.pathSearchTree 20 'A' =
    .ok ⟨'A', [('D', ['B', 'C']), ('C', ['B']), ('B', [])]⟩ := by decide

end RouteServer.Pathsearch
