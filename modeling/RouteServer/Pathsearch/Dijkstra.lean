import Mathlib.Algebra.GroupWithZero.Nat
import Mathlib.Algebra.Order.Group.Nat
import Mathlib.Data.Char
import Mathlib.Data.Finset.Card
import Mathlib.Data.Finset.Insert
import RouteServer.Graphs.ShortestRoute
import RouteServer.Pathsearch.Frontier

/-!
# Dijkstra path search

A graph maps each node to its neighbours with the weights of the links, none of them
negative. The search pops the cheapest node of the frontier, marks it explored and
offers its unexplored neighbours to the frontier; the map of previous nodes keeps
where the best cost of each came from. When the wanted node is popped, its previous
nodes are followed back to the start.

Neighbours need not be in the map, and the start need not be either. The law is that
both loops end, and that the list they leave is empty exactly when no route leads to
the wanted node, and otherwise a cheapest route, without a node twice.
-/

namespace RouteServer.Pathsearch

open Rust Graphs

universe u v

/-- `Dijkstra`: the links of each node, none of a negative weight. -/
structure Dijkstra (T W : Type u) [LinearOrder T] [LE W] [Zero W] where
  nodes : AList (fun _ : T => List (T × W))
  nonnegative : ∀ tag links, nodes.lookup tag = some links → ∀ link ∈ links, 0 ≤ link.2

namespace Dijkstra

variable {ε T W : Type u} {O : Type v}

section

variable [LinearOrder T] [LE W] [Zero W]

/-- `Dijkstra::new`. -/
def new : Dijkstra T W := ⟨∅, by simp⟩

/-- `add_node`: a negative weight is refused by an assertion. -/
def addNode [DecidableLE W] (graph : Dijkstra T W) (nodeTag : T) (links : List (T × W)) :
    Outcome ε (Dijkstra T W) :=
  if valid : ∀ link ∈ links, 0 ≤ link.2 then
    .ok ⟨graph.nodes.insert nodeTag links, by
      intro tag other found
      by_cases same : tag = nodeTag
      · subst same
        rw [AList.lookup_insert] at found
        cases found
        exact valid
      · rw [AList.lookup_insert_ne same] at found
        exact graph.nonnegative tag other found⟩
  else .panicked

/-- The links of a graph. -/
def Edge (graph : Dijkstra T W) (node next : T) (weight : W) : Prop :=
  ∃ links, graph.nodes.lookup node = some links ∧ (next, weight) ∈ links

/-- No edge of a graph has a negative weight. -/
theorem edge_nonneg (graph : Dijkstra T W) (node next : T) (weight : W)
    (along : graph.Edge node next weight) : 0 ≤ weight := by
  obtain ⟨links, found, listed⟩ := along
  exact graph.nonnegative node links found _ listed

/-- A graph without nodes has no edges. -/
theorem no_edge {graph : Dijkstra T W} (empty : graph.nodes.entries.isEmpty) (node next : T)
    (weight : W) : ¬ graph.Edge node next weight := by
  rintro ⟨links, found, _⟩
  have listed := (HashMap.mem_entries_iff graph.nodes node links).mpr found
  rw [List.isEmpty_iff.mp empty] at listed
  cases listed

end

/-- The variables of the search. -/
structure State (T W : Type u) where
  explored : Finset T
  frontier : Frontier T W
  previous : AList (fun _ : T => T)

section

variable [LinearOrder T]

/-- Following the previous nodes, as far as there are any. -/
def backtrack (previous : AList (fun _ : T => T)) : Nat → T → Outcome OutOfFuel (List T)
  | 0, _ => .err .outOfFuel
  | fuel + 1, tag =>
    match previous.lookup tag with
    | some prevTag => do
      let rest ← backtrack previous fuel prevTag
      return tag :: rest
    | none => .ok []

variable [LinearOrder W] [LinearOrder O] [IntoOrd W O] [Add W]

/-- The loop over the neighbours of a node that was reached at a cost. -/
def visitNeighbors (tag : T) (cost : W) : List (T × W) → State T W → Outcome ε (State T W)
  | [], state => .ok state
  | (neighbor, weight) :: rest, state =>
    if neighbor ∈ state.explored then visitNeighbors tag cost rest state
    else do
      let (updated, frontier) ←
        state.frontier.tryInsertOrDecreaseCost neighbor (cost + weight)
      let previous :=
        if updated then state.previous.insert neighbor tag else state.previous
      visitNeighbors tag cost rest { state with frontier, previous }

variable [Zero W]

/-- Looking at the neighbours of a node, if it is in the graph. -/
def visit (graph : Dijkstra T W) (tag : T) (cost : W) (state : State T W) :
    Outcome ε (State T W) :=
  match graph.nodes.lookup tag with
  | some neighbors => visitNeighbors tag cost neighbors state
  | none => .ok state

/-- The loop over the frontier: the nodes from the wanted one back, without the start. -/
def search (graph : Dijkstra T W) (goal : T) : Nat → State T W → Outcome OutOfFuel (List T)
  | 0, _ => .err .outOfFuel
  | fuel + 1, state =>
    match state.frontier.pop with
    | some ((tag, cost), frontier) =>
      if tag = goal then backtrack state.previous fuel tag
      else do
        let explored := insert tag state.explored
        let next ← graph.visit tag cost { state with explored, frontier }
        search graph goal fuel next
    | none => .ok []

/-- `reverse_path`, with a bound on the turns of its loops. -/
def reversePath (graph : Dijkstra T W) (fuel : Nat) (origin goal : T) :
    Outcome OutOfFuel (List T) :=
  if graph.nodes.entries.isEmpty then .ok []
  else do
    let revPath ← graph.search goal fuel ⟨∅, Frontier.new.push origin 0, ∅⟩
    if revPath.isEmpty then return revPath
    return revPath ++ [origin]

/-- `path`. -/
def path (graph : Dijkstra T W) (fuel : Nat) (origin goal : T) : Outcome OutOfFuel (List T) := do
  let path ← graph.reversePath fuel origin goal
  return path.reverse

end

section

variable [LinearOrder T]

/-- What the variables of the search say of its progress. -/
def State.toSearch (state : State T W) : Search T W where
  explored := state.explored
  frontier tag cost := (tag, cost) ∈ state.frontier.queue
  previous := state.previous.lookup

/-- An empty queue is an empty frontier. -/
theorem toSearch_exhausted {state : State T W} (empty : state.frontier.queue = []) (node : T)
    (cost : W) : ¬ state.toSearch.frontier node cost := by
  intro waits
  rw [State.toSearch, empty] at waits
  exact List.not_mem_nil waits

/-- The nodes that links lead to. -/
def linked [LE W] [Zero W] (graph : Dijkstra T W) : Finset T :=
  (graph.nodes.entries.flatMap (fun entry => entry.2.map Prod.fst)).toFinset

/-- An edge leads to a node that is linked. -/
theorem mem_linked [LE W] [Zero W] (graph : Dijkstra T W) {node next : T} {weight : W}
    (along : graph.Edge node next weight) : next ∈ graph.linked := by
  obtain ⟨links, found, listed⟩ := along
  rw [linked, List.mem_toFinset, List.mem_flatMap]
  exact ⟨⟨node, links⟩, (HashMap.mem_entries_iff graph.nodes node links).mpr found,
    List.mem_map_of_mem listed⟩

/-- Following the links of a trace lists its nodes, all but the start. -/
theorem backtrack_traced {previous : AList (fun _ : T => T)} {origin : T} {nodes : List T}
    (traced : Traced previous.lookup origin nodes) : ∃ rest, nodes = rest ++ [origin] ∧
      ∀ node ∈ nodes.head?, ∀ fuel, nodes.length ≤ fuel →
        backtrack previous fuel node = .ok rest := by
  induction traced with
  | start unlinked =>
    refine ⟨[], rfl, ?_⟩
    rintro _ ⟨⟩ (_ | fuel) enough
    · cases enough
    · rw [backtrack, unlinked]
  | @step node next behind traced link inductionHypothesis =>
    obtain ⟨rest, split, followed⟩ := inductionHypothesis
    refine ⟨next :: rest, congrArg (next :: ·) split, ?_⟩
    rintro _ ⟨⟩ (_ | fuel) enough
    · cases enough
    · rw [backtrack, link]
      simp only [followed node rfl fuel (Nat.le_of_succ_le_succ enough), Outcome.ok_bind,
        Outcome.pure_def]

variable [LinearOrder O] [IntoOrd W O]

/-- Taking the cheapest node from the frontier. -/
theorem toSearch_explore {state : State T W} (wellFormed : state.frontier.WellFormed)
    {tag : T} {cost : W} {frontier : Frontier T W}
    (popped : state.frontier.pop = some ((tag, cost), frontier)) :
    ({ state with explored := insert tag state.explored, frontier } : State T W).toSearch =
      state.toSearch.explore tag := by
  refine Search.ext (Finset.coe_insert tag state.explored) ?_ rfl
  funext other waits
  exact propext (wellFormed.mem_popped popped (other, waits))

/-- A neighbour that the frontier took. -/
theorem toSearch_improve (state : State T W) {frontier : Frontier T W} (tag neighbor : T)
    {newCost : W} (holds : ∀ item, item ∈ frontier.queue ↔
      item = (neighbor, newCost) ∨ item.1 ≠ neighbor ∧ item ∈ state.frontier.queue) :
    ({ state with frontier, previous := state.previous.insert neighbor tag } :
      State T W).toSearch = state.toSearch.improve tag neighbor newCost := by
  refine Search.ext rfl ?_ ?_
  · funext other waits
    exact propext ((holds (other, waits)).trans (or_congr_left Prod.mk_inj))
  · funext other
    change (state.previous.insert neighbor tag).lookup other =
      Function.update state.toSearch.previous neighbor (some tag) other
    by_cases same : other = neighbor
    · subst same
      rw [AList.lookup_insert, Function.update_self]
    · rw [AList.lookup_insert_ne same, Function.update_of_ne same]
      rfl

/-- What the search begins with. -/
theorem toSearch_initial [Zero W] (origin : T) :
    State.toSearch ⟨∅, Frontier.new.push origin 0, ∅⟩ =
      (⟨∅, fun node cost => node = origin ∧ cost = 0, fun _ => none⟩ : Search T W) := by
  refine Search.ext Finset.coe_empty ?_ (funext AList.lookup_empty)
  funext node cost
  refine propext ((Frontier.mem_push _ _ _ _).trans ?_)
  exact (or_iff_left List.not_mem_nil).trans Prod.mk_inj

/-- At first only the origin waits. -/
theorem initial_within [LE W] [Zero W] (graph : Dijkstra T W) (origin : T) :
    ∀ item ∈ (Frontier.new.push origin (0 : W)).queue,
      item.1 ∈ insert origin graph.linked := by
  intro item listed
  obtain rfl | impossible := (Frontier.mem_push _ _ _ _).mp listed
  · exact Finset.mem_insert_self origin graph.linked
  · exact absurd impossible List.not_mem_nil

variable [LinearOrder W]

/-- What holds before the loop over the neighbours holds after it, if it survives a neighbour
that is explored, one that the frontier takes and one that it refuses.

Proof: induction on the neighbours. What the frontier says of an offer decides which of the two
cases applies. -/
theorem visitNeighbors_rule [Add W] (tag : T) (cost : W)
    (keeps : List (T × W) → State T W → Prop)
    (skips : ∀ neighbor weight rest state, keeps ((neighbor, weight) :: rest) state →
      neighbor ∈ state.explored → keeps rest state)
    (takes : ∀ neighbor weight rest (state : State T W) (frontier : Frontier T W),
      keeps ((neighbor, weight) :: rest) state → neighbor ∉ state.explored →
      (∀ old, (neighbor, old) ∈ state.frontier.queue → cost + weight < old) →
      (∀ item, item ∈ frontier.queue ↔
        item = (neighbor, cost + weight) ∨ item.1 ≠ neighbor ∧ item ∈ state.frontier.queue) →
      keeps rest { state with frontier, previous := state.previous.insert neighbor tag })
    (refuses : ∀ neighbor weight rest (state : State T W) old,
      keeps ((neighbor, weight) :: rest) state → (neighbor, old) ∈ state.frontier.queue →
      old ≤ cost + weight → keeps rest state)
    {links : List (T × W)} {state : State T W} (wellFormed : state.frontier.WellFormed)
    (holds : keeps links state) :
    ∃ next, visitNeighbors (ε := ε) tag cost links state = .ok next ∧
      next.frontier.WellFormed ∧ keeps [] next := by
  induction links generalizing state with
  | nil => exact ⟨state, rfl, wellFormed, holds⟩
  | cons link rest inductionHypothesis =>
    obtain ⟨neighbor, weight⟩ := link
    rw [visitNeighbors]
    split
    · next done => exact inductionHypothesis wellFormed (skips _ _ _ _ holds done)
    · next fresh =>
      obtain ⟨updated, frontier, offered, nextWellFormed, taken, refused⟩ :=
        wellFormed.tryInsertOrDecreaseCost (ε := ε) neighbor (cost + weight)
      rw [offered, Outcome.ok_bind]
      cases updated with
      | true =>
        obtain ⟨better, items⟩ := taken rfl
        exact inductionHypothesis (by exact nextWellFormed)
          (takes _ _ _ _ frontier holds fresh better items)
      | false =>
        obtain ⟨rfl, old, waits, bound⟩ := refused rfl
        exact inductionHypothesis wellFormed (refuses _ _ _ _ old holds waits (not_lt.mp bound))

variable [Zero W] [Add W]

/-- The search as it begins, with only the start on the frontier. -/
theorem initial_spec (graph : Dijkstra T W) (origin : T) :
    let state : State T W := ⟨∅, Frontier.new.push origin 0, ∅⟩
    state.frontier.WellFormed ∧
      Invariant graph.Edge origin (fun _ _ _ => False) state.toSearch := by
  refine ⟨Frontier.wellFormed_new.push List.not_mem_nil 0, ?_⟩
  exact toSearch_initial (W := W) origin ▸ Invariant.initial graph.Edge origin

variable [PathCost W]

/-- Looking at the neighbours of an explored node completes the search around it.

Proof: the rule of the loop, with the invariant of the search as what is kept and the neighbours
that are left as what is still to be relaxed. -/
theorem visitNeighbors_spec (graph : Dijkstra T W) {origin tag : T} {cost : W}
    {links : List (T × W)} {state : State T W} (wellFormed : state.frontier.WellFormed)
    (invariant : Invariant graph.Edge origin (Leaving tag links) state.toSearch)
    (explored : tag ∈ state.explored) (isLeast : IsLeast (costs graph.Edge origin tag) cost)
    (known : ∀ link ∈ links, graph.Edge tag link.1 link.2) :
    ∃ next, visitNeighbors (ε := ε) tag cost links state = .ok next ∧
      next.frontier.WellFormed ∧ next.explored = state.explored ∧
      Invariant graph.Edge origin (fun _ _ _ => False) next.toSearch ∧
      ∀ item ∈ next.frontier.queue, item ∈ state.frontier.queue ∨ item.1 ∈ graph.linked := by
  let Keeps (rest : List (T × W)) (now : State T W) : Prop :=
    now.explored = state.explored ∧ (∀ link ∈ rest, graph.Edge tag link.1 link.2) ∧
      Invariant graph.Edge origin (Leaving tag rest) now.toSearch ∧
      ∀ item ∈ now.frontier.queue, item ∈ state.frontier.queue ∨ item.1 ∈ graph.linked
  refine Exists.imp ?result (visitNeighbors_rule (ε := ε) tag cost Keeps ?skips ?takes ?refuses
    wellFormed ⟨rfl, known, invariant, fun _ => .inl⟩)
  case result =>
    rintro next ⟨visited, nextWellFormed, same, -, nextInvariant, within⟩
    refine ⟨visited, nextWellFormed, same, nextInvariant.discharge ?_, within⟩
    intro last next weight _ leaving
    exact absurd leaving.2 List.not_mem_nil
  case skips =>
    rintro neighbor weight rest now ⟨same, along, invariant, within⟩ done
    exact ⟨same, (List.forall_mem_cons.mp along).2, invariant.passed (.inl done), within⟩
  case takes =>
    rintro neighbor weight rest now frontier ⟨same, along, invariant, within⟩ fresh better holds
    obtain ⟨toNeighbor, restKnown⟩ := List.forall_mem_cons.mp along
    have still : tag ∈ now.explored := by rwa [same]
    refine ⟨same, restKnown, ?_, fun item listed => ?_⟩
    · rw [toSearch_improve now tag neighbor holds]
      exact invariant.improve (edge_nonneg graph) still isLeast toNeighbor fresh better
        (fun _ _ _ => Leaving.first_or_rest)
    · obtain rfl | ⟨_, before⟩ := (holds item).mp listed
      · exact .inr (graph.mem_linked toNeighbor)
      · exact within item before
  case refuses =>
    rintro neighbor weight rest now old ⟨same, along, invariant, within⟩ waits bound
    exact ⟨same, (List.forall_mem_cons.mp along).2,
      invariant.passed (.inr ⟨cost, old, isLeast, waits, bound⟩), within⟩

/-- A turn of the main loop that does not reach the goal.

Proof: the node that was taken off is explored, and then the loop over its neighbours discharges
what is to be relaxed around it. -/
theorem visit_spec (graph : Dijkstra T W) {origin tag : T} {cost : W}
    {state : State T W} {frontier : Frontier T W} (wellFormed : state.frontier.WellFormed)
    (invariant : Invariant graph.Edge origin (fun _ _ _ => False) state.toSearch)
    (popped : state.frontier.pop = some ((tag, cost), frontier))
    (cheapest : ∀ other higher, (other, higher) ∈ state.frontier.queue → cost ≤ higher) :
    ∃ next, graph.visit (ε := ε) tag cost
        { state with explored := insert tag state.explored, frontier } = .ok next ∧
      next.frontier.WellFormed ∧ next.explored = insert tag state.explored ∧
      Invariant graph.Edge origin (fun _ _ _ => False) next.toSearch ∧
      ∀ item ∈ next.frontier.queue, item ∈ frontier.queue ∨ item.1 ∈ graph.linked := by
  have restWellFormed := (wellFormed.pop popped).1
  have waits := wellFormed.popped_mem popped
  obtain ⟨_, _, _, isLeast, _, _⟩ := invariant.settled (edge_nonneg graph) waits cheapest
  have explored := invariant.explore (edge_nonneg graph) waits cheapest
  rw [← toSearch_explore wellFormed popped] at explored
  rw [visit]
  cases found : graph.nodes.lookup tag with
  | none =>
    refine ⟨_, rfl, restWellFormed, rfl, explored.discharge ?_, fun _ => .inl⟩
    rintro last next weight ⟨links, listed, _⟩ rfl
    cases found.symm.trans listed
  | some links =>
    have known : ∀ link ∈ links, graph.Edge tag link.1 link.2 := fun link listed =>
      ⟨links, found, listed⟩
    refine graph.visitNeighbors_spec restWellFormed (explored.discharge ?_)
      (Finset.mem_insert_self tag _) isLeast known
    rintro last next weight ⟨own, listed, toNext⟩ rfl
    cases found.symm.trans listed
    exact .inl ⟨rfl, toNext⟩

/-- What a search leaves: nothing when no route leads to the goal, and otherwise a cheapest
one, listed from the goal back and without the start. -/
def Finds (graph : Dijkstra T W) (origin goal : T) (revPath : List T) : Prop :=
  revPath = [] ∧ (∀ behind cost, ¬ Route graph.Edge origin (goal :: behind) cost) ∨
    revPath ≠ [] ∧ ∃ behind cost, revPath ++ [origin] = goal :: behind ∧
      (goal :: behind).Nodup ∧ Route graph.Edge origin (goal :: behind) cost ∧
        IsLeast (costs graph.Edge origin goal) cost

/-- A search that empties its frontier without reaching the goal. -/
theorem finds_nothing (graph : Dijkstra T W) {origin goal : T} {state : State T W}
    (invariant : Invariant graph.Edge origin (fun _ _ _ => False) state.toSearch)
    (empty : state.frontier.queue = []) (unmet : goal ∉ state.explored) :
    graph.Finds origin goal [] := by
  refine .inl ⟨rfl, fun behind cost route => unmet ?_⟩
  exact invariant.exhausted (edge_nonneg graph) (toSearch_exhausted empty) route

/-- A search that pops its goal, with enough turns to follow the links back. -/
theorem finds_goal (graph : Dijkstra T W) {origin goal : T} (distinct : origin ≠ goal)
    {state : State T W}
    (invariant : Invariant graph.Edge origin (fun _ _ _ => False) state.toSearch) {cost : W}
    (waits : (goal, cost) ∈ state.frontier.queue)
    (cheapest : ∀ other higher, (other, higher) ∈ state.frontier.queue → cost ≤ higher) :
    ∃ revPath, graph.Finds origin goal revPath ∧ ∃ enough, ∀ fuel, enough ≤ fuel →
      backtrack state.previous fuel goal = .ok revPath := by
  obtain ⟨behind, traced, route, isLeast, different, _⟩ :=
    invariant.settled (edge_nonneg graph) waits cheapest
  obtain ⟨rest, split, followed⟩ := backtrack_traced traced
  have nonempty : rest ≠ [] := by
    rintro rfl
    exact distinct (List.cons.inj split).1.symm
  exact ⟨rest, .inr ⟨nonempty, behind, cost, split.symm, different, route, isLeast⟩, _,
    followed goal rfl⟩

/-- The search ends in any state, by induction on the nodes that are not explored yet. -/
theorem search_finds (preserving : StrictMono (intoOrd : W → O)) (graph : Dijkstra T W)
    {origin goal : T} (distinct : origin ≠ goal) {all : Finset T}
    (closed : ∀ tag ∈ graph.linked, tag ∈ all) {state : State T W}
    (wellFormed : state.frontier.WellFormed)
    (invariant : Invariant graph.Edge origin (fun _ _ _ => False) state.toSearch)
    (within : ∀ item ∈ state.frontier.queue, item.1 ∈ all) (unmet : goal ∉ state.explored) :
    ∃ revPath, graph.Finds origin goal revPath ∧ ∃ enough, ∀ fuel, enough ≤ fuel →
      graph.search goal fuel state = .ok revPath := by
  induction sized : (all \ state.explored).card using Nat.strong_induction_on
    generalizing state with
  | _ size inductionHypothesis =>
    cases popped : state.frontier.pop with
    | none =>
      have empty := (Frontier.pop_eq_none_iff _).mp popped
      refine ⟨[], graph.finds_nothing invariant empty unmet, 1, ?_⟩
      rintro (_ | fuel) bound
      · cases bound
      · rw [search, popped]
    | some found =>
      obtain ⟨⟨tag, cost⟩, frontier⟩ := found
      have waits := wellFormed.popped_mem popped
      have cheapest : ∀ other higher, (other, higher) ∈ state.frontier.queue → cost ≤ higher :=
        fun other higher => wellFormed.popped_least preserving popped
      by_cases met : tag = goal
      · subst met
        obtain ⟨revPath, finds, enough, ends⟩ :=
          graph.finds_goal distinct invariant waits cheapest
        refine ⟨revPath, finds, enough + 1, ?_⟩
        rintro (_ | fuel) bound
        · cases bound
        · rw [search, popped]
          exact (if_pos rfl).trans (ends fuel (Nat.le_of_succ_le_succ bound))
      · obtain ⟨next, visited, nextWellFormed, nextExplored, nextInvariant, nextWithin⟩ :=
          visit_spec (ε := OutOfFuel) graph wellFormed invariant popped cheapest
        have inside : tag ∈ all \ state.explored :=
          Finset.mem_sdiff.mpr ⟨within _ waits, invariant.apart tag cost waits⟩
        have fewer : (all \ next.explored).card < size := by
          rw [nextExplored, ← sized, Finset.sdiff_insert]
          exact Finset.card_erase_lt_of_mem inside
        have stillWithin : ∀ item ∈ next.frontier.queue, item.1 ∈ all := by
          intro item listed
          obtain before | isLinked := nextWithin item listed
          · exact within item ((wellFormed.mem_popped popped item).mp before).2
          · exact closed _ isLinked
        have stillUnmet : goal ∉ next.explored := by
          rw [nextExplored, Finset.mem_insert, not_or]
          exact ⟨Ne.symm met, unmet⟩
        obtain ⟨revPath, finds, enough, ends⟩ := inductionHypothesis _ fewer nextWellFormed
          nextInvariant stillWithin stillUnmet rfl
        refine ⟨revPath, finds, enough + 1, ?_⟩
        rintro (_ | fuel) bound
        · cases bound
        · rw [search, popped]
          simp only [if_neg met]
          rw [visited, Outcome.ok_bind]
          exact ends fuel (Nat.le_of_succ_le_succ bound)

/-- Both loops end, and what they leave is a cheapest route if there is any, by the sums that
the search itself forms.

Proof: the state before the loop satisfies the invariant, and the nodes that have links, with
the start, bound the search. -/
theorem reversePath_finds (preserving : StrictMono (intoOrd : W → O))
    (graph : Dijkstra T W) {origin goal : T} (distinct : origin ≠ goal) :
    ∃ revPath enough,
      (∀ fuel, enough ≤ fuel → graph.reversePath fuel origin goal = .ok revPath ∧
        graph.path fuel origin goal = .ok revPath.reverse) ∧
      (revPath = [] ↔ ∀ behind cost, ¬ Route graph.Edge origin (goal :: behind) cost) ∧
      (revPath ≠ [] → revPath.head? = some goal ∧ revPath.getLast? = some origin ∧
        revPath.Nodup ∧ ∃ cost, Route graph.Edge origin revPath cost ∧
          ∀ behind other, Route graph.Edge origin (goal :: behind) other → cost ≤ other) := by
  by_cases empty : graph.nodes.entries.isEmpty
  · have unreached : ∀ behind cost, ¬ Route graph.Edge origin (goal :: behind) cost :=
      fun behind cost route => distinct (List.cons.inj (route.eq_start (no_edge empty))).1.symm
    refine ⟨[], 0, fun fuel _ => ?_, iff_of_true rfl unreached, fun nonempty => absurd rfl nonempty⟩
    rw [path, reversePath, if_pos empty]
    exact ⟨rfl, rfl⟩
  · obtain ⟨wellFormed, invariant⟩ := initial_spec graph origin
    have closed : ∀ tag ∈ graph.linked, tag ∈ insert origin graph.linked := fun tag isLinked =>
      Finset.mem_insert_of_mem isLinked
    obtain ⟨found, finds, enough, ends⟩ := search_finds preserving graph distinct closed
      wellFormed invariant (initial_within graph origin) (Finset.notMem_empty goal)
    obtain ⟨rfl, unreached⟩ | ⟨nonempty, behind, cost, whole, different, route, isLeast⟩ := finds
    · refine ⟨[], enough, fun fuel bound => ?_, iff_of_true rfl unreached,
        fun nonempty => absurd rfl nonempty⟩
      rw [path, reversePath, if_neg empty, ends fuel bound]
      exact ⟨rfl, rfl⟩
    · refine ⟨found ++ [origin], enough, fun fuel bound => ?_, iff_of_false (by simp) ?_,
        fun _ => ?_⟩
      · rw [path, reversePath, if_neg empty, ends fuel bound, Outcome.ok_bind,
          if_neg (mt List.isEmpty_iff.mp nonempty)]
        exact ⟨rfl, rfl⟩
      · exact fun unreached => unreached behind cost route
      · rw [whole]
        exact ⟨rfl, route.getLast?, different, cost, route,
          fun others other toGoal => isLeast.2 ⟨others, toGoal⟩⟩

end

/-- On every graph and for every two different nodes, both loops end. The reversed path is
empty exactly when no route leads to the goal; otherwise it is a route, listed from the goal
back, without a node twice, and no route to the goal costs less. -/
theorem reversePath_cheapest [LinearOrder T] [LinearOrder O] [IntoOrd W O] [LinearOrder W]
    [AddMonoid W] [AddLeftMono W] [AddRightMono W] (preserving : StrictMono (intoOrd : W → O))
    (graph : Dijkstra T W) {origin goal : T} (distinct : origin ≠ goal) :
    ∃ revPath enough,
      (∀ fuel, enough ≤ fuel → graph.reversePath fuel origin goal = .ok revPath ∧
        graph.path fuel origin goal = .ok revPath.reverse) ∧
      (revPath = [] ↔ ∀ behind cost, ¬ Route graph.Edge origin (goal :: behind) cost) ∧
      (revPath ≠ [] → revPath.head? = some goal ∧ revPath.getLast? = some origin ∧
        revPath.Nodup ∧ ∃ cost, Route graph.Edge origin revPath cost ∧
          ∀ behind other, Route graph.Edge origin (goal :: behind) other → cost ≤ other) :=
  graph.reversePath_finds preserving distinct

section

variable [LinearOrder T]

/-- Once a loop ends, more turns change nothing. -/
theorem backtrack_further {previous : AList (fun _ : T => T)} {fuel more : Nat} {tag : T}
    {path : List T} (followed : backtrack.{u, v} previous fuel tag = .ok path)
    (bound : fuel ≤ more) : backtrack.{u, v} previous more tag = .ok path := by
  induction fuel generalizing more tag path with
  | zero => cases followed
  | succ fuel inductionHypothesis =>
    cases more with
    | zero => cases bound
    | succ more =>
      rw [backtrack] at followed ⊢
      split at followed
      · obtain ⟨rest, earlier, whole⟩ := (Outcome.bind_ok_iff _ _ _).mp followed
        rw [inductionHypothesis earlier (Nat.le_of_succ_le_succ bound), Outcome.ok_bind]
        exact whole
      · exact followed

variable [LinearOrder W] [LinearOrder O] [IntoOrd W O] [Add W] [Zero W]

/-- More fuel does not change a path that was found, by induction on the fuel. -/
theorem search_further {graph : Dijkstra T W} {goal : T} {fuel more : Nat} {state : State T W}
    {path : List T} (found : graph.search goal fuel state = .ok path) (bound : fuel ≤ more) :
    graph.search goal more state = .ok path := by
  induction fuel generalizing more state with
  | zero => cases found
  | succ fuel inductionHypothesis =>
    cases more with
    | zero => cases bound
    | succ more =>
      have fewer := Nat.le_of_succ_le_succ bound
      rw [search] at found ⊢
      split at found
      · split_ifs at found ⊢
        · exact backtrack_further found fewer
        · obtain ⟨next, visited, rest⟩ := (Outcome.bind_ok_iff _ _ _).mp found
          refine (Outcome.bind_ok_iff _ _ _).mpr ⟨next, visited, ?_⟩
          exact inductionHypothesis rest fewer
      · exact found

/-- More fuel does not change the outcome of a call that had enough. -/
theorem reversePath_further {graph : Dijkstra T W} {origin goal : T} {fuel more : Nat}
    {path : List T} (found : graph.reversePath fuel origin goal = .ok path) (bound : fuel ≤ more) :
    graph.reversePath more origin goal = .ok path := by
  rw [reversePath] at found ⊢
  split_ifs at found ⊢
  · exact found
  · obtain ⟨revPath, searched, whole⟩ := (Outcome.bind_ok_iff _ _ _).mp found
    exact (Outcome.bind_ok_iff _ _ _).mpr ⟨revPath, search_further searched bound, whole⟩

end

end Dijkstra

instance : IntoOrd Nat Nat := ⟨id⟩

/-- A graph of four nodes, the farthest of them best reached the long way round. -/
def square : Dijkstra Char Nat where
  nodes := [⟨'A', [('B', 1)]⟩, ⟨'B', [('A', 1), ('C', 2), ('D', 4)]⟩,
    ⟨'C', [('B', 2), ('D', 1)]⟩, ⟨'D', [('C', 1), ('B', 4)]⟩].toAList
  nonnegative _ _ _ _ _ := Nat.zero_le _

/-- On a square with four nodes a cheapest route is found from one corner to the opposite one. -/
theorem square_route_cheapest : 'A' ≠ 'D' ∧ ∃ revPath enough,
    (∀ fuel, enough ≤ fuel → square.reversePath fuel 'A' 'D' = .ok revPath ∧
      square.path fuel 'A' 'D' = .ok revPath.reverse) ∧
    (revPath = [] ↔ ∀ behind cost, ¬ Route square.Edge 'A' ('D' :: behind) cost) ∧
    (revPath ≠ [] → revPath.head? = some 'D' ∧ revPath.getLast? = some 'A' ∧
      revPath.Nodup ∧ ∃ cost, Route square.Edge 'A' revPath cost ∧
        ∀ behind other, Route square.Edge 'A' ('D' :: behind) other → cost ≤ other) :=
  ⟨by decide, Dijkstra.reversePath_cheapest strictMono_id square (by decide)⟩

example : square.path 20 'A' 'D' = .ok ['A', 'B', 'C', 'D'] := by decide
example : square.reversePath 20 'A' 'D' = .ok ['D', 'C', 'B', 'A'] := by decide
example : square.reversePath 20 'A' 'E' = .ok [] := by decide

end RouteServer.Pathsearch
