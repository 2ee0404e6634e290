import Mathlib.Algebra.Order.Monoid.Unbundled.Basic
import Mathlib.Data.List.Nodup
import Mathlib.Order.Bounds.Basic
import Mathlib.Logic.Function.Basic

/-!
# Searching for a cheapest route

A graph is a relation: an edge leads from a node to a node and has a weight. A route
is a list of nodes, its end first and its start last, each node reached from the one
behind it along an edge, and it costs the sum of the weights in the order of travel.

A search explores one node after another. Nodes that an explored node leads to wait on
a frontier with the cost of the best route found so far, and each has a link to the
explored node which that route comes from. The law is that if the cheapest waiting
node is explored each time, then it is explored at the least cost of any route to it,
and the links lead from it back to the start along such a route. Weights are not
negative. Of sums it is asked that a weight makes no cost less and that weights keep the
order of costs, which holds in every ordered monoid and of rounded sums as well.
-/

namespace Graphs

/-- Costs that are added up along a route. -/
class PathCost (W : Type*) [Zero W] [Add W] [LE W] : Prop where
  /-- A weight that is not negative makes no cost less. -/
  le_add : ∀ (cost : W) {weight : W}, 0 ≤ weight → cost ≤ cost + weight
  /-- A weight keeps the order of costs. -/
  add_mono : ∀ {lower higher : W} (weight : W), lower ≤ higher → lower + weight ≤ higher + weight

instance {W : Type*} [AddMonoid W] [Preorder W] [AddLeftMono W] [AddRightMono W] : PathCost W where
  le_add _ _ := le_add_of_nonneg_right
  add_mono weight less := add_le_add_left less weight

universe u v
variable {T : Type u} {W : Type v}

/-- A route from a start, with the nodes listed backwards, and its cost. -/
inductive Route [Zero W] [Add W] (edge : T → T → W → Prop) (start : T) : List T → W → Prop
  | start : Route edge start [start] 0
  | step {node next : T} {behind : List T} {cost weight : W}
      (route : Route edge start (node :: behind) cost) (along : edge node next weight) :
      Route edge start (next :: node :: behind) (cost + weight)

/-- A route ends in its start. -/
theorem Route.getLast? [Zero W] [Add W] {edge : T → T → W → Prop} {start : T} {nodes : List T}
    {cost : W} (route : Route edge start nodes cost) : nodes.getLast? = some start := by
  induction route with
  | start => rfl
  | step _ _ inductionHypothesis => exact inductionHypothesis

/-- Where no edge leaves, the only route is the one that stays at the start. -/
theorem Route.eq_start [Zero W] [Add W] {edge : T → T → W → Prop} {start : T} {nodes : List T}
    {cost : W} (none : ∀ node next weight, ¬ edge node next weight)
    (route : Route edge start nodes cost) : nodes = [start] := by
  cases route with
  | start => rfl
  | step _ along => exact absurd along (none _ _ _)

/-- The costs of the routes to a node. -/
def costs [Zero W] [Add W] (edge : T → T → W → Prop) (start node : T) : Set W :=
  {cost | ∃ behind, Route edge start (node :: behind) cost}

/-- The nodes that links lead through from the first of them to the start. -/
inductive Traced (previous : T → Option T) (start : T) : List T → Prop
  | start (unlinked : previous start = none) : Traced previous start [start]
  | step {node next : T} {behind : List T} (traced : Traced previous start (node :: behind))
      (link : previous next = some node) : Traced previous start (next :: node :: behind)

/-- Links that differ at no node of a trace. -/
theorem Traced.congr {previous other : T → Option T} {start : T} {nodes : List T}
    (traced : Traced previous start nodes)
    (same : ∀ node ∈ nodes, other node = previous node) : Traced other start nodes := by
  induction traced with
  | start unlinked => exact .start ((same start List.mem_cons_self).trans unlinked)
  | step _ link inductionHypothesis =>
    exact .step (inductionHypothesis (fun node listed => same node (List.mem_cons_of_mem _ listed)))
      ((same _ List.mem_cons_self).trans link)

/-- The edges that leave a node along the links of a list. -/
def Leaving (node : T) (links : List (T × W)) (last next : T) (weight : W) : Prop :=
  last = node ∧ (next, weight) ∈ links

/-- A link that leaves is one of the others, or the first. -/
theorem Leaving.first_or_rest {node next last other : T} {weight toOther : W}
    {links : List (T × W)} (leaving : Leaving node ((next, weight) :: links) last other toOther) :
    Leaving node links last other toOther ∨ last = node ∧ other = next ∧ toOther = weight := by
  obtain ⟨same, listed⟩ := leaving
  obtain first | listed := List.mem_cons.mp listed
  · cases first
    exact .inr ⟨same, rfl, rfl⟩
  · exact .inl ⟨same, listed⟩

/-- The state of a search. -/
@[ext] structure Search (T : Type u) (W : Type v) where
  explored : Set T
  frontier : T → W → Prop
  previous : T → Option T

namespace Search

/-- A node is taken from the frontier and explored. -/
def explore (search : Search T W) (node : T) : Search T W where
  explored := insert node search.explored
  frontier other cost := other ≠ node ∧ search.frontier other cost
  previous := search.previous

/-- A node waits at a new cost, by way of a given one. -/
def improve [DecidableEq T] (search : Search T W) (last next : T) (cost : W) : Search T W where
  explored := search.explored
  frontier other waits := other = next ∧ waits = cost ∨ other ≠ next ∧ search.frontier other waits
  previous := Function.update search.previous next (some last)

end Search

section

variable [Zero W] [Add W] [LinearOrder W]

/-- What a search keeps. Some edges from explored nodes may still have to be looked at. -/
structure Invariant (edge : T → T → W → Prop) (start : T) (pending : T → T → W → Prop)
    (search : Search T W) : Prop where
  unlinked : search.previous start = none
  began : start ∈ search.explored ∨ search.frontier start 0
  apart : ∀ node cost, search.frontier node cost → node ∉ search.explored
  waiting : ∀ node cost, search.frontier node cost → (node = start ∧ cost = 0) ∨
    ∃ last least weight, search.previous node = some last ∧ last ∈ search.explored ∧
      IsLeast (costs edge start last) least ∧ edge last node weight ∧ cost = least + weight
  traced : ∀ node ∈ search.explored, ∃ behind cost,
    Traced search.previous start (node :: behind) ∧ Route edge start (node :: behind) cost ∧
      IsLeast (costs edge start node) cost ∧ (node :: behind).Nodup ∧
        ∀ other ∈ behind, other ∈ search.explored
  relaxed : ∀ last ∈ search.explored, ∀ next weight, edge last next weight →
    next ∈ search.explored ∨ pending last next weight ∨
      ∃ least cost, IsLeast (costs edge start last) least ∧ search.frontier next cost ∧
        cost ≤ least + weight

variable {edge : T → T → W → Prop} {start : T} {pending remaining : T → T → W → Prop}
  {search : Search T W}

/-- A search that has only its start on the frontier. -/
theorem Invariant.initial (edge : T → T → W → Prop) (start : T) :
    Invariant edge start (fun _ _ _ => False)
      ⟨∅, fun node cost => node = start ∧ cost = 0, fun _ => none⟩ where
  unlinked := rfl
  began := .inr ⟨rfl, rfl⟩
  apart _ _ _ := Set.notMem_empty _
  waiting _ _ waits := .inl waits
  traced _ explored := absurd explored (Set.notMem_empty _)
  relaxed _ explored := absurd explored (Set.notMem_empty _)

/-- Edges to explored nodes, and to nodes that wait at no higher cost, need no attention. -/
theorem Invariant.discharge (invariant : Invariant edge start pending search)
    (met : ∀ last next weight, edge last next weight → pending last next weight →
      remaining last next weight ∨ next ∈ search.explored ∨ ∃ least cost,
        IsLeast (costs edge start last) least ∧ search.frontier next cost ∧
          cost ≤ least + weight) :
    Invariant edge start remaining search where
  unlinked := invariant.unlinked
  began := invariant.began
  apart := invariant.apart
  waiting := invariant.waiting
  traced := invariant.traced
  relaxed last explored next weight along := by
    obtain done | waits | settled := invariant.relaxed last explored next weight along
    · exact .inl done
    · obtain remains | done | settled := met last next weight along waits
      · exact .inr (.inl remains)
      · exact .inl done
      · exact .inr (.inr settled)
    · exact .inr (.inr settled)

/-- The first of the links needs no attention. -/
theorem Invariant.passed {node next : T} {weight : W} {links : List (T × W)}
    (invariant : Invariant edge start (Leaving node ((next, weight) :: links)) search)
    (met : next ∈ search.explored ∨ ∃ least cost, IsLeast (costs edge start node) least ∧
      search.frontier next cost ∧ cost ≤ least + weight) :
    Invariant edge start (Leaving node links) search := by
  apply invariant.discharge
  intro last other toOther _ leaving
  obtain remains | ⟨rfl, rfl, rfl⟩ := leaving.first_or_rest
  · exact .inl remains
  · exact .inr met

variable [PathCost W]

/-- A route costs at least nothing. -/
theorem Route.nonneg (nonnegative : ∀ node next weight, edge node next weight → 0 ≤ weight)
    {nodes : List T} {cost : W} (route : Route edge start nodes cost) : 0 ≤ cost := by
  induction route with
  | start => exact le_refl 0
  | step _ along inductionHypothesis =>
    exact inductionHypothesis.trans (PathCost.le_add _ (nonnegative _ _ _ along))

/-- A node waits at a lower cost by way of an explored one.

Proof: field by field. Only the node that is improved changes its predecessor, and no traced
route goes through it, since it is not explored. -/
theorem Invariant.improve [DecidableEq T]
    (nonnegative : ∀ node next weight, edge node next weight → 0 ≤ weight)
    (invariant : Invariant edge start pending search) {last next : T} {least weight : W}
    (explored : last ∈ search.explored) (isLeast : IsLeast (costs edge start last) least)
    (along : edge last next weight) (fresh : next ∉ search.explored)
    (better : ∀ old, search.frontier next old → least + weight < old)
    (met : ∀ node other cost, pending node other cost →
      remaining node other cost ∨ node = last ∧ other = next ∧ cost = weight) :
    Invariant edge start remaining (search.improve last next (least + weight)) := by
  have reached : 0 ≤ least := by
    obtain ⟨behind, route⟩ := isLeast.1
    exact route.nonneg nonnegative
  -- the start waits at no cost at all, which nothing is below
  have notStart : next ≠ start := by
    rintro rfl
    obtain done | waits := invariant.began
    · exact fresh done
    · have enough := reached.trans (PathCost.le_add least (nonnegative last next weight along))
      exact absurd (better 0 waits) enough.not_gt
  have different : ∀ node ∈ search.explored, node ≠ next := by
    rintro node done rfl
    exact fresh done
  have kept : ∀ node ≠ next, (search.improve last next (least + weight)).previous node =
      search.previous node := fun node apart => Function.update_of_ne apart _ _
  constructor
  case unlinked => exact (kept start notStart.symm).trans invariant.unlinked
  case began => exact invariant.began.imp_right (fun waits => .inr ⟨notStart.symm, waits⟩)
  case apart =>
    rintro node cost (⟨rfl, _⟩ | ⟨_, waits⟩)
    · exact fresh
    · exact invariant.apart node cost waits
  case waiting =>
    rintro node cost (⟨rfl, rfl⟩ | ⟨apart, waits⟩)
    · exact .inr ⟨last, least, weight, Function.update_self .., explored, isLeast, along, rfl⟩
    · obtain begins | ⟨last, least, weight, link, rest⟩ := invariant.waiting node cost waits
      · exact .inl begins
      · exact .inr ⟨last, least, weight, (kept node apart).trans link, rest⟩
  case traced =>
    intro node done
    obtain ⟨behind, cost, traced, route, least, nodup, inside⟩ := invariant.traced node done
    refine ⟨behind, cost, traced.congr ?_, route, least, nodup, inside⟩
    rintro other (_ | ⟨_, listed⟩)
    · exact kept node (different node done)
    · exact kept other (different other (inside other listed))
  case relaxed =>
    intro node done other cost toOther
    obtain found | waits | ⟨low, lower, lowIsLeast, waits, bound⟩ :=
      invariant.relaxed node done other cost toOther
    · exact .inl found
    · obtain remains | ⟨rfl, rfl, rfl⟩ := met node other cost waits
      · exact .inr (.inl remains)
      · exact .inr (.inr ⟨least, _, isLeast, .inl ⟨rfl, rfl⟩, le_refl _⟩)
    · by_cases same : other = next
      · subst same
        exact .inr (.inr ⟨low, _, lowIsLeast, .inl ⟨rfl, rfl⟩, (better lower waits).le.trans bound⟩)
      · exact .inr (.inr ⟨low, lower, lowIsLeast, .inr ⟨same, waits⟩, bound⟩)

/-- Every route ends in an explored node, or passes the frontier at no higher cost. -/
theorem Invariant.cut (nonnegative : ∀ node next weight, edge node next weight → 0 ≤ weight)
    (invariant : Invariant edge start (fun _ _ _ => False) search) {nodes : List T} {cost : W}
    (route : Route edge start nodes cost) : (∃ node ∈ nodes.head?, node ∈ search.explored) ∨
      ∃ other lower, search.frontier other lower ∧ lower ≤ cost := by
  induction route with
  | start =>
    obtain explored | waits := invariant.began
    · exact .inl ⟨start, rfl, explored⟩
    · exact .inr ⟨start, 0, waits, le_refl 0⟩
  | @step node next behind cost weight route along inductionHypothesis =>
    obtain ⟨_, ⟨⟩, explored⟩ | ⟨other, lower, waits, bound⟩ := inductionHypothesis
    · obtain done | impossible | ⟨least, lower, isLeast, waits, bound⟩ :=
        invariant.relaxed node explored next weight along
      · exact .inl ⟨next, rfl, done⟩
      · exact impossible.elim
      · refine .inr ⟨next, lower, waits, bound.trans ?_⟩
        exact PathCost.add_mono weight (isLeast.2 ⟨behind, route⟩)
    · exact .inr ⟨other, lower, waits,
        bound.trans (PathCost.le_add _ (nonnegative node next weight along))⟩

/-- A cheapest node of the frontier is reached along its links at the least cost. -/
theorem Invariant.settled (nonnegative : ∀ node next weight, edge node next weight → 0 ≤ weight)
    (invariant : Invariant edge start (fun _ _ _ => False) search) {node : T} {cost : W}
    (waits : search.frontier node cost)
    (cheapest : ∀ other higher, search.frontier other higher → cost ≤ higher) :
    ∃ behind, Traced search.previous start (node :: behind) ∧
      Route edge start (node :: behind) cost ∧ IsLeast (costs edge start node) cost ∧
        (node :: behind).Nodup ∧ ∀ other ∈ behind, other ∈ search.explored := by
  have fresh : node ∉ search.explored := invariant.apart node cost waits
  have lowest : cost ∈ lowerBounds (costs edge start node) := by
    rintro total ⟨behind, route⟩
    obtain ⟨_, ⟨⟩, explored⟩ | ⟨other, lower, otherWaits, bound⟩ := invariant.cut nonnegative route
    · exact absurd explored fresh
    · exact (cheapest other lower otherWaits).trans bound
  obtain ⟨rfl, rfl⟩ | ⟨last, least, weight, link, explored, isLeast, along, rfl⟩ :=
    invariant.waiting node cost waits
  · exact ⟨[], .start invariant.unlinked, .start, ⟨⟨[], .start⟩, lowest⟩, List.nodup_singleton _,
      fun _ listed => absurd listed List.not_mem_nil⟩
  · obtain ⟨behind, reached, traced, route, attained, different, inside⟩ :=
      invariant.traced last explored
    cases isLeast.unique attained
    have within : ∀ other ∈ last :: behind, other ∈ search.explored := by
      rintro other (_ | ⟨_, listed⟩)
      · exact explored
      · exact inside other listed
    exact ⟨last :: behind, traced.step link, route.step along, ⟨⟨_, route.step along⟩, lowest⟩,
      List.nodup_cons.mpr ⟨fun listed => fresh (within node listed), different⟩, within⟩

/-- The cheapest node of the frontier is explored.

Proof: field by field. What waits at the lowest cost can no longer be reached at a lower one, as
every other route leaves the explored nodes through the frontier and costs do not fall along it. -/
theorem Invariant.explore (nonnegative : ∀ node next weight, edge node next weight → 0 ≤ weight)
    (invariant : Invariant edge start (fun _ _ _ => False) search) {node : T} {cost : W}
    (waits : search.frontier node cost)
    (cheapest : ∀ other higher, search.frontier other higher → cost ≤ higher) :
    Invariant edge start (fun last _ _ => last = node) (search.explore node) where
  unlinked := invariant.unlinked
  began := by
    obtain explored | waits := invariant.began
    · exact .inl (.inr explored)
    · by_cases same : start = node
      · exact .inl (.inl same)
      · exact .inr ⟨same, waits⟩
  apart other higher otherWaits := by
    rintro (same | explored)
    · exact otherWaits.1 same
    · exact invariant.apart other higher otherWaits.2 explored
  waiting other higher otherWaits := by
    obtain begins | ⟨last, least, weight, link, explored, rest⟩ :=
      invariant.waiting other higher otherWaits.2
    · exact .inl begins
    · exact .inr ⟨last, least, weight, link, .inr explored, rest⟩
  traced := by
    rintro other (rfl | explored)
    · obtain ⟨behind, traced, route, isLeast, different, inside⟩ :=
        invariant.settled nonnegative waits cheapest
      exact ⟨behind, cost, traced, route, isLeast, different,
        fun node listed => .inr (inside node listed)⟩
    · obtain ⟨behind, cost, traced, route, isLeast, different, inside⟩ :=
        invariant.traced other explored
      exact ⟨behind, cost, traced, route, isLeast, different,
        fun node listed => .inr (inside node listed)⟩
  relaxed := by
    rintro last (same | explored) next weight along
    · exact .inr (.inl same)
    · obtain done | impossible | ⟨least, cost, isLeast, nextWaits, bound⟩ :=
        invariant.relaxed last explored next weight along
      · exact .inl (.inr done)
      · exact impossible.elim
      · by_cases same : next = node
        · exact .inl (.inl same)
        · exact .inr (.inr ⟨least, cost, isLeast, ⟨same, nextWaits⟩, bound⟩)

/-- When nothing waits any more, every node that a route leads to is explored. -/
theorem Invariant.exhausted (nonnegative : ∀ node next weight, edge node next weight → 0 ≤ weight)
    (invariant : Invariant edge start (fun _ _ _ => False) search)
    (nothing : ∀ node cost, ¬ search.frontier node cost) {node : T} {behind : List T} {cost : W}
    (route : Route edge start (node :: behind) cost) : node ∈ search.explored := by
  obtain ⟨_, ⟨⟩, explored⟩ | ⟨other, lower, waits, _⟩ := invariant.cut nonnegative route
  · exact explored
  · exact absurd waits (nothing other lower)

end

end Graphs
