import Mathlib.Logic.Function.Basic
import RouteServer.Machine.Runs
import RouteServer.Pathsearch.NumTraits

/-!
# The frontier as a priority map

Seen from outside the frontier is a map from nodes to costs. The calls of the search
update this map: popping removes a node of least cost, offering a node lowers its cost or
sets its first one, and pushing sets the cost of a node that has none. The laws here hold
in every state that such calls reach from an empty frontier, whatever their order.
-/

namespace RouteServer.Pathsearch

open Rust Rust.PositionIndex Words

universe u v

namespace Frontier

variable {ε T W : Type u} {O : Type v} [LinearOrder T]

/-- The cost at which a node waits. -/
def costOf (frontier : Frontier T W) (tag : T) : Option W :=
  (frontier.queue.find? (fun item => item.1 = tag)).map Prod.snd

/-- The lower one of the cost that a node has, if any, and a new one. -/
def lowerCost [LT W] [DecidableLT W] (current : Option W) (newCost : W) : W :=
  match current with
  | some old => if newCost < old then newCost else old
  | none => newCost

/-- A call of the search. -/
inductive Call (T W : Type u) where
  | pop
  | tryInsertOrDecreaseCost (tag : T) (newCost : W)
  | push (tag : T) (weight : W)

variable [LinearOrder O] [IntoOrd W O]

/-- The frontier after a call. Only a tag that is not present may be pushed. -/
def call [LT W] [DecidableLT W] (frontier : Frontier T W) : Call T W → Option (Frontier T W)
  | .pop => some ((frontier.pop.map Prod.snd).getD frontier)
  | .tryInsertOrDecreaseCost tag newCost =>
    match (frontier.tryInsertOrDecreaseCost tag newCost : Outcome PEmpty _) with
    | .ok (_, next) => some next
    | _ => none
  | .push tag weight =>
    if tag ∈ frontier.queue.map Prod.fst then none else some (frontier.push tag weight)

variable (T W) in
/-- A frontier that starts empty and takes calls. -/
def machine [LT W] [DecidableLT W] : Machine.System (Frontier T W) (Call T W) where
  initial := new
  step := call

/-- The cost of a tag is the one that it waits with. -/
theorem WellFormed.costOf_iff {frontier : Frontier T W} (wellFormed : frontier.WellFormed)
    (tag : T) (cost : W) : frontier.costOf tag = some cost ↔ (tag, cost) ∈ frontier.queue := by
  rw [costOf, Option.map_eq_some_iff]
  constructor
  · rintro ⟨item, found, rfl⟩
    obtain rfl : item.1 = tag := by simpa using List.find?_some found
    exact List.mem_of_find?_eq_some found
  · intro waits
    have present : (frontier.queue.find? (fun item => item.1 = tag)).isSome :=
      List.find?_isSome.mpr ⟨(tag, cost), waits, decide_eq_true rfl⟩
    obtain ⟨item, found⟩ := Option.isSome_iff_exists.mp present
    have same : item.1 = tag := by simpa using List.find?_some found
    have queued : (tag, item.2) ∈ frontier.queue := by
      rw [← same]
      exact List.mem_of_find?_eq_some found
    exact ⟨item, found, wellFormed.cost_unique queued waits⟩

/-- A tag has no cost exactly when it does not wait. -/
theorem WellFormed.costOf_none_iff {frontier : Frontier T W} (wellFormed : frontier.WellFormed)
    (tag : T) : frontier.costOf tag = none ↔ tag ∉ frontier.queue.map Prod.fst := by
  rw [Option.eq_none_iff_forall_ne_some, List.mem_map]
  constructor
  · rintro absent ⟨⟨_, cost⟩, waits, rfl⟩
    exact absent cost ((wellFormed.costOf_iff _ cost).mpr waits)
  · intro absent cost known
    exact absent ⟨(tag, cost), (wellFormed.costOf_iff tag cost).mp known, rfl⟩

/-- Two well formed frontiers whose items differ for one node have costs that differ there. -/
theorem WellFormed.costOf_update {frontier next : Frontier T W} (wellFormed : frontier.WellFormed)
    (nextWellFormed : next.WellFormed) {tag : T} {now : Option W}
    (items : ∀ item, item ∈ next.queue ↔
      item.1 = tag ∧ now = some item.2 ∨ item.1 ≠ tag ∧ item ∈ frontier.queue) :
    next.costOf = Function.update frontier.costOf tag now := by
  funext other
  apply Option.ext
  intro cost
  rw [nextWellFormed.costOf_iff, items]
  by_cases same : other = tag
  · rw [same, Function.update_self]
    simp
  · rw [Function.update_of_ne same, wellFormed.costOf_iff]
    simp [same]

/-- Pushing sets the cost of one node. -/
theorem WellFormed.costOf_push {frontier : Frontier T W} (wellFormed : frontier.WellFormed)
    {tag : T} (fresh : tag ∉ frontier.queue.map Prod.fst) (weight : W) :
    (frontier.push tag weight).costOf = Function.update frontier.costOf tag (some weight) := by
  apply wellFormed.costOf_update (wellFormed.push fresh weight)
  rintro ⟨other, cost⟩
  rw [mem_push]
  constructor
  · rintro (first | waits)
    · cases first
      exact .inl ⟨rfl, rfl⟩
    · refine .inr ⟨?_, waits⟩
      rintro rfl
      exact fresh (List.mem_map_of_mem waits)
  · rintro (⟨rfl, same⟩ | ⟨_, waits⟩)
    · exact .inl (by rw [Option.some.inj same])
    · exact .inr waits

/-- Popping takes the cost of one node away. -/
theorem WellFormed.costOf_pop {frontier rest : Frontier T W} (wellFormed : frontier.WellFormed)
    {tag : T} {cost : W} (popped : frontier.pop = some ((tag, cost), rest)) :
    frontier.costOf tag = some cost ∧ rest.costOf = Function.update frontier.costOf tag none := by
  constructor
  · exact (wellFormed.costOf_iff tag cost).mpr (wellFormed.popped_mem popped)
  · apply wellFormed.costOf_update (wellFormed.pop popped).1
    intro item
    rw [wellFormed.mem_popped popped]
    simp

/-- A popped node costs no more than any other. -/
theorem WellFormed.popped_minimal [LT W] (preserving : ∀ first second : W,
      first < second → intoOrd first < intoOrd second)
    {frontier rest : Frontier T W} (wellFormed : frontier.WellFormed) {item : T × W}
    (popped : frontier.pop = some (item, rest)) {other : T × W}
    (waits : other ∈ frontier.queue) : ¬ other.2 < item.2 := by
  intro less
  obtain ⟨_, whole⟩ := wellFormed.pop popped
  have ordered := wellFormed.sorted
  rw [whole] at ordered waits
  obtain listed | last := List.mem_append.mp waits
  · have below := (List.pairwise_append.mp ordered).2.2 other listed _ (List.mem_singleton_self _)
    rw [keyFn, keyFn, Prod.Lex.toLex_lt_toLex] at below
    obtain higher | ⟨same, _⟩ := below
    · exact lt_asymm higher (preserving _ _ less)
    · exact absurd (congrArg OrderDual.ofDual same) (preserving _ _ less).ne
  · rw [List.mem_singleton.mp last] at less
    exact lt_irrefl _ (preserving _ _ less)

variable [LT W] [DecidableLT W]

/-- Offering a node at a cost: whether the node is new at this cost, and the costs afterwards.

Proof: by whether the offer was taken. The cost kept is the lower one, which is the new one
exactly when the item was replaced. -/
theorem WellFormed.costOf_offered {frontier : Frontier T W} (wellFormed : frontier.WellFormed)
    (tag : T) (newCost : W) :
    ∃ next, frontier.tryInsertOrDecreaseCost (ε := ε) tag newCost =
        .ok ((frontier.costOf tag).all (fun old => newCost < old), next) ∧
      next.WellFormed ∧ next.costOf =
        Function.update frontier.costOf tag (some (lowerCost (frontier.costOf tag) newCost)) := by
  obtain ⟨updated, next, offered, nextWellFormed, taken, refused⟩ :=
    wellFormed.tryInsertOrDecreaseCost (ε := ε) tag newCost
  refine ⟨next, ?_⟩
  cases updated with
  | true =>
    obtain ⟨better, items⟩ := taken rfl
    have lower : (frontier.costOf tag).all (fun old => newCost < old) = true := by
      cases known : frontier.costOf tag with
      | none => rfl
      | some old => exact decide_eq_true (better old ((wellFormed.costOf_iff tag old).mp known))
    have chosen : lowerCost (frontier.costOf tag) newCost = newCost := by
      cases known : frontier.costOf tag with
      | none => rfl
      | some old => exact if_pos (better old ((wellFormed.costOf_iff tag old).mp known))
    refine ⟨by rw [lower, offered], nextWellFormed, ?_⟩
    rw [chosen]
    apply wellFormed.costOf_update nextWellFormed
    rintro ⟨other, cost⟩
    rw [items, Prod.mk.injEq, Option.some_inj, eq_comm (a := cost)]
  | false =>
    obtain ⟨rfl, old, waits, higher⟩ := refused rfl
    have known := (wellFormed.costOf_iff tag old).mpr waits
    have kept : lowerCost (some old) newCost = old := if_neg higher
    refine ⟨by rw [known, Option.all_some, decide_eq_false higher, offered], wellFormed, ?_⟩
    rw [known, kept, ← known, Function.update_eq_self]

/-- A frontier that the calls reach is well formed.

Proof: induction on how the frontier is reached, with the specification of each call. -/
theorem wellFormed_of_reached {calls : List (Call T W)} {frontier : Frontier T W}
    (reached : (machine T W).Reached calls frontier) : frontier.WellFormed := by
  apply Machine.System.reached_induction WellFormed wellFormed_new _ reached
  intro state event next taken wellFormed
  have possible : state.call event = some next := taken.possible
  cases event with
  | pop =>
    rw [call] at possible
    cases popped : state.pop with
    | none =>
      rw [popped] at possible
      cases possible
      exact wellFormed
    | some taken =>
      rw [popped] at possible
      cases possible
      exact (wellFormed.pop popped).1
  | tryInsertOrDecreaseCost tag newCost =>
    obtain ⟨after, offered, afterWellFormed, _⟩ :=
      wellFormed.costOf_offered (ε := PEmpty) tag newCost
    rw [call, offered] at possible
    cases possible
    exact afterWellFormed
  | push tag weight =>
    rw [call] at possible
    split at possible
    · cases possible
    · next fresh =>
      cases possible
      exact wellFormed.push fresh weight

/-- In every state that calls reach, the queue is sorted and indexed, popping takes a node
of least cost, and an offer stores the lower cost and changes no other node.

Proof: the invariant of the frontier is kept by each of its operations, and what an offer does to
the costs is read off the queue before and after. -/
theorem frontier_priority_map (preserving : ∀ first second : W,
      first < second → intoOrd first < intoOrd second)
    {calls : List (Call T W)} {frontier : Frontier T W}
    (reached : (machine T W).Reached calls frontier) :
    frontier.queue.Pairwise (fun first second => intoOrd second.2 < intoOrd first.2 ∨
      intoOrd first.2 = intoOrd second.2 ∧ first.1 < second.1) ∧
    (∀ tag position, frontier.index.lookup tag = some position ↔
      ∃ cost, frontier.queue[position]? = some (tag, cost)) ∧
    (∀ tag cost, frontier.costOf tag = some cost ↔ (tag, cost) ∈ frontier.queue) ∧
    (frontier.pop = none ↔ frontier.queue = []) ∧
    (∀ tag cost rest, frontier.pop = some ((tag, cost), rest) →
      frontier.costOf tag = some cost ∧
      (∀ other higher, frontier.costOf other = some higher → ¬ higher < cost) ∧
      rest.costOf = Function.update frontier.costOf tag none) ∧
    (∀ tag newCost, ∃ next, frontier.tryInsertOrDecreaseCost (ε := ε) tag newCost =
        .ok ((frontier.costOf tag).all (fun old => newCost < old), next) ∧
      next.costOf =
        Function.update frontier.costOf tag (some (lowerCost (frontier.costOf tag) newCost))) ∧
    ∀ tag weight, frontier.costOf tag = none →
      (frontier.push tag weight).costOf = Function.update frontier.costOf tag (some weight) := by
  have wellFormed := wellFormed_of_reached reached
  refine ⟨?sorted, wellFormed.lookup_iff, wellFormed.costOf_iff, pop_eq_none_iff frontier,
    ?popped, ?offered, ?pushed⟩
  case sorted =>
    apply wellFormed.sorted.imp
    intro first second before
    rw [keyFn, keyFn, Prod.Lex.toLex_lt_toLex] at before
    exact before
  case popped =>
    intro tag cost rest popped
    obtain ⟨held, removed⟩ := wellFormed.costOf_pop popped
    refine ⟨held, ?_, removed⟩
    intro other higher known
    exact wellFormed.popped_minimal preserving popped ((wellFormed.costOf_iff _ _).mp known)
  case offered =>
    intro tag newCost
    obtain ⟨next, offered, _, costs⟩ := wellFormed.costOf_offered (ε := ε) tag newCost
    exact ⟨next, offered, costs⟩
  case pushed =>
    intro tag weight absent
    exact wellFormed.costOf_push ((wellFormed.costOf_none_iff tag).mp absent) weight

namespace Sample

def one : Double := ⟨0x3FF0000000000000#64, by decide⟩
def two : Double := ⟨0x4000000000000000#64, by decide⟩
def three : Double := ⟨0x4008000000000000#64, by decide⟩

/-- Three nodes wait, the cheapest at the end of the queue. -/
def waiting : Frontier Nat Double := ((new.push 7 three).push 8 two).push 9 one

end Sample

/-- Lowering the cost of a node from three to one moves it past a cheaper one, and the nodes that
it passes move on. -/
theorem frontier_priority_map_lowered :
    ∃ next, Sample.waiting.tryInsertOrDecreaseCost (ε := PEmpty) 7 Sample.one = .ok (true, next) ∧
      next.costOf = Function.update Sample.waiting.costOf 7 (some Sample.one) := by
  have reached : (machine Nat Double).Reached
      [.push 7 Sample.three, .push 8 Sample.two, .push 9 Sample.one] Sample.waiting :=
    Machine.System.reached_of_run rfl
  obtain ⟨_, _, _, _, _, offered, _⟩ :=
    frontier_priority_map (ε := PEmpty) (fun _ _ => intoOrd_lt_of_lt) reached
  obtain ⟨next, answered, costs⟩ := offered 7 Sample.one
  have lower : (Sample.waiting.costOf 7).all (fun old => Sample.one < old) = true := by
    decide +kernel
  have chosen : lowerCost (Sample.waiting.costOf 7) Sample.one = Sample.one := by
    decide +kernel
  rw [lower] at answered
  rw [chosen] at costs
  exact ⟨next, answered, costs⟩

end Frontier

end RouteServer.Pathsearch
