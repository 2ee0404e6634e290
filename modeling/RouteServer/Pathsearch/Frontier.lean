import Mathlib.Data.Prod.Lex
import Mathlib.Data.List.TakeWhile
import Mathlib.Order.Monotone.Basic
import RouteServer.Rust.Outcome
import RouteServer.Rust.PositionIndex

/-!
# The frontier of the path search

The frontier is a vector sorted by cost in descending order, so that the item with the
lowest cost is the last, and a hash map that gives the position of each node in it. A
new item is inserted where the order wants it, and the positions behind it are
corrected; lowering a cost removes the old item and inserts a new one. The vector is
indexed and positions are decremented under the checks of the language, and the laws
here say that on a well formed frontier no check fails.
-/

namespace RouteServer.Pathsearch

open Rust Rust.PositionIndex

universe u v

/-- The trait `IntoOrd`: a substitute type used instead of the weights for ordering purposes. -/
class IntoOrd (W : Type u) (Output : outParam (Type v)) where
  intoOrd : W → Output

export IntoOrd (intoOrd)

/-- Running a loop ends with this error when it needs more turns than it is given. -/
inductive OutOfFuel : Type u where
  | outOfFuel
deriving DecidableEq

/-- `Frontier`, its vector in the order of the positions. -/
structure Frontier (T W : Type u) where
  queue : List (T × W)
  index : AList (fun _ : T => Nat)

namespace Frontier

variable {ε T W : Type u} {O : Type v}

/-- `Frontier::new`. -/
def new : Frontier T W := ⟨[], ∅⟩

/-- `key_fn`: sorts by cost in descending order, then by tag. -/
def keyFn [IntoOrd W O] (item : T × W) : Lex (OrderDual O × T) :=
  toLex (OrderDual.toDual (intoOrd item.2), item.1)

/-- Items with one key are items of one node. -/
theorem tag_eq_of_keyFn_eq [IntoOrd W O] {first second : T × W}
    (same : keyFn first = keyFn second) : first.1 = second.1 :=
  congrArg (fun key => (ofLex key).2) same

variable [LinearOrder T]

/-- The loop that decrements positions: a position of zero cannot be decremented. -/
def decrementFrom (start : Nat) (index : AList (fun _ : T => Nat)) :
    Outcome ε (AList (fun _ : T => Nat)) :=
  if index.entries.all (fun entry => ¬ (start ≤ entry.2 ∧ entry.2 = 0)) then
    .ok (shiftDown start index)
  else .panicked

variable [LinearOrder O] [IntoOrd W O]

/-- `insertion_pos`: a binary search by key. No two items of a frontier have the same
key, so there is one position that keeps the order. -/
def insertionPos (queue : List (T × W)) (item : T × W) : Nat :=
  (queue.takeWhile (fun other => keyFn other < keyFn item)).length

/-- `push`. -/
def push (frontier : Frontier T W) (tag : T) (weight : W) : Frontier T W :=
  let position := insertionPos frontier.queue (tag, weight)
  { queue := frontier.queue.insertIdx position (tag, weight)
    index := (shiftUp position frontier.index).insert tag position }

/-- `pop`. -/
def pop (frontier : Frontier T W) : Option ((T × W) × Frontier T W) :=
  match frontier.queue.getLast? with
  | some item => some (item, ⟨frontier.queue.dropLast, frontier.index.erase item.1⟩)
  | none => none

/-- `try_insert_or_decrease_cost`, with the frontier as it is afterwards. -/
def tryInsertOrDecreaseCost [LT W] [DecidableLT W] (frontier : Frontier T W) (tag : T)
    (newCost : W) : Outcome ε (Bool × Frontier T W) :=
  match frontier.index.lookup tag with
  | some position =>
    match frontier.queue[position]? with
    | some item =>
      if newCost < item.2 then do
        let lowered ← decrementFrom position (frontier.index.erase tag)
        return (true, push ⟨frontier.queue.eraseIdx position, lowered⟩ tag newCost)
      else .ok (false, frontier)
    | none => .panicked
  | none => .ok (true, push frontier tag newCost)

/-- The queue is sorted by key and the index gives the position of each node. -/
structure WellFormed (frontier : Frontier T W) : Prop where
  sorted : frontier.queue.Pairwise (fun first second => keyFn first < keyFn second)
  indexed : Indexes frontier.index (frontier.queue.map Prod.fst)

/-- An empty frontier is in order and indexed. -/
theorem wellFormed_new : (new : Frontier T W).WellFormed where
  sorted := List.Pairwise.nil
  indexed := indexes_nil

/-- An item is inserted within the queue or at its end. -/
theorem insertionPos_le (queue : List (T × W)) (item : T × W) :
    insertionPos queue item ≤ queue.length :=
  (List.takeWhile_prefix _).length_le

/-- A new item is inserted where the order wants it. -/
theorem sorted_insert {queue : List (T × W)} {item : T × W}
    (sorted : queue.Pairwise (fun first second => keyFn first < keyFn second))
    (fresh : item.1 ∉ queue.map Prod.fst) :
    (queue.insertIdx (insertionPos queue item) item).Pairwise
      (fun first second => keyFn first < keyFn second) := by
  induction queue with
  | nil => exact List.pairwise_singleton _ _
  | cons head rest inductionHypothesis =>
    obtain ⟨lowest, restSorted⟩ := List.pairwise_cons.mp sorted
    have different : item.1 ≠ head.1 := List.ne_of_not_mem_cons fresh
    have restFresh : item.1 ∉ rest.map Prod.fst := List.not_mem_of_not_mem_cons fresh
    by_cases below : keyFn head < keyFn item
    · have position : insertionPos (head :: rest) item = insertionPos rest item + 1 := by
        simp [insertionPos, below]
      rw [position, List.insertIdx_succ_cons, List.pairwise_cons]
      refine ⟨fun other listed => ?_, inductionHypothesis restSorted restFresh⟩
      obtain rfl | listed := (List.mem_insertIdx (insertionPos_le rest item)).mp listed
      · exact below
      · exact lowest other listed
    · have position : insertionPos (head :: rest) item = 0 := by
        simp [insertionPos, below]
      have above : keyFn item < keyFn head :=
        lt_of_le_of_ne (not_lt.mp below) (fun same => different (tag_eq_of_keyFn_eq same))
      rw [position, List.insertIdx_zero, List.pairwise_cons]
      refine ⟨fun other listed => ?_, sorted⟩
      obtain rfl | listed := List.mem_cons.mp listed
      · exact above
      · exact above.trans (lowest other listed)

/-- Pushing a node that the frontier does not hold. -/
theorem WellFormed.push {frontier : Frontier T W} (wellFormed : frontier.WellFormed) {tag : T}
    (fresh : tag ∉ frontier.queue.map Prod.fst) (weight : W) :
    (frontier.push tag weight).WellFormed := by
  have inside := insertionPos_le frontier.queue (tag, weight)
  constructor
  · exact sorted_insert wellFormed.sorted fresh
  · rw [Frontier.push, List.map_insertIdx]
    exact wellFormed.indexed.insert (by rwa [List.length_map]) fresh

/-- What waits after a push is the new item and what waited before. -/
theorem mem_push (frontier : Frontier T W) (tag : T) (weight : W) (item : T × W) :
    item ∈ (frontier.push tag weight).queue ↔ item = (tag, weight) ∨ item ∈ frontier.queue :=
  List.mem_insertIdx (insertionPos_le frontier.queue (tag, weight))

/-- A node has one cost on the frontier. -/
theorem WellFormed.cost_unique {frontier : Frontier T W} (wellFormed : frontier.WellFormed)
    {tag : T} {first second : W} (firstWaits : (tag, first) ∈ frontier.queue)
    (secondWaits : (tag, second) ∈ frontier.queue) : first = second := by
  obtain ⟨i, atFirst⟩ := List.mem_iff_getElem?.mp firstWaits
  obtain ⟨j, atSecond⟩ := List.mem_iff_getElem?.mp secondWaits
  have same : i = j := wellFormed.indexed.unique
    (by rw [List.getElem?_map, atFirst]; rfl) (by rw [List.getElem?_map, atSecond]; rfl)
  subst same
  rw [atFirst] at atSecond
  exact congrArg Prod.snd (Option.some.inj atSecond)

/-- Nothing is popped exactly when nothing waits. -/
theorem pop_eq_none_iff (frontier : Frontier T W) : frontier.pop = none ↔ frontier.queue = [] := by
  rw [pop, ← List.getLast?_eq_none_iff]
  cases frontier.queue.getLast? <;> simp

/-- Popping takes away the last item. -/
theorem WellFormed.pop {frontier rest : Frontier T W} (wellFormed : frontier.WellFormed)
    {item : T × W} (popped : frontier.pop = some (item, rest)) :
    rest.WellFormed ∧ frontier.queue = rest.queue ++ [item] := by
  rw [Frontier.pop] at popped
  split at popped
  · next last found =>
    cases popped
    obtain ⟨front, whole⟩ := List.getLast?_eq_some_iff.mp found
    have split : frontier.queue.dropLast = front := by rw [whole, List.dropLast_concat]
    have indexed := wellFormed.indexed
    rw [whole, List.map_append] at indexed
    refine ⟨⟨wellFormed.sorted.sublist (List.dropLast_sublist _), ?_⟩, ?_⟩
    · simp only [split]
      exact indexed.pop
    · simp only [split]
      exact whole
  · cases popped

/-- What is popped was waiting. -/
theorem WellFormed.popped_mem {frontier rest : Frontier T W} (wellFormed : frontier.WellFormed)
    {item : T × W} (popped : frontier.pop = some (item, rest)) : item ∈ frontier.queue := by
  rw [(wellFormed.pop popped).2]
  exact List.mem_append_right _ (List.mem_singleton_self item)

/-- What a popped frontier still holds is the items of the other nodes. -/
theorem WellFormed.mem_popped {frontier rest : Frontier T W} (wellFormed : frontier.WellFormed)
    {tag : T} {cost : W} (popped : frontier.pop = some ((tag, cost), rest)) (item : T × W) :
    item ∈ rest.queue ↔ item.1 ≠ tag ∧ item ∈ frontier.queue := by
  obtain ⟨_, whole⟩ := wellFormed.pop popped
  have ordered := wellFormed.sorted
  rw [whole] at ordered ⊢
  constructor
  · intro listed
    have below := (List.pairwise_append.mp ordered).2.2 item listed _ (List.mem_singleton_self _)
    refine ⟨?_, List.mem_append_left _ listed⟩
    rintro rfl
    have waits : (item.1, item.2) ∈ frontier.queue := by
      rw [whole]
      exact List.mem_append_left _ listed
    rw [← wellFormed.cost_unique waits (wellFormed.popped_mem popped)] at below
    exact lt_irrefl _ below
  · rintro ⟨different, listed⟩
    obtain listed | last := List.mem_append.mp listed
    · exact listed
    · exact absurd (congrArg Prod.fst (List.mem_singleton.mp last)) different

/-- No item costs less than the popped one. -/
theorem WellFormed.popped_least [LinearOrder W] (preserving : StrictMono (intoOrd : W → O))
    {frontier rest : Frontier T W} (wellFormed : frontier.WellFormed) {tag : T} {cost : W}
    (popped : frontier.pop = some ((tag, cost), rest)) {other : T} {higher : W}
    (waits : (other, higher) ∈ frontier.queue) : cost ≤ higher := by
  obtain ⟨_, whole⟩ := wellFormed.pop popped
  have ordered := wellFormed.sorted
  rw [whole] at ordered waits
  obtain listed | last := List.mem_append.mp waits
  · have below := (List.pairwise_append.mp ordered).2.2 _ listed _ (List.mem_singleton_self _)
    rw [keyFn, keyFn, Prod.Lex.toLex_lt_toLex] at below
    obtain lower | ⟨same, _⟩ := below
    · exact (preserving.lt_iff_lt.mp lower).le
    · exact (preserving.injective (congrArg OrderDual.ofDual same)).ge
  · cases List.mem_singleton.mp last
    exact le_refl _

/-- What the index says of the queue. -/
theorem WellFormed.lookup_iff {frontier : Frontier T W} (wellFormed : frontier.WellFormed)
    (tag : T) (position : Nat) : frontier.index.lookup tag = some position ↔
      ∃ cost, frontier.queue[position]? = some (tag, cost) := by
  rw [wellFormed.indexed, List.getElem?_map, Option.map_eq_some_iff]
  constructor
  · rintro ⟨⟨_, cost⟩, held, rfl⟩
    exact ⟨cost, held⟩
  · rintro ⟨cost, held⟩
    exact ⟨_, held, rfl⟩

/-- The positions behind a removed item can be decremented. -/
theorem WellFormed.decrementFrom {frontier : Frontier T W} (wellFormed : frontier.WellFormed)
    {tag : T} {position : Nat} (found : frontier.index.lookup tag = some position) :
    (decrementFrom position (frontier.index.erase tag) : Outcome ε _) =
      .ok (shiftDown position (frontier.index.erase tag)) := by
  rw [Frontier.decrementFrom, if_pos]
  rw [List.all_eq_true]
  rintro ⟨other, old⟩ listed
  have held := (HashMap.mem_entries_iff (frontier.index.erase tag) other old).mp listed
  have different : other ≠ tag := by
    rintro rfl
    rw [AList.lookup_erase] at held
    cases held
  rw [AList.lookup_erase_ne different] at held
  refine decide_eq_true (fun (both : position ≤ old ∧ old = 0) => different ?_)
  have here : old = position := by omega
  rw [here, wellFormed.indexed] at held
  exact Option.some.inj (held.symm.trans ((wellFormed.indexed tag position).mp found))

/-- Removing an item by its position. -/
theorem WellFormed.erase {frontier : Frontier T W} (wellFormed : frontier.WellFormed)
    {tag : T} {position : Nat} (found : frontier.index.lookup tag = some position) :
    WellFormed ⟨frontier.queue.eraseIdx position,
      shiftDown position (frontier.index.erase tag)⟩ where
  sorted := wellFormed.sorted.sublist (List.eraseIdx_sublist _ _)
  indexed := by
    rw [← List.eraseIdx_map]
    exact wellFormed.indexed.erase ((wellFormed.indexed tag position).mp found)

/-- Erasing at the position of a tag takes the item of that tag and no other, since tags are waiting
once. -/
theorem WellFormed.mem_erased {frontier : Frontier T W} (wellFormed : frontier.WellFormed)
    {tag : T} {position : Nat} (found : frontier.index.lookup tag = some position)
    (item : T × W) : item ∈ frontier.queue.eraseIdx position ↔
      item.1 ≠ tag ∧ item ∈ frontier.queue := by
  obtain ⟨cost, held⟩ := (wellFormed.lookup_iff tag position).mp found
  rw [List.mem_eraseIdx_iff_getElem?, List.mem_iff_getElem?]
  constructor
  · rintro ⟨other, elsewhere, there⟩
    refine ⟨?_, other, there⟩
    rintro rfl
    have same := (wellFormed.lookup_iff item.1 other).mpr ⟨item.2, there⟩
    rw [found] at same
    exact elsewhere (Option.some.inj same).symm
  · rintro ⟨different, other, there⟩
    refine ⟨other, ?_, there⟩
    rintro rfl
    rw [there] at held
    exact different (congrArg Prod.fst (Option.some.inj held))

/-- Offering a node at a cost: it is taken exactly when it costs less than what the frontier
has for that node, and then replaces it.

Proof: by whether the node has a position. Without one it is pushed; with one its old item is
taken out before it is pushed again, or it stays if the cost is no lower. -/
theorem WellFormed.tryInsertOrDecreaseCost [LT W] [DecidableLT W] {frontier : Frontier T W}
    (wellFormed : frontier.WellFormed) (tag : T) (newCost : W) :
    ∃ updated next, frontier.tryInsertOrDecreaseCost (ε := ε) tag newCost = .ok (updated, next) ∧
      next.WellFormed ∧
      (updated = true → (∀ old, (tag, old) ∈ frontier.queue → newCost < old) ∧
        ∀ item, item ∈ next.queue ↔
          item = (tag, newCost) ∨ item.1 ≠ tag ∧ item ∈ frontier.queue) ∧
      (updated = false →
        next = frontier ∧ ∃ old, (tag, old) ∈ frontier.queue ∧ ¬ newCost < old) := by
  rw [Frontier.tryInsertOrDecreaseCost]
  cases found : frontier.index.lookup tag with
  | none =>
    have fresh : tag ∉ frontier.queue.map Prod.fst :=
      (wellFormed.indexed.missing_iff tag).mp found
    have absent : ∀ cost, (tag, cost) ∉ frontier.queue := fun cost listed =>
      fresh (List.mem_map_of_mem listed)
    refine ⟨true, _, rfl, wellFormed.push fresh newCost, fun _ => ⟨?_, ?_⟩, nofun⟩
    · exact fun old listed => absurd listed (absent old)
    · intro item
      rw [mem_push]
      refine or_congr_right (iff_and_self.mpr ?_)
      rintro listed rfl
      exact absent item.2 listed
  | some position =>
    obtain ⟨cost, held⟩ := (wellFormed.lookup_iff tag position).mp found
    have listed : (tag, cost) ∈ frontier.queue := List.mem_of_getElem? held
    simp only [held, wellFormed.decrementFrom found, Outcome.ok_bind, Outcome.pure_def]
    split
    · next lower =>
      have erased := wellFormed.erase found
      have fresh : tag ∉ (frontier.queue.eraseIdx position).map Prod.fst := by
        intro held
        obtain ⟨item, remains, same⟩ := List.mem_map.mp held
        exact ((wellFormed.mem_erased found item).mp remains).1 same
      refine ⟨true, _, rfl, erased.push fresh newCost, fun _ => ⟨?_, ?_⟩, nofun⟩
      · intro old waits
        rwa [wellFormed.cost_unique waits listed]
      · intro item
        rw [mem_push]
        exact or_congr_right (wellFormed.mem_erased found item)
    · next higher =>
      exact ⟨false, frontier, rfl, wellFormed, nofun,
        fun _ => ⟨rfl, cost, listed, higher⟩⟩

end Frontier

end RouteServer.Pathsearch
