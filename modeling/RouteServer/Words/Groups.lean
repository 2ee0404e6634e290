import Mathlib.Algebra.Group.Nat.Defs
import Mathlib.Tactic.Ring

/-!
# Groups of bits

A number is cut into groups of a fixed size by shifting it, the highest group first, and put
together again by shifting the groups back. Cutting and joining are inverse to each other as
long as the number has no more bits than the groups and no group is too large.
-/

namespace Words

/-- How far each group is shifted, the highest group first. -/
def groupShifts (size : Nat) : Nat → List Nat
  | 0 => []
  | count + 1 => size * count :: groupShifts size count

/-- Groups put together behind what is there already. -/
def joinGroups (size : Nat) (word : Nat) (groups : List Nat) : Nat :=
  groups.foldl (fun word group => word * 2 ^ size + group) word

/-- With no groups a word is left as it is. -/
@[simp] theorem joinGroups_nil (size word : Nat) : joinGroups size word [] = word := rfl

/-- A group is put behind the word. -/
@[simp] theorem joinGroups_cons (size word group : Nat) (groups : List Nat) :
    joinGroups size word (group :: groups) =
      joinGroups size (word * 2 ^ size + group) groups := rfl

/-- There is one shift for each group. -/
theorem length_groupShifts (size count : Nat) : (groupShifts size count).length = count := by
  induction count with
  | zero => rfl
  | succ count inductionHypothesis =>
    rw [groupShifts, List.length_cons, inductionHypothesis]

/-- What is in front of joined groups stands above all of them. -/
theorem joinGroups_div {size : Nat} (word : Nat) {groups : List Nat}
    (small : ∀ group ∈ groups, group < 2 ^ size) :
    joinGroups size word groups / 2 ^ (size * groups.length) = word := by
  induction groups generalizing word with
  | nil => simp
  | cons group groups inductionHypothesis =>
    obtain ⟨first, others⟩ := List.forall_mem_cons.mp small
    rw [joinGroups_cons, List.length_cons, Nat.mul_succ, Nat.pow_add, ← Nat.div_div_eq_div_mul,
      inductionHypothesis _ others, Nat.mul_comm, Nat.mul_add_div (Nat.two_pow_pos size),
      Nat.div_eq_of_lt first, Nat.add_zero]

/-- Cutting what was joined gives the groups. -/
theorem cut_joinGroups {size : Nat} (word : Nat) {groups : List Nat}
    (small : ∀ group ∈ groups, group < 2 ^ size) :
    (groupShifts size groups.length).map
      (fun shift => joinGroups size word groups >>> shift % 2 ^ size) = groups := by
  induction groups generalizing word with
  | nil => rfl
  | cons group groups inductionHypothesis =>
    obtain ⟨first, others⟩ := List.forall_mem_cons.mp small
    rw [joinGroups_cons, List.length_cons, groupShifts, List.map_cons,
      inductionHypothesis _ others, Nat.shiftRight_eq_div_pow, joinGroups_div _ others,
      Nat.mul_comm, Nat.mul_add_mod, Nat.mod_eq_of_lt first]

/-- Joining what was cut gives the bits of the groups. -/
theorem joinGroups_cut (size word bits count : Nat) :
    joinGroups size word ((groupShifts size count).map (fun shift => bits >>> shift % 2 ^ size)) =
      word * 2 ^ (size * count) + bits % 2 ^ (size * count) := by
  induction count generalizing word with
  | zero => simp [groupShifts, Nat.mod_one]
  | succ count inductionHypothesis =>
    have above : bits % 2 ^ (size * (count + 1)) =
        bits % 2 ^ (size * count) +
          2 ^ (size * count) * (bits / 2 ^ (size * count) % 2 ^ size) := by
      rw [Nat.mul_succ, Nat.pow_add, Nat.mod_mul]
    rw [groupShifts, List.map_cons, joinGroups_cons, inductionHypothesis, above,
      Nat.shiftRight_eq_div_pow, Nat.mul_succ, Nat.pow_add]
    ring

/-- Joined groups have no more bits than the groups. -/
theorem joinGroups_lt {size : Nat} {groups : List Nat}
    (small : ∀ group ∈ groups, group < 2 ^ size) :
    joinGroups size 0 groups < 2 ^ (size * groups.length) := by
  have front := joinGroups_div 0 small
  exact (Nat.div_eq_zero_iff_lt (Nat.two_pow_pos _)).mp front

/-- Groups join to zero when all of them are zero. -/
theorem joinGroups_eq_zero_iff {size : Nat} {groups : List Nat}
    (small : ∀ group ∈ groups, group < 2 ^ size) :
    joinGroups size 0 groups = 0 ↔ ∀ group ∈ groups, group = 0 := by
  constructor
  · intro zero group listed
    have cut := cut_joinGroups 0 small
    rw [zero] at cut
    rw [← cut] at listed
    obtain ⟨shift, _, rfl⟩ := List.mem_map.mp listed
    rw [Nat.zero_shiftRight, Nat.zero_mod]
  · intro zero
    clear small
    induction groups with
    | nil => rfl
    | cons group groups inductionHypothesis =>
      obtain ⟨rfl, others⟩ := List.forall_mem_cons.mp zero
      rw [joinGroups_cons, Nat.zero_mul, Nat.add_zero]
      exact inductionHypothesis others

/-- A group shifted behind a number that leaves room for it. -/
theorem shiftLeft_or_group {size : Nat} (word count : Nat) {group : Nat}
    (small : group < 2 ^ size) :
    word <<< (size * (count + 1)) ||| group <<< (size * count) =
      (word * 2 ^ size + group) <<< (size * count) := by
  rw [Nat.mul_succ, Nat.add_comm, Nat.shiftLeft_add, ← Nat.shiftLeft_or_distrib,
    ← Nat.shiftLeft_add_eq_or_of_lt small, Nat.shiftLeft_eq word size]

end Words
