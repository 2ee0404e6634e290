import Mathlib.Order.Lattice

/-!
# Ordered maps as sorted association lists

A B-tree map iterates its entries in increasing order of their keys, and no two
entries share a key. Its observable content is therefore a strictly sorted list.
Insertion replaces the value of a present key and otherwise keeps the order.
-/

namespace Rust.OrderedMap

universe u v
variable {κ : Type u} {ν : Type v} [LinearOrder κ]

/-- Keys strictly increase along the list. -/
def Sorted (entries : List (κ × ν)) : Prop := entries.Pairwise (fun left right => left.1 < right.1)

/-- `BTreeMap::insert`. -/
def insert (key : κ) (value : ν) : List (κ × ν) → List (κ × ν)
  | [] => [(key, value)]
  | (present, old) :: rest =>
    if key < present then (key, value) :: (present, old) :: rest
    else if key = present then (present, value) :: rest
    else (present, old) :: insert key value rest

/-- `get`. -/
def get (key : κ) : List (κ × ν) → Option ν
  | [] => none
  | (present, value) :: rest => if key = present then some value else get key rest

/-- `entry(key).or_default().push(value)`, in a map of lists. -/
def push (key : κ) (value : ν) (entries : List (κ × List ν)) : List (κ × List ν) :=
  insert key ((get key entries).getD [] ++ [value]) entries

/-- A key above all present keys goes to the end. -/
theorem insert_last (key : κ) (value : ν) (entries : List (κ × ν))
    (above : ∀ entry ∈ entries, entry.1 < key) :
    insert key value entries = entries ++ [(key, value)] := by
  induction entries with
  | nil => rfl
  | cons entry rest inductionHypothesis =>
    obtain ⟨present, old⟩ := entry
    have greater : present < key := above (present, old) List.mem_cons_self
    have others : ∀ entry ∈ rest, entry.1 < key :=
      fun entry member => above entry (List.mem_cons_of_mem _ member)
    rw [insert, if_neg (not_lt_of_gt greater), if_neg (ne_of_gt greater),
      inductionHypothesis others, List.cons_append]

/-- What was inserted is found. -/
theorem get_insert (key : κ) (value : ν) (entries : List (κ × ν)) :
    get key (insert key value entries) = some value := by
  induction entries with
  | nil => exact if_pos rfl
  | cons head rest inductionHypothesis =>
    obtain ⟨present, old⟩ := head
    rw [insert]
    split_ifs with before same
    · exact if_pos rfl
    · exact if_pos same
    · rw [get, if_neg same, inductionHypothesis]

/-- Under other keys the same is found as before. -/
theorem get_insert_ne {key other : κ} (different : key ≠ other) (value : ν)
    (entries : List (κ × ν)) : get key (insert other value entries) = get key entries := by
  induction entries with
  | nil => exact if_neg different
  | cons head rest inductionHypothesis =>
    obtain ⟨present, old⟩ := head
    rw [insert]
    split_ifs with before same
    · rw [get, if_neg different]
    · rw [get, get, if_neg (same ▸ different), if_neg (same ▸ different)]
    · rw [get, get, inductionHypothesis]

/-- Every entry of the result was present or is the inserted one. -/
theorem mem_insert (key : κ) (value : ν) (entries : List (κ × ν)) (entry : κ × ν)
    (member : entry ∈ insert key value entries) : entry = (key, value) ∨ entry ∈ entries := by
  induction entries with
  | nil =>
    rw [insert, List.mem_singleton] at member
    exact Or.inl member
  | cons head rest inductionHypothesis =>
    obtain ⟨present, old⟩ := head
    rw [insert] at member
    split at member
    · exact List.mem_cons.mp member
    · split at member
      · next same =>
        subst same
        rcases List.mem_cons.mp member with rfl | member
        · exact Or.inl rfl
        · exact Or.inr (List.mem_cons_of_mem _ member)
      · rcases List.mem_cons.mp member with rfl | member
        · exact Or.inr List.mem_cons_self
        · exact (inductionHypothesis member).imp_right (List.mem_cons_of_mem _)

/-- Insertion keeps the order. -/
theorem insert_sorted (key : κ) (value : ν) (entries : List (κ × ν)) (sorted : Sorted entries) :
    Sorted (insert key value entries) := by
  induction entries with
  | nil => exact List.pairwise_singleton _ _
  | cons head rest inductionHypothesis =>
    obtain ⟨present, old⟩ := head
    obtain ⟨least, restSorted⟩ := List.pairwise_cons.mp sorted
    rw [insert]
    split
    · next before =>
      apply List.pairwise_cons.mpr ⟨?_, sorted⟩
      intro entry member
      rcases List.mem_cons.mp member with rfl | member
      · exact before
      · exact lt_trans before (least entry member)
    · next notBefore =>
      split
      · exact List.pairwise_cons.mpr ⟨least, restSorted⟩
      · next different =>
        apply List.pairwise_cons.mpr ⟨?_, inductionHypothesis restSorted⟩
        intro entry member
        have after : present < key := lt_of_le_of_ne (not_lt.mp notBefore) (Ne.symm different)
        rcases mem_insert key value rest entry member with rfl | inside
        · exact after
        · exact least entry inside

end Rust.OrderedMap
