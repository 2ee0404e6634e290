import Mathlib.Data.List.AList

/-!
# Hash maps

A hash map is an association list without duplicate keys. The order of its entries
stands for the order of iteration, which nothing may rely on: the laws here speak of
lookups only.
-/

namespace Rust.HashMap

universe u v
variable {κ : Type u} {ν : κ → Type v} [DecidableEq κ]

/-- `HashMap::retain`. -/
def retain (keep : ∀ key, ν key → Bool) (map : AList ν) : AList ν :=
  ⟨map.entries.filter (fun entry => keep entry.1 entry.2),
    map.nodupKeys.sublist List.filter_sublist⟩

/-- `HashMap::get_mut` and an assignment through it. -/
def modify (key : κ) (change : ν key → ν key) (map : AList ν) : AList ν :=
  match map.lookup key with
  | some value => map.insert key (change value)
  | none => map

/-- `HashMap::iter_mut` and an assignment to every value. -/
def mapValues (change : ∀ key, ν key → ν key) (map : AList ν) : AList ν :=
  ⟨map.entries.map (fun entry => ⟨entry.1, change entry.1 entry.2⟩), by
    have unchanged : (map.entries.map (fun entry => (⟨entry.1, change entry.1 entry.2⟩ :
        Sigma ν))).keys = map.entries.keys := by
      rw [List.keys, List.map_map]
      rfl
    rw [List.NodupKeys, unchanged]
    exact map.nodupKeys⟩

/-- The entries of a map are what lookups find. -/
theorem mem_entries_iff (map : AList ν) (key : κ) (value : ν key) :
    ⟨key, value⟩ ∈ map.entries ↔ map.lookup key = some value :=
  (List.mem_dlookup_iff map.nodupKeys).symm

/-- What is found after a sweep was found before and is to be kept. -/
theorem lookup_retain (keep : ∀ key, ν key → Bool) (map : AList ν) (key : κ) (value : ν key) :
    (retain keep map).lookup key = some value ↔
      map.lookup key = some value ∧ keep key value = true := by
  rw [← mem_entries_iff, ← mem_entries_iff]
  exact List.mem_filter

/-- Changing all values changes the one that is found. -/
theorem lookup_mapValues (change : ∀ key, ν key → ν key) (map : AList ν) (key : κ) :
    (mapValues change map).lookup key = (map.lookup key).map (fun old => change key old) := by
  ext value
  rw [← mem_entries_iff, Option.map_eq_some_iff]
  constructor
  · intro listed
    obtain ⟨⟨other, old⟩, found, same⟩ := List.mem_map.mp listed
    cases same
    exact ⟨old, (mem_entries_iff map other old).mp found, rfl⟩
  · rintro ⟨old, found, rfl⟩
    exact List.mem_map_of_mem ((mem_entries_iff map key old).mpr found)

/-- A modified value is the changed one. -/
theorem lookup_modify_self (map : AList ν) (key : κ) (change : ν key → ν key) :
    (modify key change map).lookup key = (map.lookup key).map change := by
  rw [modify]
  split
  · next value found => rw [AList.lookup_insert, found, Option.map_some]
  · next missing => rw [missing, Option.map_none]

/-- Other values stay as they are. -/
theorem lookup_modify_ne (map : AList ν) {key other : κ} (different : other ≠ key)
    (change : ν key → ν key) : (modify key change map).lookup other = map.lookup other := by
  rw [modify]
  split
  · exact AList.lookup_insert_ne different
  · rfl

end Rust.HashMap
