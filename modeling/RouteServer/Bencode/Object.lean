import Mathlib.Algebra.Group.Nat.Defs
import Mathlib.Data.List.Lex
import Mathlib.Order.Basic
import RouteServer.Rust.OrderedMap

/-!
# Bencode objects

An object is a byte string, a dictionary, a 64-bit signed integer or a list. A
dictionary is an ordered map: its entries are strictly sorted by key, bytes
compared lexicographically. The order is stated on the whole tree and carried by
`OrderedObject`, whose values are exactly the objects a program can hold.
-/

namespace RouteServer.Bencode

open Rust

/-- Bytes of a string or a key. No allocation exceeds `isize::MAX` bytes. -/
structure Bstr where
  bytes : List UInt8
  fits : bytes.length < 2 ^ 63
deriving DecidableEq

/-- Keys with the same numbers are the same: a byte is given by its number. -/
theorem Bstr.numbers_injective :
    Function.Injective (fun key : Bstr => key.bytes.map UInt8.toNat) := by
  intro left right same
  have bytes : left.bytes = right.bytes :=
    List.map_injective_iff.mpr (fun _ _ equal => UInt8.toNat_inj.mp equal) same
  cases left
  cases right
  cases bytes
  rfl

instance : LinearOrder Bstr :=
  LinearOrder.lift' (fun key : Bstr => key.bytes.map UInt8.toNat) Bstr.numbers_injective

/-- A bencoded value. Dictionary entries stand in iteration order. -/
inductive Object where
  | bytes (content : Bstr)
  | dict (entries : List (Bstr × Object))
  | integer (number : Int64)
  | list (items : List Object)

/-- Every dictionary of the tree is sorted. -/
inductive Object.Ordered : Object → Prop where
  | bytes (content : Bstr) : Object.Ordered (.bytes content)
  | integer (number : Int64) : Object.Ordered (.integer number)
  | list (items : List Object) (each : ∀ item ∈ items, Object.Ordered item) :
      Object.Ordered (.list items)
  | dict (entries : List (Bstr × Object)) (sorted : OrderedMap.Sorted entries)
      (each : ∀ entry ∈ entries, Object.Ordered entry.2) : Object.Ordered (.dict entries)

/-- An object together with the order of its dictionaries. -/
structure OrderedObject where
  object : Object
  ordered : object.Ordered

mutual

/-- Levels of nesting. Keys add none, and an empty container is one level. -/
def Object.nesting : Object → Nat
  | .bytes _ => 1
  | .dict entries => 1 + nestingEntries entries
  | .integer _ => 1
  | .list items => 1 + nestingItems items

/-- The deepest item of a list. -/
def nestingItems : List Object → Nat
  | [] => 0
  | item :: rest => max item.nesting (nestingItems rest)

/-- The deepest value of a dictionary. -/
def nestingEntries : List (Bstr × Object) → Nat
  | [] => 0
  | (_, value) :: rest => max value.nesting (nestingEntries rest)

end

mutual

/-- The integers of an object, in the order of its bytes. -/
def Object.integers : Object → List Int64
  | .bytes _ => []
  | .dict entries => entriesIntegers entries
  | .integer number => [number]
  | .list items => itemsIntegers items

/-- The integers of a list. -/
def itemsIntegers : List Object → List Int64
  | [] => []
  | item :: rest => item.integers ++ itemsIntegers rest

/-- The integers of a dictionary. -/
def entriesIntegers : List (Bstr × Object) → List Int64
  | [] => []
  | (_, value) :: rest => value.integers ++ entriesIntegers rest

end

/-- Induction over the tree: a container may assume the property of every item. -/
theorem Object.tree_induction {holds : Object → Prop}
    (bytes : ∀ content, holds (.bytes content))
    (dict : ∀ entries, (∀ entry ∈ entries, holds entry.2) → holds (.dict entries))
    (integer : ∀ number, holds (.integer number))
    (list : ∀ items, (∀ item ∈ items, holds item) → holds (.list items)) :
    ∀ object, holds object := by
  intro object
  refine Object.rec (motive_1 := holds)
    (motive_2 := fun entries => ∀ entry ∈ entries, holds entry.2)
    (motive_3 := fun items => ∀ item ∈ items, holds item) (motive_4 := fun entry => holds entry.2)
    bytes dict integer list ?_ ?_ ?_ ?_ ?_ object
  · simp
  · intro entry rest first others
    exact List.forall_mem_cons.mpr ⟨first, others⟩
  · simp
  · intro item rest first others
    exact List.forall_mem_cons.mpr ⟨first, others⟩
  · intro _ _ holds
    exact holds

end RouteServer.Bencode
