import RouteServer.Bencode.Accepted

/-!
# The format and the parser

A stream derives an object if some prefix of it is a tree of the format that stands for
the object. The parser returns the derived objects, with two exceptions that both stand
in the stream: an integer that overflows before its sign is applied, and a dictionary
key without a length, which is no string of the format.
-/

namespace RouteServer.Bencode

/-- A prefix of the stream is a tree of the format, nested within the limit, that stands
for the object. -/
def Derives (maxRecursion : Nat) (input : List UInt8) (object : Object) : Prop :=
  ∃ (tree : Tree) (rest : List UInt8), Key.bare ∉ tree.keys ∧
    tree.levels ≤ maxRecursion + 1 ∧ input = tree.bytes ++ rest ∧ tree.object = object

/-- What the parser returns, by the tree at the front of the stream. -/
theorem parse_ok_iff (maxRecursion : Nat) (input rest : List UInt8) (object : Object) :
    parse ⟨maxRecursion, false⟩ input = .ok (object, rest) ↔
      ∃ tree : Tree, Int64.minValue ∉ tree.numbers ∧ tree.levels ≤ maxRecursion + 1 ∧
        input = tree.bytes ++ rest ∧ tree.object = object := by
  constructor
  · intro read
    obtain ⟨tree, rfl, rfl, room⟩ := (spelledUpTo ⟨maxRecursion, false⟩ input.length).generic
      0 input rest object (Or.inl rfl) (Nat.le_refl _) read
    have levels : tree.levels ≤ maxRecursion + 1 := by simpa using room
    refine ⟨tree, ?_, levels, rfl, rfl⟩
    intro least
    rw [parse, readGeneric_spelled _ tree 0 room, readBack, if_pos least] at read
    cases read
  · rintro ⟨tree, readable, levels, rfl, rfl⟩
    rw [parse, readGeneric_spelled ⟨maxRecursion, false⟩ tree 0 (by simpa using levels),
      readBack, if_neg readable]

/-- A tree with a bare key and without the least integer is returned. The stream derives
nothing then, since it has no other tree. -/
theorem returned_of_bare (maxRecursion : Nat) (tree : Tree) (rest : List UInt8)
    (levels : tree.levels ≤ maxRecursion + 1) (bare : Key.bare ∈ tree.keys)
    (readable : Int64.minValue ∉ tree.numbers) :
    parse ⟨maxRecursion, false⟩ (tree.bytes ++ rest) = .ok (tree.object, rest) ∧
      ∀ object, ¬ Derives maxRecursion (tree.bytes ++ rest) object := by
  refine ⟨(parse_ok_iff _ _ _ _).mpr ⟨tree, readable, levels, rfl, rfl⟩, ?_⟩
  rintro object ⟨other, otherRest, noBare, -, split, -⟩
  obtain ⟨rfl, -⟩ := Tree.prefix_free tree other rest otherRest split
  exact noBare bare

/-- A tree of the format with the least integer is derived and not returned. -/
theorem refused_of_least (maxRecursion : Nat) (tree : Tree) (rest : List UInt8)
    (levels : tree.levels ≤ maxRecursion + 1) (noBare : Key.bare ∉ tree.keys)
    (least : Int64.minValue ∈ tree.numbers) :
    Derives maxRecursion (tree.bytes ++ rest) tree.object ∧
      parse ⟨maxRecursion, false⟩ (tree.bytes ++ rest) = .err .integerOverflow := by
  refine ⟨⟨tree, rest, noBare, levels, rfl, rfl⟩, ?_⟩
  rw [parse, readGeneric_spelled ⟨maxRecursion, false⟩ tree 0 (by simpa using levels), readBack,
    if_pos least]

/-- The parser returns exactly the derived objects of a stream if and only if the tree at
the front of it, where there is one, has a key without a length exactly if it has the
least integer.

Proof: what the parser returns is exactly what has a tree without the least integer, by induction
on the nesting. A tree is derived unless a key has no length, so both agree on a stream exactly if
its tree is refused by both or by neither. -/
theorem parse_derives_iff (maxRecursion : Nat) (input : List UInt8) :
    (∀ object, (∃ rest, parse ⟨maxRecursion, false⟩ input = .ok (object, rest)) ↔
        Derives maxRecursion input object) ↔
      ∀ (tree : Tree) (rest : List UInt8), input = tree.bytes ++ rest →
        tree.levels ≤ maxRecursion + 1 →
        (Key.bare ∈ tree.keys ↔ Int64.minValue ∈ tree.numbers) := by
  constructor
  · rintro exactly tree rest rfl levels
    constructor
    · intro bare
      by_contra readable
      obtain ⟨read, nothing⟩ := returned_of_bare maxRecursion tree rest levels bare readable
      exact nothing tree.object ((exactly tree.object).mp ⟨rest, read⟩)
    · intro least
      by_contra noBare
      obtain ⟨derived, refused⟩ := refused_of_least maxRecursion tree rest levels noBare least
      obtain ⟨after, read⟩ := (exactly tree.object).mpr derived
      rw [refused] at read
      cases read
  · intro alike object
    constructor
    · rintro ⟨rest, read⟩
      obtain ⟨tree, readable, levels, split, same⟩ := (parse_ok_iff _ _ _ _).mp read
      have noBare : Key.bare ∉ tree.keys :=
        fun bare => readable ((alike tree rest split levels).mp bare)
      exact ⟨tree, rest, noBare, levels, split, same⟩
    · rintro ⟨tree, rest, noBare, levels, split, same⟩
      have readable : Int64.minValue ∉ tree.numbers :=
        fun least => noBare ((alike tree rest split levels).mpr least)
      exact ⟨rest, (parse_ok_iff _ _ _ _).mpr ⟨tree, readable, levels, split, same⟩⟩

/-- The dictionary `d:i1ee`, whose key has no length. -/
def bareKeyed : Tree :=
  .dict [(.bare, .integer ⟨false, ⟨[49], by decide, by decide +kernel, by decide⟩,
    by decide, by decide⟩)]

/-- The integer `i-9223372036854775808e`. -/
def leastSpelled : Tree :=
  .integer ⟨true, ⟨decimal (2 ^ 63), by decide, by decide +kernel, by decide⟩,
    by decide, by decide⟩

/-- `d:i1ee` is returned and not derived. `i-9223372036854775808e` is derived and not
returned. -/
theorem parse_not_derives :
    ¬ (∀ object,
        (∃ rest, parse ⟨32, false⟩ [100, 58, 105, 49, 101, 101] = .ok (object, rest)) ↔
          Derives 32 [100, 58, 105, 49, 101, 101] object) ∧
      ¬ (∀ object,
        (∃ rest, parse ⟨32, false⟩ (105 :: 45 :: (decimal (2 ^ 63) ++ [101])) =
            .ok (object, rest)) ↔
          Derives 32 (105 :: 45 :: (decimal (2 ^ 63) ++ [101])) object) := by
  constructor
  · intro exactly
    obtain ⟨read, nothing⟩ := returned_of_bare 32 bareKeyed []
      (by simp [bareKeyed, Tree.levels, entriesLevels])
      (by simp [bareKeyed, Tree.keys, entriesKeys])
      (by simp only [bareKeyed, Tree.numbers, entriesNumbers]; decide)
    exact nothing _ ((exactly _).mp ⟨_, read⟩)
  · intro exactly
    obtain ⟨derived, refused⟩ := refused_of_least 32 leastSpelled []
      (by simp [leastSpelled, Tree.levels]) (by simp [leastSpelled, Tree.keys])
      (by simp only [leastSpelled, Tree.numbers]; decide)
    obtain ⟨rest, read⟩ := (exactly _).mpr derived
    cases refused.symm.trans read

end RouteServer.Bencode
