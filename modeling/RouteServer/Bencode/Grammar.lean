import RouteServer.Bencode.RoundTrip

/-!
# The bencode grammar

Concrete syntax trees: a tree holds the digits, the sign and the keys as they are
spelled, so its bytes are a concatenation and no byte is left to the parser. An integer
is `0` or an optional minus sign and digits without leading zero, within the range of
`i64`. A length is a number without superfluous leading zeros. Keys may come in any
order and more than once, and the last value of a key is the one that is kept.

A key of the format is a string. The parser also takes a colon alone for one, so keys
come in two forms here, and the trees of the format are those without a bare key.
-/

namespace RouteServer.Bencode

open Rust

/-- The number spelled by ASCII digits after those of a given number. -/
def spelled (number : Nat) (digits : List UInt8) : Nat :=
  digits.foldl (fun value byte => value * 10 + (byte - digitZero).toNat) number

/-- Decimal digits without a superfluous leading zero. -/
structure Numeral where
  digits : List UInt8
  nonempty : digits ≠ []
  each : ∀ byte ∈ digits, isAsciiDigit byte = true
  leading : digits.head? = some digitZero → digits = [digitZero]

/-- The number a numeral spells. -/
def Numeral.value (numeral : Numeral) : Nat := spelled 0 numeral.digits

/-- Length digits, a colon and that many bytes. -/
structure StringLiteral where
  length : Numeral
  content : Bstr
  exact : content.bytes.length = length.value

/-- The bytes of a string. -/
def StringLiteral.bytes (literal : StringLiteral) : List UInt8 :=
  literal.length.digits ++ colon :: literal.content.bytes

/-- A sign and a magnitude within the range of `i64`. Zero has no minus sign. -/
structure IntegerLiteral where
  negative : Bool
  magnitude : Numeral
  nonzero : negative = true → magnitude.value ≠ 0
  inRange : magnitude.value ≤ if negative then 2 ^ 63 else 2 ^ 63 - 1

/-- The integer a literal spells. -/
def IntegerLiteral.number (literal : IntegerLiteral) : Int64 :=
  if literal.negative then Int64.ofInt (-(literal.magnitude.value : Int))
  else Int64.ofInt literal.magnitude.value

/-- The bytes of an integer. -/
def IntegerLiteral.bytes (literal : IntegerLiteral) : List UInt8 :=
  letterI :: ((if literal.negative then [minusSign] else []) ++
    (literal.magnitude.digits ++ [letterE]))

/-- A key is a string, or a colon alone. -/
inductive Key where
  | literal (spelling : StringLiteral)
  | bare

/-- The bytes of a key. -/
def Key.bytes : Key → List UInt8
  | .literal spelling => spelling.bytes
  | .bare => [colon]

/-- What a key stands for. A colon alone is the empty string. -/
def Key.content : Key → Bstr
  | .literal spelling => spelling.content
  | .bare => ⟨[], Nat.two_pow_pos 63⟩

/-- A syntax tree. -/
inductive Tree where
  | string (literal : StringLiteral)
  | dict (entries : List (Key × Tree))
  | integer (literal : IntegerLiteral)
  | list (items : List Tree)

mutual

/-- The bytes of a tree. -/
def Tree.bytes : Tree → List UInt8
  | .string literal => literal.bytes
  | .dict entries => letterD :: (entriesBytes entries ++ [letterE])
  | .integer literal => literal.bytes
  | .list items => letterL :: (itemsBytes items ++ [letterE])

/-- The bytes of the items of a list. -/
def itemsBytes : List Tree → List UInt8
  | [] => []
  | item :: rest => item.bytes ++ itemsBytes rest

/-- The bytes of the entries of a dictionary. -/
def entriesBytes : List (Key × Tree) → List UInt8
  | [] => []
  | (key, value) :: rest => key.bytes ++ (value.bytes ++ entriesBytes rest)

end

mutual

/-- The object a tree stands for. -/
def Tree.object : Tree → Object
  | .string literal => .bytes literal.content
  | .dict entries => .dict (storeEntries [] entries)
  | .integer literal => .integer literal.number
  | .list items => .list (itemsObjects items)

/-- The objects of the items of a list. -/
def itemsObjects : List Tree → List Object
  | [] => []
  | item :: rest => item.object :: itemsObjects rest

/-- The entries of a dictionary put into a map, a later one over an earlier one with
the same key. -/
def storeEntries (stored : List (Bstr × Object)) : List (Key × Tree) → List (Bstr × Object)
  | [] => stored
  | (key, value) :: rest =>
    storeEntries (OrderedMap.insert key.content value.object stored) rest

end

mutual

/-- Levels of nesting, those of values that are not kept included. -/
def Tree.levels : Tree → Nat
  | .string _ => 1
  | .dict entries => 1 + entriesLevels entries
  | .integer _ => 1
  | .list items => 1 + itemsLevels items

/-- The deepest item of a list. -/
def itemsLevels : List Tree → Nat
  | [] => 0
  | item :: rest => max item.levels (itemsLevels rest)

/-- The deepest value of a dictionary. -/
def entriesLevels : List (Key × Tree) → Nat
  | [] => 0
  | (_, value) :: rest => max value.levels (entriesLevels rest)

end

mutual

/-- The integers spelled in a tree, those of values that are not kept included. -/
def Tree.numbers : Tree → List Int64
  | .string _ => []
  | .dict entries => entriesNumbers entries
  | .integer literal => [literal.number]
  | .list items => itemsNumbers items

/-- The integers of the items of a list. -/
def itemsNumbers : List Tree → List Int64
  | [] => []
  | item :: rest => item.numbers ++ itemsNumbers rest

/-- The integers of the values of a dictionary. -/
def entriesNumbers : List (Key × Tree) → List Int64
  | [] => []
  | (_, value) :: rest => value.numbers ++ entriesNumbers rest

end

mutual

/-- The keys of all dictionaries of a tree. -/
def Tree.keys : Tree → List Key
  | .string _ => []
  | .dict entries => entriesKeys entries
  | .integer _ => []
  | .list items => itemsKeys items

/-- The keys within the items of a list. -/
def itemsKeys : List Tree → List Key
  | [] => []
  | item :: rest => item.keys ++ itemsKeys rest

/-- The keys of a dictionary and of those within its values. -/
def entriesKeys : List (Key × Tree) → List Key
  | [] => []
  | (key, value) :: rest => key :: (value.keys ++ entriesKeys rest)

end

/-- Induction over the tree: a container may assume the property of every value. -/
theorem Tree.tree_induction {holds : Tree → Prop}
    (string : ∀ literal, holds (.string literal))
    (dict : ∀ entries, (∀ entry ∈ entries, holds entry.2) → holds (.dict entries))
    (integer : ∀ literal, holds (.integer literal))
    (list : ∀ items, (∀ item ∈ items, holds item) → holds (.list items)) :
    ∀ tree, holds tree := by
  intro tree
  refine Tree.rec (motive_1 := holds)
    (motive_2 := fun entries => ∀ entry ∈ entries, holds entry.2)
    (motive_3 := fun items => ∀ item ∈ items, holds item) (motive_4 := fun entry => holds entry.2)
    string dict integer list ?_ ?_ ?_ ?_ ?_ tree
  · simp
  · intro entry rest first others
    exact List.forall_mem_cons.mpr ⟨first, others⟩
  · simp
  · intro item rest first others
    exact List.forall_mem_cons.mpr ⟨first, others⟩
  · intro _ _ holds
    exact holds

/-! ## Numerals -/

/-- A digit is the ASCII byte of its value. -/
theorem digitByte_of_isAsciiDigit {byte : UInt8} (isDigit : isAsciiDigit byte = true) :
    (byte - digitZero).toNat < 10 ∧ digitByte (byte - digitZero).toNat = byte := by
  simp only [isAsciiDigit, Bool.and_eq_true, decide_eq_true_eq] at isDigit
  obtain ⟨atLeast, atMost⟩ := isDigit
  have lower : 48 ≤ byte.toNat := UInt8.le_iff_toNat_le.mp atLeast
  have upper : byte.toNat ≤ 57 := UInt8.le_iff_toNat_le.mp atMost
  have value : (byte - digitZero).toNat = byte.toNat - 48 :=
    UInt8.toNat_sub_of_le byte digitZero atLeast
  refine ⟨by omega, ?_⟩
  rw [value, digitByte, Nat.add_sub_cancel' lower, UInt8.ofNat_toNat]

/-- The number that digits spell is the one that the digits append, as bytes or as values. -/
theorem spelled_eq (number : Nat) (digits : List UInt8) :
    spelled number digits =
      appendDigits number (digits.map fun byte => (byte - digitZero).toNat) := by
  rw [spelled, appendDigits, List.foldl_map]

/-- Digits without a superfluous leading zero are the ones their number is printed as. -/
theorem decimalDigits_appendDigits {digit : Nat} {digits : List Nat}
    (small : ∀ each ∈ digit :: digits, each < 10) (leading : digit = 0 → digits = []) :
    decimalDigits (appendDigits 0 (digit :: digits)) = digit :: digits := by
  by_cases zero : digit = 0
  · subst zero
    rw [leading rfl]
    rfl
  · have more : 0 * 10 + digit ≤ appendDigits 0 (digit :: digits) := appendDigits_ge _ digits
    have reversed : appendDigits 0 (digit :: digits) =
        Nat.ofDigits 10 (digit :: digits).reverse := by
      rw [appendDigits, ← List.foldr_reverse, Nat.ofDigits_eq_foldr]
      congr
      funext each value
      simp only [Nat.cast_id]
      omega
    rw [decimalDigits, if_neg (by omega), reversed, Nat.digits_ofDigits 10 (by decide),
      List.reverse_reverse]
    · intro each member
      exact small each (List.mem_reverse.mp member)
    · intro nonempty
      rw [List.getLast_reverse, List.head_cons]
      exact zero

/-- A numeral is the decimal form of its value. -/
theorem Numeral.digits_eq (numeral : Numeral) : numeral.digits = decimal numeral.value := by
  obtain ⟨digits, nonempty, each, leading⟩ := numeral
  obtain ⟨first, others, rfl⟩ := List.exists_cons_of_ne_nil nonempty
  have back : ((first :: others).map fun byte => (byte - digitZero).toNat).map digitByte =
      first :: others := by
    rw [List.map_map]
    conv_rhs => rw [← List.map_id (first :: others)]
    apply List.map_congr_left
    intro byte member
    exact (digitByte_of_isAsciiDigit (each byte member)).2
  have small : ∀ digit ∈ (first :: others).map fun byte => (byte - digitZero).toNat,
      digit < 10 := by
    intro digit member
    obtain ⟨byte, inside, rfl⟩ := List.mem_map.mp member
    exact (digitByte_of_isAsciiDigit (each byte inside)).1
  rw [Numeral.value, spelled_eq, decimal]
  rw [List.map_cons] at back small ⊢
  rw [decimalDigits_appendDigits small, back]
  · intro zero
    have firstZero : first = digitZero := by
      rw [← (digitByte_of_isAsciiDigit (each first List.mem_cons_self)).2, zero]
      rfl
    have single := leading (by rw [List.head?_cons, firstZero])
    rw [(List.cons.inj single).2, List.map_nil]

/-- A numeral starts with a digit. -/
theorem Numeral.digits_cons (numeral : Numeral) :
    ∃ first others, numeral.digits = first :: others ∧ isAsciiDigit first = true := by
  obtain ⟨first, others, same⟩ := List.exists_cons_of_ne_nil numeral.nonempty
  refine ⟨first, others, same, numeral.each first ?_⟩
  rw [same]
  exact List.mem_cons_self

/-- Numerals with the same value are spelled alike. -/
theorem Numeral.ext_value {left right : Numeral} (same : left.value = right.value) :
    left = right := by
  have digits : left.digits = right.digits := by
    rw [left.digits_eq, right.digits_eq, same]
  cases left
  cases right
  cases digits
  rfl

end RouteServer.Bencode
