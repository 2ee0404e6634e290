import RouteServer.Bencode.Accepted
import RouteServer.Bencode.Aligned

/-!
# Lengths beyond every buffer

The length of a string is checked against `usize` only, and a buffer of that length is
requested before any of its bytes is read. A request that the machine cannot meet ends the
program, and above `isize::MAX` every request does. So the parser ends so on a stream
exactly when it reaches a string with such a length: behind items and entries that are
read, at any permitted depth, as a value or as a key.
-/

namespace RouteServer.Bencode

open Rust

/-- A length that fits `usize` and no buffer that the machine has. -/
def Numeral.Oversized (numeral : Numeral) (memory : Allocator) : Prop :=
  memory.largest < numeral.value ∧ numeral.value < 2 ^ 64

/-- A tree that a parser reads at a depth. -/
structure Readable (limits : Limits) (depth : Nat) (tree : Tree) : Prop where
  room : depth + tree.levels ≤ limits.maxRecursion + 1
  inRange : Int64.minValue ∉ tree.numbers

/-- Where in a stream the parser stands. -/
inductive Place where
  | value
  | items
  | entries

/-- The parser reaches an oversized length from a place in a stream. -/
inductive ReachesOversized (limits : Limits) (memory : Allocator) :
    Place → Nat → List UInt8 → Prop where
  | string {depth : Nat} (numeral : Numeral) (rest : List UInt8)
      (permitted : depth ≤ limits.maxRecursion) (oversized : numeral.Oversized memory) :
      ReachesOversized limits memory .value depth (numeral.digits ++ colon :: rest)
  | list {depth : Nat} {rest : List UInt8} (permitted : depth ≤ limits.maxRecursion)
      (inside : ReachesOversized limits memory .items (depth + 1) rest) :
      ReachesOversized limits memory .value depth (letterL :: rest)
  | dict {depth : Nat} {rest : List UInt8} (permitted : depth ≤ limits.maxRecursion)
      (inside : ReachesOversized limits memory .entries (depth + 1) rest) :
      ReachesOversized limits memory .value depth (letterD :: rest)
  | paddedDict {rest : List UInt8} (zeros : Nat) (accepts : limits.acceptCjdnsAlignPad = true)
      (inside : ReachesOversized limits memory .entries 1 rest) :
      ReachesOversized limits memory .value 0 (letterD :: (List.replicate zeros digitZero ++ rest))
  | item {depth : Nat} {rest : List UInt8}
      (inside : ReachesOversized limits memory .value depth rest) :
      ReachesOversized limits memory .items depth rest
  | afterItem {depth : Nat} {rest : List UInt8} (item : Tree)
      (readable : Readable limits depth item)
      (later : ReachesOversized limits memory .items depth rest) :
      ReachesOversized limits memory .items depth (item.bytes ++ rest)
  | key {depth : Nat} (numeral : Numeral) (rest : List UInt8)
      (oversized : numeral.Oversized memory) :
      ReachesOversized limits memory .entries depth (numeral.digits ++ colon :: rest)
  | value {depth : Nat} {rest : List UInt8} (key : Key)
      (inside : ReachesOversized limits memory .value depth rest) :
      ReachesOversized limits memory .entries depth (key.bytes ++ rest)
  | afterEntry {depth : Nat} {rest : List UInt8} (key : Key) (value : Tree)
      (readable : Readable limits depth value)
      (later : ReachesOversized limits memory .entries depth rest) :
      ReachesOversized limits memory .entries depth (key.bytes ++ (value.bytes ++ rest))

/-! ## Less memory -/

/-- A string ends the program on a machine with less memory, and is read there as on any other
machine where its buffer is given. -/
theorem readStringWithByte_unlessPanicked (memory : Allocator) (byte : UInt8)
    (acceptZeroPad : Bool) (input : List UInt8) :
    (readStringWithByte byte acceptZeroPad input memory).UnlessPanicked
      (readStringWithByte byte acceptZeroPad input) := by
  rw [readStringWithByte, readStringWithByte]
  apply Outcome.UnlessPanicked.bind (.refl _)
  rintro ⟨length, rest⟩ -
  dsimp only
  by_cases given : length ≤ memory.largest
  · have fits : length ≤ Allocator.full.largest :=
      (Allocator.le_full_iff length).mpr (given.trans_lt memory.bounded)
    rw [dif_pos given, dif_pos fits]
    exact .refl _
  · rw [dif_neg given]
    exact Or.inl rfl

/-- On streams up to a length, what a machine with less memory does differently is to end. -/
structure LessUpTo (limits : Limits) (memory : Allocator) (bound : Nat) : Prop where
  generic : ∀ (depth : Nat) (input : List UInt8), input.length ≤ bound →
    (readGeneric limits depth input memory).UnlessPanicked (readGeneric limits depth input)
  list : ∀ (depth : Nat) (before : List Object) (input : List UInt8), input.length ≤ bound →
    (contents (readList limits depth before input memory)).UnlessPanicked
      (contents (readList limits depth before input))
  dict : ∀ (depth : Nat) (acceptZeroPad : Bool) (stored : List (Bstr × Object))
    (input : List UInt8), input.length ≤ bound →
    (contents (readDict limits depth acceptZeroPad stored input memory)).UnlessPanicked
      (contents (readDict limits depth acceptZeroPad stored input))

/-- A value, from what follows its first byte. -/
theorem LessUpTo.generic_step {limits : Limits} {memory : Allocator} {bound : Nat}
    (shorter : LessUpTo limits memory bound) (depth : Nat) (input : List UInt8)
    (short : input.length ≤ bound + 1) :
    (readGeneric limits depth input memory).UnlessPanicked (readGeneric limits depth input) := by
  cases input with
  | nil => exact .refl _
  | cons chr tail =>
    have tailShort : tail.length ≤ bound := Nat.le_of_succ_le_succ short
    by_cases permitted : depth ≤ limits.maxRecursion
    · rw [readGeneric_cons limits depth chr tail permitted,
        readGeneric_cons limits depth chr tail permitted]
      split
      · exact (shorter.list (depth + 1) [] tail tailShort).bind fun _ _ => .refl _
      · split
        · exact (shorter.dict (depth + 1) _ [] tail tailShort).bind fun _ _ => .refl _
        · split
          · exact .refl _
          · split
            · exact (readStringWithByte_unlessPanicked memory chr false tail).bind
                fun _ _ => .refl _
            · exact .refl _
    · simp only [readGeneric, readGenericWithByte, if_pos (Nat.lt_of_not_le permitted)]
      exact .refl _

/-- The items of a list, from what follows the first one. -/
theorem LessUpTo.list_step {limits : Limits} {memory : Allocator} {bound : Nat}
    (shorter : LessUpTo limits memory bound) (depth : Nat) (before : List Object)
    (input : List UInt8) (short : input.length ≤ bound + 1) :
    (contents (readList limits depth before input memory)).UnlessPanicked
      (contents (readList limits depth before input)) := by
  cases input with
  | nil =>
    rw [readList, readList]
    exact .refl _
  | cons byte tail =>
    rw [readList_cons, readList_cons]
    split
    · exact .refl _
    · apply (shorter.generic_step depth (byte :: tail) short).bind
      rintro ⟨object, after⟩ itemRead
      have left : after.length < tail.length + 1 := readGeneric_length itemRead
      rw [List.length_cons] at short
      exact shorter.list depth _ after (by omega)

/-- The entries of a dictionary, from what follows the first key. -/
theorem LessUpTo.dict_step {limits : Limits} {memory : Allocator} {bound : Nat}
    (shorter : LessUpTo limits memory bound) (depth : Nat) (acceptZeroPad : Bool)
    (stored : List (Bstr × Object)) (input : List UInt8) (short : input.length ≤ bound + 1) :
    (contents (readDict limits depth acceptZeroPad stored input memory)).UnlessPanicked
      (contents (readDict limits depth acceptZeroPad stored input)) := by
  cases input with
  | nil =>
    rw [readDict, readDict]
    exact .refl _
  | cons byte tail =>
    rw [List.length_cons] at short
    rw [readDict_cons, readDict_cons]
    split
    · exact .refl _
    · apply (readStringWithByte_unlessPanicked memory byte acceptZeroPad tail).bind
      rintro ⟨content, afterKey⟩ keyRead
      have keyLeft := readStringWithByte_length byte acceptZeroPad tail afterKey content keyRead
      apply (shorter.generic depth afterKey (by omega)).bind
      rintro ⟨object, after⟩ valueRead
      have left : after.length < afterKey.length := readGeneric_length valueRead
      exact shorter.dict depth false _ after (by omega)

/-- On streams of any length what a machine with less memory does differently is to end, by
induction on the length: a value leaves less behind than it was read from. -/
theorem lessUpTo (limits : Limits) (memory : Allocator) (bound : Nat) :
    LessUpTo limits memory bound := by
  induction bound with
  | zero =>
    refine ⟨?_, ?_, ?_⟩
    · intro depth input short
      rw [List.length_eq_zero_iff.mp (Nat.le_zero.mp short)]
      exact .refl _
    · intro depth before input short
      rw [List.length_eq_zero_iff.mp (Nat.le_zero.mp short), readList, readList]
      exact .refl _
    · intro depth acceptZeroPad stored input short
      rw [List.length_eq_zero_iff.mp (Nat.le_zero.mp short), readDict, readDict]
      exact .refl _
  | succ bound shorter => exact ⟨shorter.generic_step, shorter.list_step, shorter.dict_step⟩

/-- A value is read as on a machine with every buffer, unless the program ends. -/
theorem readGeneric_unlessPanicked (limits : Limits) (memory : Allocator) (depth : Nat)
    (input : List UInt8) :
    (readGeneric limits depth input memory).UnlessPanicked (readGeneric limits depth input) :=
  (lessUpTo limits memory input.length).generic depth input le_rfl

/-! ## An oversized length that is reached panics -/

/-- The request for the buffer panics, before the content is looked at. -/
theorem readStringWithByte_oversized {memory : Allocator} {numeral : Numeral}
    (oversized : numeral.Oversized memory) (acceptZeroPad : Bool) (rest : List UInt8) :
    ∃ first others, numeral.digits ++ colon :: rest = first :: others ∧
      isAsciiDigit first = true ∧
      readStringWithByte first acceptZeroPad others memory = .panicked := by
  obtain ⟨first, others, spelled, isDigit, read⟩ := decimal_cons numeral.value
  refine ⟨first, others ++ colon :: rest, by rw [numeral.digits_eq, spelled, List.cons_append],
    isDigit, ?_⟩
  have length := (read (lengthDigits acceptZeroPad) rest rfl).trans
    (if_pos (Nat.le_sub_one_of_lt oversized.2))
  have tooLong : ¬ numeral.value ≤ memory.largest := Nat.not_le.mpr oversized.1
  rw [readStringWithByte, show colon = (lengthDigits acceptZeroPad).terminator from rfl, length]
  simp only [Outcome.ok_bind, dif_neg tooLong]

/-- A value that is read ends with what follows it, unless a string in it is oversized. -/
theorem Readable.read {limits : Limits} {depth : Nat} {tree : Tree}
    (readable : Readable limits depth tree) (memory : Allocator) (rest : List UInt8) :
    (readGeneric limits depth (tree.bytes ++ rest) memory).UnlessPanicked
      (.ok (tree.object, rest)) := by
  have full : readGeneric limits depth (tree.bytes ++ rest) = .ok (tree.object, rest) := by
    rw [readGeneric_spelled limits tree depth readable.room, readBack, if_neg readable.inRange]
  rw [← full]
  exact readGeneric_unlessPanicked limits memory depth (tree.bytes ++ rest)

/-- An item that panics makes its list panic. -/
theorem readList_panicked {limits : Limits} {memory : Allocator} {depth : Nat}
    {input : List UInt8} (panics : readGeneric limits depth input memory = .panicked)
    (before : List Object) : contents (readList limits depth before input memory) = .panicked := by
  cases input with
  | nil => cases panics
  | cons byte tail =>
    have notEnd : byte ≠ letterE := by
      rintro rfl
      rw [readGeneric, readGenericWithByte] at panics
      split at panics <;> cases panics
    rw [readList_cons, if_neg notEnd, panics]
    rfl

/-- A zero in front of a key is passed over where it is accepted. -/
theorem readDict_zero (limits : Limits) (memory : Allocator) (depth : Nat)
    (stored : List (Bstr × Object)) {byte : UInt8} (notEnd : byte ≠ letterE) (tail : List UInt8) :
    contents (readDict limits depth true stored (digitZero :: byte :: tail) memory) =
      contents (readDict limits depth true stored (byte :: tail) memory) := by
  have key : readStringWithByte digitZero true (byte :: tail) memory =
      readStringWithByte byte true tail memory := by
    rw [readStringWithByte, readDecimal_zero rfl rfl, readStringWithByte]
  rw [readDict_cons, if_neg (by decide), key, readDict_cons, if_neg notEnd]

/-- Zeros in front of the first key do not keep a dictionary from panicking. -/
theorem readDict_zeros_panicked {limits : Limits} {memory : Allocator} {depth : Nat}
    {stored : List (Bstr × Object)} {input : List UInt8}
    (panics : contents (readDict limits depth true stored input memory) = .panicked)
    (zeros : Nat) :
    contents (readDict limits depth true stored (List.replicate zeros digitZero ++ input) memory) =
      .panicked := by
  induction zeros with
  | zero => exact panics
  | succ zeros inductionHypothesis =>
    rw [List.replicate_succ, List.cons_append]
    cases padded : List.replicate zeros digitZero ++ input with
    | nil =>
      rw [padded, readDict] at inductionHypothesis
      cases inductionHypothesis
    | cons byte tail =>
      rw [padded] at inductionHypothesis
      have notEnd : byte ≠ letterE := by
        rintro rfl
        rw [readDict_cons, if_pos rfl] at inductionHypothesis
        cases inductionHypothesis
      rw [readDict_zero limits memory depth stored notEnd]
      exact inductionHypothesis

/-- What the reader at a place does with a stream, whatever it has read before. -/
def PanicsAt (limits : Limits) (memory : Allocator) (depth : Nat) (input : List UInt8) :
    Place → Prop
  | .value => readGeneric limits depth input memory = .panicked
  | .items => ∀ before, contents (readList limits depth before input memory) = .panicked
  | .entries => ∀ acceptZeroPad stored,
      contents (readDict limits depth acceptZeroPad stored input memory) = .panicked

/-- From a place where an oversized length is reached the reader panics.

Proof: induction on how the place is reached. At the end the buffer for a string is not
allocated; on the way there, what stands in front is read, or panics itself. -/
theorem ReachesOversized.panics {limits : Limits} {memory : Allocator} {place : Place}
    {depth : Nat} {input : List UInt8}
    (reaches : ReachesOversized limits memory place depth input) :
    PanicsAt limits memory depth input place := by
  induction reaches with
  | string numeral rest permitted oversized =>
    obtain ⟨first, others, spelled, isDigit, panics⟩ :=
      readStringWithByte_oversized oversized false rest
    have other {letter : UInt8} (notDigit : isAsciiDigit letter = false) : first ≠ letter := by
      rintro rfl
      rw [isDigit] at notDigit
      cases notDigit
    rw [PanicsAt, spelled, readGeneric_cons _ _ _ _ permitted, if_neg (other rfl),
      if_neg (other rfl), if_neg (other rfl), if_pos isDigit, panics]
    rfl
  | list permitted _ panics =>
    rw [PanicsAt, readGeneric_cons _ _ _ _ permitted, if_pos rfl, panics []]
    rfl
  | dict permitted _ panics =>
    rw [PanicsAt, readGeneric_cons _ _ _ _ permitted, if_neg (by decide), if_pos rfl]
    dsimp only
    rw [panics]
    rfl
  | paddedDict zeros accepts _ panics =>
    rw [PanicsAt, readGeneric_cons _ _ _ _ (Nat.zero_le _), if_neg (by decide), if_pos rfl]
    simp only [accepts, Nat.zero_add, beq_self_eq_true, Bool.and_self]
    rw [readDict_zeros_panicked (panics true []) zeros]
    rfl
  | item _ panics => exact readList_panicked panics
  | afterItem item readable _ panics =>
    intro before
    obtain ⟨first, tail, spelled, starts⟩ := item.bytes_cons
    rw [spelled, List.cons_append, readList_cons, if_neg starts.ne_letterE, ← List.cons_append,
      ← spelled]
    rcases readable.read memory _ with outOfMemory | read
    · rw [outOfMemory]
      rfl
    · rw [read]
      exact panics _
  | key numeral rest oversized =>
    intro acceptZeroPad stored
    obtain ⟨first, others, spelled, isDigit, panics⟩ :=
      readStringWithByte_oversized oversized acceptZeroPad rest
    have notEnd : first ≠ letterE := by
      rintro rfl
      cases isDigit
    rw [spelled, readDict_cons, if_neg notEnd, panics]
    rfl
  | value key _ panics =>
    intro acceptZeroPad stored
    obtain ⟨first, others, spelled, notEnd, read⟩ := key.read acceptZeroPad _
    rw [spelled, readDict_cons, if_neg notEnd]
    rcases read ▸ readStringWithByte_unlessPanicked memory first acceptZeroPad others with
      outOfMemory | keyRead
    · rw [outOfMemory]
      rfl
    · rw [keyRead]
      simp only [Outcome.ok_bind]
      rw [panics]
      rfl
  | afterEntry key value readable _ panics =>
    intro acceptZeroPad stored
    obtain ⟨first, others, spelled, notEnd, read⟩ := key.read acceptZeroPad _
    rw [spelled, readDict_cons, if_neg notEnd]
    rcases read ▸ readStringWithByte_unlessPanicked memory first acceptZeroPad others with
      outOfMemory | keyRead
    · rw [outOfMemory]
      rfl
    · rw [keyRead]
      simp only [Outcome.ok_bind]
      rcases readable.read memory _ with outOfMemory | valueRead
      · rw [outOfMemory]
        rfl
      · rw [valueRead]
        exact panics _ _

/-! ## Nothing else panics -/

/-- The digits of a number are read or refused. -/
theorem readDecimal_ne_panicked (decimal : Decimal) (byte : UInt8) (number : Nat)
    (input : List UInt8) : readDecimal decimal byte number input ≠ .panicked := by
  have pushes (byte : UInt8) (number : Nat) : pushDigit decimal byte number ≠ .panicked := by
    rw [pushDigit]
    split
    · simp
    · dsimp only
      split <;> simp
  induction input generalizing byte number with
  | nil =>
    rw [readDecimal]
    split
    · simp
    · simp [Outcome.bind_panicked_iff, pushes]
  | cons following tail inductionHypothesis =>
    rw [readDecimal]
    split
    · simp
    · rw [ne_eq, Outcome.bind_panicked_iff, not_or]
      refine ⟨pushes byte number, ?_⟩
      rintro ⟨next, -, panics⟩
      split at panics
      · cases panics
      · exact inductionHypothesis following next panics

/-- An integer is read or refused, its sign and its digits. -/
theorem readInt_ne_panicked (input : List UInt8) : readInt input ≠ .panicked := by
  have bytes (eof : ParseError) (input : List UInt8) : readByte eof input ≠ .panicked := by
    cases input <;> simp [readByte]
  intro panics
  rw [readInt, Outcome.bind_panicked_iff] at panics
  rcases panics with sign | ⟨⟨isNegative, byte, afterSign⟩, -, body⟩
  · rw [readSign, Outcome.bind_panicked_iff] at sign
    rcases sign with first | ⟨⟨byte, rest⟩, -, second⟩
    · exact bytes _ _ first
    · dsimp only at second
      split at second
      · simp [Outcome.bind_panicked_iff, bytes] at second
      · cases second
  · dsimp only at body
    split at body
    · cases body
    · rw [Outcome.bind_panicked_iff] at body
      rcases body with digits | ⟨⟨number, rest⟩, -, finish⟩
      · exact readDecimal_ne_panicked _ _ _ _ digits
      · dsimp only at finish
        split at finish
        · split at finish <;> cases finish
        · cases finish

/-- Zeros in front of a number, and what stands behind them. -/
theorem exists_zeros (digits : List UInt8) :
    ∃ zeros significant, digits = List.replicate zeros digitZero ++ significant ∧
      significant.head? ≠ some digitZero := by
  induction digits with
  | nil => exact ⟨0, [], rfl, by simp⟩
  | cons digit others inductionHypothesis =>
    by_cases zero : digit = digitZero
    · obtain ⟨zeros, significant, split, leading⟩ := inductionHypothesis
      exact ⟨zeros + 1, significant, by rw [zero, split, List.replicate_succ, List.cons_append],
        leading⟩
    · exact ⟨0, digit :: others, rfl, by simpa using zero⟩

/-- Zeros in front spell nothing. -/
theorem spelled_zeros (zeros : Nat) (significant : List UInt8) :
    spelled 0 (List.replicate zeros digitZero ++ significant) = spelled 0 significant := by
  induction zeros with
  | zero => rfl
  | succ zeros inductionHypothesis =>
    rw [List.replicate_succ, List.cons_append]
    exact inductionHypothesis

/-- A number that has been read is a numeral behind zeros, or zeros alone. -/
theorem padded_of_read {decimal : Decimal} (ends : isAsciiDigit decimal.terminator = false)
    {byte : UInt8} {result : Nat} {input rest : List UInt8}
    (read : readDecimal decimal byte 0 input = .ok (result, rest)) :
    ∃ zeros, (byte :: input = List.replicate zeros digitZero ++ decimal.terminator :: rest ∧
        result = 0) ∨
      ∃ numeral : Numeral, byte :: input =
        List.replicate zeros digitZero ++ (numeral.digits ++ decimal.terminator :: rest) ∧
        numeral.value = result := by
  obtain ⟨digits, split, each, sum, -⟩ := readDecimal_sound ends read
  obtain ⟨zeros, significant, rfl, leading⟩ := exists_zeros digits
  rw [spelled_zeros] at sum
  rw [List.append_assoc] at split
  refine ⟨zeros, ?_⟩
  cases significant with
  | nil => exact Or.inl ⟨split, sum.symm⟩
  | cons digit others =>
    have significantEach : ∀ byte ∈ digit :: others, isAsciiDigit byte = true :=
      fun byte member => each byte (List.mem_append_right _ member)
    exact Or.inr ⟨⟨digit :: others, List.cons_ne_nil _ _, significantEach,
      fun zero => absurd zero leading⟩, split, sum⟩

/-- A string panics by its length alone. -/
theorem length_of_panicked {memory : Allocator} {byte : UInt8} {acceptZeroPad : Bool}
    {input : List UInt8}
    (panics : readStringWithByte byte acceptZeroPad input memory = .panicked) :
    ∃ length rest, readDecimal (lengthDigits acceptZeroPad) byte 0 input = .ok (length, rest) ∧
      memory.largest < length ∧ length < 2 ^ 64 := by
  rw [readStringWithByte, Outcome.bind_panicked_iff] at panics
  rcases panics with digits | ⟨⟨length, rest⟩, digits, request⟩
  · exact absurd digits (readDecimal_ne_panicked _ _ _ _)
  · have bound : length ≤ 2 ^ 64 - 1 := readDecimal_le (Nat.zero_le _) digits
    dsimp only at request
    split at request
    · split at request <;> cases request
    · next tooLong => exact ⟨length, rest, digits, by omega, by omega⟩

/-- A length that panics is spelled, and nothing but zeros stands in front of it, if
anything. -/
theorem numeral_of_panicked {memory : Allocator} {byte : UInt8} {acceptZeroPad : Bool}
    {input : List UInt8}
    (panics : readStringWithByte byte acceptZeroPad input memory = .panicked) :
    ∃ zeros numeral rest, byte :: input =
        List.replicate zeros digitZero ++ (Numeral.digits numeral ++ colon :: rest) ∧
      numeral.Oversized memory ∧ (acceptZeroPad = false → zeros = 0) := by
  obtain ⟨length, rest, digits, lower, upper⟩ := length_of_panicked panics
  cases acceptZeroPad with
  | false =>
    have started : byte ≠ colon := by
      rintro rfl
      rw [readDecimal_colon] at digits
      obtain ⟨none, -⟩ := Prod.mk.inj (Outcome.ok.inj digits)
      omega
    obtain ⟨numeral, split, rfl⟩ := numeral_of_read (lengthDigits false) rfl rfl started digits
    exact ⟨0, numeral, rest, split, ⟨lower, upper⟩, fun _ => rfl⟩
  | true =>
    obtain ⟨zeros, ⟨-, none⟩ | ⟨numeral, split, rfl⟩⟩ := padded_of_read rfl digits
    · omega
    · exact ⟨zeros, numeral, rest, split, ⟨lower, upper⟩, fun strict => by cases strict⟩

/-- A padded key that has been read is a key behind zeros. -/
theorem padded_key_of_read {byte : UInt8} {input rest : List UInt8} {content : Bstr}
    (read : readStringWithByte byte true input = .ok (content, rest)) :
    ∃ zeros key, byte :: input =
      List.replicate zeros digitZero ++ (Key.bytes key ++ rest) := by
  obtain ⟨zeros, ⟨split, none⟩ | ⟨numeral, split, value⟩⟩ :=
    padded_of_read rfl (content_of_read read)
  · refine ⟨zeros, .bare, ?_⟩
    rw [split, List.length_eq_zero_iff.mp none, List.nil_append]
    rfl
  · refine ⟨zeros, .literal ⟨numeral, content, value.symm⟩, ?_⟩
    rw [split, Key.bytes, StringLiteral.bytes, List.append_assoc, List.cons_append]
    rfl

/-- A value panics at a permitted depth only. -/
theorem permitted_of_panicked {limits : Limits} {memory : Allocator} {depth : Nat}
    {input : List UInt8} (panics : readGeneric limits depth input memory = .panicked) :
    depth ≤ limits.maxRecursion := by
  cases input with
  | nil => cases panics
  | cons chr tail =>
    apply Nat.le_of_not_lt
    intro exceeded
    rw [readGeneric, readGenericWithByte, if_pos exceeded] at panics
    cases panics

/-- What has been read is readable. -/
theorem readable_of_read {limits : Limits} {memory : Allocator} {depth : Nat}
    {input rest : List UInt8} {object : Object} (unpadded : Unpadded limits depth)
    (readHere : readGeneric limits depth input memory = .ok (object, rest)) :
    ∃ tree : Tree, input = tree.bytes ++ rest ∧ Readable limits depth tree := by
  have read : readGeneric limits depth input = .ok (object, rest) :=
    (readHere ▸ readGeneric_unlessPanicked limits memory depth input).of_ok
  obtain ⟨tree, rfl, rfl, room⟩ := (spelledUpTo limits input.length).generic depth input rest
    object unpadded (Nat.le_refl _) read
  refine ⟨tree, rfl, room, ?_⟩
  intro least
  rw [readGeneric_spelled limits tree depth room, readBack, if_pos least] at read
  cases read

/-- Streams up to a length panic only where an oversized length is reached. -/
structure PanicsUpTo (limits : Limits) (memory : Allocator) (bound : Nat) : Prop where
  generic : ∀ (depth : Nat) (input : List UInt8), Unpadded limits depth → input.length ≤ bound →
    readGeneric limits depth input memory = .panicked →
    ReachesOversized limits memory .value depth input
  list : ∀ (depth : Nat) (input : List UInt8) (before : List Object), Unpadded limits depth →
    input.length ≤ bound → contents (readList limits depth before input memory) = .panicked →
    ReachesOversized limits memory .items depth input
  dict : ∀ (depth : Nat) (input : List UInt8) (stored : List (Bstr × Object)),
    Unpadded limits depth → input.length ≤ bound →
    contents (readDict limits depth false stored input memory) = .panicked →
    ReachesOversized limits memory .entries depth input

/-- A value other than a dictionary by its first byte, from what follows it. -/
theorem PanicsUpTo.step_of_ne {limits : Limits} {memory : Allocator} {bound : Nat}
    (shorter : PanicsUpTo limits memory bound)
    (depth : Nat) {chr : UInt8} (other : chr ≠ letterD) (tail : List UInt8)
    (short : tail.length ≤ bound)
    (panics : readGeneric limits depth (chr :: tail) memory = .panicked) :
    ReachesOversized limits memory .value depth (chr :: tail) := by
  have permitted : depth ≤ limits.maxRecursion := permitted_of_panicked panics
  rw [readGeneric_cons limits depth chr tail permitted, if_neg other] at panics
  split at panics
  · next isList =>
    rw [isList]
    apply ReachesOversized.list permitted
    apply shorter.list (depth + 1) tail [] (Or.inr (Nat.le_add_left 1 depth)) short
    simpa [Outcome.bind_panicked_iff] using panics
  · split at panics
    · simp [Outcome.bind_panicked_iff, readInt_ne_panicked] at panics
    · split at panics
      · have string : readStringWithByte chr false tail memory = .panicked := by
          simpa [Outcome.bind_panicked_iff] using panics
        obtain ⟨zeros, numeral, rest, split, oversized, none⟩ := numeral_of_panicked string
        rw [none rfl, List.replicate_zero, List.nil_append] at split
        rw [split]
        exact .string numeral rest permitted oversized
      · cases panics

/-- A value where no padding is accepted, from what follows its first byte. -/
theorem PanicsUpTo.generic_step {limits : Limits} {memory : Allocator} {bound : Nat}
    (shorter : PanicsUpTo limits memory bound)
    (depth : Nat) (input : List UInt8) (unpadded : Unpadded limits depth)
    (short : input.length ≤ bound + 1)
    (panics : readGeneric limits depth input memory = .panicked) :
    ReachesOversized limits memory .value depth input := by
  have permitted : depth ≤ limits.maxRecursion := permitted_of_panicked panics
  cases input with
  | nil => cases panics
  | cons chr tail =>
    have tailShort : tail.length ≤ bound := Nat.le_of_succ_le_succ short
    by_cases isDict : chr = letterD
    · subst isDict
      rw [readGeneric_cons _ _ _ _ permitted, if_neg (by decide), if_pos rfl,
        unpadded.flag] at panics
      apply ReachesOversized.dict permitted
      apply shorter.dict (depth + 1) tail [] (Or.inr (Nat.le_add_left 1 depth)) tailShort
      simpa [Outcome.bind_panicked_iff] using panics
    · exact shorter.step_of_ne depth isDict tail tailShort panics

/-- The items of a list, from what follows the first one. -/
theorem PanicsUpTo.list_step {limits : Limits} {memory : Allocator} {bound : Nat}
    (shorter : PanicsUpTo limits memory bound)
    (depth : Nat) (input : List UInt8) (before : List Object) (unpadded : Unpadded limits depth)
    (short : input.length ≤ bound + 1)
    (panics : contents (readList limits depth before input memory) = .panicked) :
    ReachesOversized limits memory .items depth input := by
  cases input with
  | nil =>
    rw [readList] at panics
    cases panics
  | cons byte tail =>
    rw [readList_cons] at panics
    split at panics
    · cases panics
    · rw [Outcome.bind_panicked_iff] at panics
      rcases panics with item | ⟨⟨object, after⟩, itemRead, others⟩
      · exact .item (shorter.generic_step depth _ unpadded short item)
      · have left : after.length < tail.length + 1 := readGeneric_length itemRead
        obtain ⟨item, split, readable⟩ := readable_of_read unpadded itemRead
        rw [split]
        rw [List.length_cons] at short
        exact .afterItem item readable (shorter.list depth after _ unpadded (by omega) others)

/-- The entries of a dictionary, from what follows the first one.

Proof: the panic comes from the key, from the value or from the entries behind, as the outcomes
of the binds say. What stands before it has been read. -/
theorem PanicsUpTo.dict_step {limits : Limits} {memory : Allocator} {bound : Nat}
    (shorter : PanicsUpTo limits memory bound)
    (depth : Nat) (input : List UInt8) (stored : List (Bstr × Object))
    (unpadded : Unpadded limits depth) (short : input.length ≤ bound + 1)
    (panics : contents (readDict limits depth false stored input memory) = .panicked) :
    ReachesOversized limits memory .entries depth input := by
  cases input with
  | nil =>
    rw [readDict] at panics
    cases panics
  | cons byte tail =>
    rw [readDict_cons] at panics
    split at panics
    · cases panics
    · rw [Outcome.bind_panicked_iff] at panics
      rcases panics with string | ⟨⟨content, afterKey⟩, keyRead, afterwards⟩
      · obtain ⟨zeros, numeral, rest, split, oversized, none⟩ := numeral_of_panicked string
        rw [none rfl, List.replicate_zero, List.nil_append] at split
        rw [split]
        exact .key numeral rest oversized
      · have keyLeft := readStringWithByte_length byte false tail afterKey content keyRead
        obtain ⟨key, split, -, -⟩ := readStringWithByte_sound
          (keyRead ▸ readStringWithByte_unlessPanicked memory byte false tail).of_ok
        rw [List.length_cons] at short
        rw [Outcome.bind_panicked_iff] at afterwards
        rcases afterwards with value | ⟨⟨object, after⟩, valueRead, others⟩
        · rw [split]
          exact .value key (shorter.generic depth afterKey unpadded (by omega) value)
        · have left : after.length < afterKey.length := readGeneric_length valueRead
          obtain ⟨value, valueSplit, readable⟩ := readable_of_read unpadded valueRead
          rw [split, valueSplit]
          exact .afterEntry key value readable
            (shorter.dict depth after _ unpadded (by omega) others)

/-- Whatever the length of the stream, it panics only where an oversized length is reached. -/
theorem panicsUpTo (limits : Limits) (memory : Allocator) (bound : Nat) :
    PanicsUpTo limits memory bound := by
  induction bound with
  | zero =>
    refine ⟨?_, ?_, ?_⟩
    · intro depth input _ short panics
      cases List.length_eq_zero_iff.mp (Nat.le_zero.mp short)
      cases panics
    · intro depth input before _ short panics
      cases List.length_eq_zero_iff.mp (Nat.le_zero.mp short)
      rw [readList] at panics
      cases panics
    · intro depth input stored _ short panics
      cases List.length_eq_zero_iff.mp (Nat.le_zero.mp short)
      rw [readDict] at panics
      cases panics
  | succ bound shorter => exact ⟨shorter.generic_step, shorter.list_step, shorter.dict_step⟩

/-- A dictionary whose first key may be padded panics only behind the padding. -/
theorem padded_of_panicked {limits : Limits} {memory : Allocator} {depth : Nat}
    {input : List UInt8} (unpadded : Unpadded limits depth)
    (panics : contents (readDict limits depth true [] input memory) = .panicked) :
    ∃ zeros rest, input = List.replicate zeros digitZero ++ rest ∧
      ReachesOversized limits memory .entries depth rest := by
  cases input with
  | nil =>
    rw [readDict] at panics
    cases panics
  | cons byte tail =>
    rw [readDict_cons] at panics
    split at panics
    · cases panics
    · rw [Outcome.bind_panicked_iff] at panics
      rcases panics with string | ⟨⟨content, afterKey⟩, keyRead, afterwards⟩
      · obtain ⟨zeros, numeral, rest, split, oversized, -⟩ := numeral_of_panicked string
        exact ⟨zeros, _, split, .key numeral rest oversized⟩
      · obtain ⟨zeros, key, split⟩ := padded_key_of_read
          (keyRead ▸ readStringWithByte_unlessPanicked memory byte true tail).of_ok
        refine ⟨zeros, _, split, ?_⟩
        rw [Outcome.bind_panicked_iff] at afterwards
        rcases afterwards with value | ⟨⟨object, after⟩, valueRead, others⟩
        · exact .value key
            ((panicsUpTo limits memory _).generic depth afterKey unpadded le_rfl value)
        · obtain ⟨value, valueSplit, readable⟩ := readable_of_read unpadded valueRead
          rw [valueSplit]
          exact .afterEntry key value readable
            ((panicsUpTo limits memory after.length).dict depth after _ unpadded le_rfl others)

/-- The parser panics exactly on the streams where it reaches an oversized length: by induction
on the length of the stream, with padding in front of the first key apart. -/
theorem parse_panicked_iff (memory : Allocator) (limits : Limits) (input : List UInt8) :
    parse limits input memory = .panicked ↔ ReachesOversized limits memory .value 0 input := by
  constructor
  · intro panics
    by_cases strict : limits.acceptCjdnsAlignPad = false
    · exact (panicsUpTo limits memory input.length).generic 0 input (Or.inl strict) le_rfl panics
    · have accepts : limits.acceptCjdnsAlignPad = true := by simpa using strict
      have inside : Unpadded limits 1 := Or.inr le_rfl
      cases input with
      | nil => cases panics
      | cons chr tail =>
        by_cases isDict : chr = letterD
        · subst isDict
          rw [parse, readGeneric_cons _ _ _ _ (Nat.zero_le _), if_neg (by decide), if_pos rfl,
            Outcome.bind_panicked_iff] at panics
          rcases panics with entries | ⟨_, -, built⟩
          · simp only [accepts, Nat.zero_add, beq_self_eq_true, Bool.and_self] at entries
            obtain ⟨zeros, rest, split, reaches⟩ := padded_of_panicked inside entries
            rw [split]
            exact .paddedDict zeros accepts reaches
          · cases built
        · exact (panicsUpTo limits memory tail.length).step_of_ne 0 isDict tail le_rfl panics
  · exact fun reaches => reaches.panics

/-- On a machine with buffers up to some size, the parser returns or reports an error if and
only if it reaches no length beyond them.

Proof: the only panic is that of an allocation. It is reached exactly through a front that is well
formed, by induction on what is left of the stream. -/
theorem parse_panic_free_iff (memory : Allocator) (limits : Limits) (input : List UInt8) :
    ((∃ result, parse limits input memory = .ok result) ∨
        ∃ fault, parse limits input memory = .err fault) ↔
      ¬ ReachesOversized limits memory .value 0 input := by
  rw [← parse_panicked_iff]
  cases parse limits input memory <;> simp

/-- `9223372036854775808:` requests a buffer above `isize::MAX`. -/
theorem parse_oversized_panics :
    parse ⟨32, false⟩ (decimal (2 ^ 63) ++ [58]) = .panicked := by
  let length : Numeral := ⟨decimal (2 ^ 63), by decide, by decide +kernel, by decide⟩
  have value : length.value = 2 ^ 63 := by decide
  have oversized : length.Oversized .full := by
    rw [Numeral.Oversized, value]
    decide
  have reaches : ReachesOversized ⟨32, false⟩ .full .value 0 (length.digits ++ colon :: []) :=
    .string length [] (Nat.zero_le _) oversized
  exact reaches.panics

end RouteServer.Bencode
