import RouteServer.Bencode.Object
import RouteServer.Rust.Outcome

/-!
# The bencode parser

The parser consumes a byte stream from the front and returns what is left of it.
Decimal numbers are read with one byte of lookahead, so the byte that ends a
number has been consumed. A result carries the proof that it leaves no more bytes
than it was given, which is what makes the recursion over lists and dictionaries
terminate on every stream.

The two const generics of `Parser` are fields of `Limits`. The depth counter is a
natural number: it never exceeds the recursion limit by more than one.

The buffer of a string is requested before its bytes are read. How large a buffer the
machine can give is a parameter, and a larger request ends the program, by a panic of
`vec!` or by an abort. Where it is left out every buffer up to `isize::MAX` bytes is given.
-/

namespace RouteServer.Bencode

open Rust

/-- Every error the parser reports, by its outermost message. -/
inductive ParseError where
  | eofReadingByte
  | eofReadingInt
  | eofReadingNegativeInt
  | eofReadingList
  | eofReadingDict
  | eofReadingStringLen
  | eofReadingStringContent
  | integersMustHaveABody
  | invalidCharacterInInteger (byte : UInt8)
  | integerOverflow
  | leadingZerosAreIllegal
  | negativeZeroIsIllegal
  | invalidCharacterInStringLength (byte : UInt8)
  | stringLengthOverflow
  | leadingZerosInStringLength
  | exceededNestingDepthLimit
  | unexpectedCharacter (byte : UInt8)
deriving DecidableEq

/-- `byte as char`, a Latin-1 character. -/
def asChar (byte : UInt8) : String := String.singleton (Char.ofNat byte.toNat)

/-- The message of an error. -/
def ParseError.message : ParseError → String
  | eofReadingByte => "EOF reading byte"
  | eofReadingInt => "EOF reading int"
  | eofReadingNegativeInt => "EOF reading negative int"
  | eofReadingList => "EOF reading list"
  | eofReadingDict => "EOF reading dict"
  | eofReadingStringLen => "EOF reading string len"
  | eofReadingStringContent => "EOF reading string content"
  | integersMustHaveABody => "Integers must have a body"
  | invalidCharacterInInteger byte => "Invalid character in integer: " ++ asChar byte
  | integerOverflow => "Integer overflow"
  | leadingZerosAreIllegal => "Leading zeros are illegal"
  | negativeZeroIsIllegal => "Negative zero is illegal"
  | invalidCharacterInStringLength byte => "Invalid character in string length: " ++ asChar byte
  | stringLengthOverflow => "String length overflow"
  | leadingZerosInStringLength => "Leading zeros not allowed in string length"
  | exceededNestingDepthLimit => "Exceeded nesting depth limit"
  | unexpectedCharacter byte => "Unexpected character in message: " ++ asChar byte

/-- The const generics of `Parser`. -/
structure Limits where
  maxRecursion : Nat
  acceptCjdnsAlignPad : Bool

/-- What the machine has for buffers. No vector is longer than `isize::MAX` bytes. -/
structure Allocator where
  largest : Nat
  bounded : largest < 2 ^ 63

/-- A machine that gives every buffer that a vector can be. -/
def Allocator.full : Allocator := ⟨2 ^ 63 - 1, by decide⟩

/-- The largest allocation is the largest signed number of a machine word. -/
theorem Allocator.le_full_iff (length : Nat) : length ≤ full.largest ↔ length < 2 ^ 63 :=
  Nat.le_sub_one_iff_lt (by decide)

/-- ASCII codes the format uses. -/
abbrev minusSign : UInt8 := 45
abbrev digitZero : UInt8 := 48
abbrev digitNine : UInt8 := 57
abbrev colon : UInt8 := 58
abbrev letterD : UInt8 := 100
abbrev letterE : UInt8 := 101
abbrev letterI : UInt8 := 105
abbrev letterL : UInt8 := 108

/-- `u8::is_ascii_digit`. -/
def isAsciiDigit (byte : UInt8) : Bool := digitZero ≤ byte && byte ≤ digitNine

/-- What the two decimal loops of the parser differ in. -/
structure Decimal where
  terminator : UInt8
  limit : Nat
  acceptLeadingZeros : Bool
  invalid : UInt8 → ParseError
  overflow : ParseError
  eof : ParseError
  leadingZeros : ParseError

/-- One more digit of a number, within the limit. -/
def pushDigit (decimal : Decimal) (byte : UInt8) (number : Nat) : Outcome ParseError Nat :=
  if isAsciiDigit byte = false then .err (decimal.invalid byte)
  else
    let next := number * 10 + (byte - digitZero).toNat
    if number * 10 > decimal.limit ∨ next > decimal.limit then .err decimal.overflow else .ok next

/-- Digits up to the terminator, added to the number so far. The current byte has
been read; the following one is read before leading zeros are judged. -/
def readDecimal (decimal : Decimal) (byte : UInt8) (number : Nat) :
    List UInt8 → Outcome ParseError (Nat × List UInt8)
  | [] =>
    if byte = decimal.terminator then .ok (number, [])
    else pushDigit decimal byte number >>= fun _ => .err decimal.eof
  | following :: rest =>
    if byte = decimal.terminator then .ok (number, following :: rest)
    else pushDigit decimal byte number >>= fun next =>
      if next = 0 ∧ following ≠ decimal.terminator ∧ decimal.acceptLeadingZeros = false then
        .err decimal.leadingZeros
      else readDecimal decimal following next rest

/-- The loop of `read_int`, bounded by `i64::MAX`. -/
def intDigits : Decimal where
  terminator := letterE
  limit := 2 ^ 63 - 1
  acceptLeadingZeros := false
  invalid := .invalidCharacterInInteger
  overflow := .integerOverflow
  eof := .eofReadingByte
  leadingZeros := .leadingZerosAreIllegal

/-- The loop of `read_string_with_byte`, bounded by `usize::MAX`. -/
def lengthDigits (acceptZeroPad : Bool) : Decimal where
  terminator := colon
  limit := 2 ^ 64 - 1
  acceptLeadingZeros := acceptZeroPad
  invalid := .invalidCharacterInStringLength
  overflow := .stringLengthOverflow
  eof := .eofReadingStringLen
  leadingZeros := .leadingZerosInStringLength

/-- `read_byte` under the context of its caller. -/
def readByte (eof : ParseError) : List UInt8 → Outcome ParseError (UInt8 × List UInt8)
  | [] => .err eof
  | byte :: rest => .ok (byte, rest)

/-- The sign of an integer and the byte after it. -/
def readSign (input : List UInt8) : Outcome ParseError (Bool × UInt8 × List UInt8) := do
  let (first, rest) ← readByte .eofReadingInt input
  if first = minusSign then do
    let (byte, rest) ← readByte .eofReadingNegativeInt rest
    return (true, byte, rest)
  else return (false, first, rest)

/-- `read_int`. -/
def readInt (input : List UInt8) : Outcome ParseError (Int64 × List UInt8) := do
  let (isNegative, byte, input) ← readSign input
  if byte = letterE then .err .integersMustHaveABody
  else do
    let (number, input) ← readDecimal intDigits byte 0 input
    if isNegative then
      if number = 0 then .err .negativeZeroIsIllegal
      else .ok (Int64.ofInt (-(number : Int)), input)
    else .ok (Int64.ofInt number, input)

/-- `read_string_with_byte`. -/
def readStringWithByte (byte : UInt8) (acceptZeroPad : Bool) (input : List UInt8)
    (memory : Allocator := .full) : Outcome ParseError (Bstr × List UInt8) := do
  let (len, input) ← readDecimal (lengthDigits acceptZeroPad) byte 0 input
  if fits : len ≤ memory.largest then
    if len ≤ input.length then
      .ok (⟨input.take len,
        (List.length_take_le len input).trans_lt (fits.trans_lt memory.bounded)⟩, input.drop len)
    else .err .eofReadingStringContent
  else .panicked

/-- The decimal loop consumes at least its terminator, unless it is the current
byte. -/
theorem readDecimal_length (decimal : Decimal) (byte : UInt8) (number result : Nat)
    (input rest : List UInt8) (read : readDecimal decimal byte number input = .ok (result, rest)) :
    rest.length ≤ input.length := by
  induction input generalizing byte number with
  | nil =>
    rw [readDecimal] at read
    split at read
    · cases read
      exact Nat.le_refl _
    · simp [Outcome.bind_ok_iff] at read
  | cons following tail inductionHypothesis =>
    rw [readDecimal] at read
    split at read
    · cases read
      exact Nat.le_refl _
    · obtain ⟨next, -, loop⟩ := (Outcome.bind_ok_iff _ _ _).mp read
      split at loop
      · cases loop
      · exact (inductionHypothesis following next loop).trans (Nat.le_succ _)

/-- A byte is read exactly where there is one. -/
theorem readByte_ok_iff (eof : ParseError) (input rest : List UInt8) (byte : UInt8) :
    readByte eof input = .ok (byte, rest) ↔ input = byte :: rest := by
  cases input <;> simp [readByte]

/-- The sign and the byte after it are consumed. -/
theorem readSign_length (input rest : List UInt8) (isNegative : Bool) (byte : UInt8)
    (read : readSign input = .ok (isNegative, byte, rest)) : rest.length < input.length := by
  simp only [readSign, Outcome.bind_ok_iff, Prod.exists, readByte_ok_iff] at read
  obtain ⟨first, afterFirst, rfl, sign⟩ := read
  split at sign
  · simp only [Outcome.bind_ok_iff, Prod.exists, readByte_ok_iff] at sign
    obtain ⟨second, afterSecond, rfl, same⟩ := sign
    cases same
    simp only [List.length_cons]
    omega
  · cases sign
    exact Nat.lt_succ_self _

/-- An integer leaves no more than it was read from. -/
theorem readInt_length (input rest : List UInt8) (number : Int64)
    (read : readInt input = .ok (number, rest)) : rest.length ≤ input.length := by
  simp only [readInt, Outcome.bind_ok_iff, Prod.exists] at read
  obtain ⟨isNegative, byte, afterSign, sign, body⟩ := read
  have signLength : afterSign.length < input.length :=
    readSign_length input afterSign isNegative byte sign
  split at body
  · cases body
  · simp only [Outcome.bind_ok_iff, Prod.exists] at body
    obtain ⟨value, afterDigits, digits, finish⟩ := body
    have digitsLength : afterDigits.length ≤ afterSign.length :=
      readDecimal_length intDigits byte 0 value afterSign afterDigits digits
    have same : afterDigits = rest := by
      split at finish
      · split at finish
        · cases finish
        · cases finish
          rfl
      · cases finish
        rfl
    rw [← same]
    omega

/-- A string leaves no more than it was read from, its length and its content. -/
theorem readStringWithByte_length {memory : Allocator} (byte : UInt8) (acceptZeroPad : Bool)
    (input rest : List UInt8) (content : Bstr)
    (read : readStringWithByte byte acceptZeroPad input memory = .ok (content, rest)) :
    rest.length ≤ input.length := by
  simp only [readStringWithByte, Outcome.bind_ok_iff, Prod.exists] at read
  obtain ⟨len, afterLength, digits, finish⟩ := read
  have digitsLength : afterLength.length ≤ input.length :=
    readDecimal_length (lengthDigits acceptZeroPad) byte 0 len input afterLength digits
  split at finish
  · split at finish
    · cases finish
      rw [List.length_drop]
      omega
    · cases finish
  · cases finish

/-- A value read from a stream, with the rest of the stream. -/
abbrev Consumed (input : List UInt8) (α : Type) :=
  { result : α × List UInt8 // result.2.length ≤ input.length }

mutual

/-- `read_generic_with_byte`. The depth is incremented for the value itself and
restored after it. -/
def readGenericWithByte (limits : Limits) (depth : Nat) (chr : UInt8) (input : List UInt8)
    (memory : Allocator := .full) : Outcome ParseError (Consumed input Object) :=
  if depth > limits.maxRecursion then .err .exceededNestingDepthLimit
  else if chr = letterL then
    match readList limits (depth + 1) [] input memory with
    | .ok ⟨(items, rest), shorter⟩ => .ok ⟨(.list items, rest), shorter⟩
    | .err fault => .err fault
    | .panicked => .panicked
  else if chr = letterD then
    match readDict limits (depth + 1) (limits.acceptCjdnsAlignPad && depth + 1 == 1) [] input
        memory with
    | .ok ⟨(entries, rest), shorter⟩ => .ok ⟨(.dict entries, rest), shorter⟩
    | .err fault => .err fault
    | .panicked => .panicked
  else if chr = letterI then
    match read : readInt input with
    | .ok (number, rest) => .ok ⟨(.integer number, rest), readInt_length input rest number read⟩
    | .err fault => .err fault
    | .panicked => .panicked
  else if isAsciiDigit chr then
    match read : readStringWithByte chr false input memory with
    | .ok (content, rest) =>
      .ok ⟨(.bytes content, rest), readStringWithByte_length chr false input rest content read⟩
    | .err fault => .err fault
    | .panicked => .panicked
  else .err (.unexpectedCharacter chr)
termination_by 2 * input.length + 1

/-- `read_list`, with the items read so far. -/
def readList (limits : Limits) (depth : Nat) (items : List Object) (input : List UInt8)
    (memory : Allocator := .full) : Outcome ParseError (Consumed input (List Object)) :=
  match input with
  | [] => .err .eofReadingList
  | byte :: input =>
    if byte = letterE then .ok ⟨(items, input), Nat.le_succ _⟩
    else match readGenericWithByte limits depth byte input memory with
      | .ok ⟨(item, rest), shorter⟩ =>
        have : rest.length ≤ input.length := shorter
        match readList limits depth (items ++ [item]) rest memory with
        | .ok ⟨(all, last), lastShorter⟩ =>
          .ok ⟨(all, last), lastShorter.trans (shorter.trans (Nat.le_succ _))⟩
        | .err fault => .err fault
        | .panicked => .panicked
      | .err fault => .err fault
      | .panicked => .panicked
termination_by 2 * input.length

/-- `read_dict`, with the entries read so far. Zero padding is accepted before
the first key only, and there only at the top level. -/
def readDict (limits : Limits) (depth : Nat) (acceptZeroPad : Bool)
    (entries : List (Bstr × Object)) (input : List UInt8) (memory : Allocator := .full) :
    Outcome ParseError (Consumed input (List (Bstr × Object))) :=
  match input with
  | [] => .err .eofReadingDict
  | byte :: input =>
    if byte = letterE then .ok ⟨(entries, input), Nat.le_succ _⟩
    else match keyRead : readStringWithByte byte acceptZeroPad input memory with
      | .ok (_, []) => .err .eofReadingByte
      | .ok (key, chr :: afterKey) =>
        have keyShorter : afterKey.length + 1 ≤ input.length :=
          readStringWithByte_length byte acceptZeroPad input (chr :: afterKey) key keyRead
        match readGenericWithByte limits depth chr afterKey memory with
        | .ok ⟨(value, rest), shorter⟩ =>
          have restShorter : rest.length ≤ afterKey.length := shorter
          match readDict limits depth false (OrderedMap.insert key value entries) rest memory with
          | .ok ⟨(all, last), lastShorter⟩ => .ok ⟨(all, last), by
              have outer : last.length ≤ rest.length := lastShorter
              simp only [List.length_cons]
              omega⟩
          | .err fault => .err fault
          | .panicked => .panicked
        | .err fault => .err fault
        | .panicked => .panicked
      | .err fault => .err fault
      | .panicked => .panicked
termination_by 2 * input.length

end

/-- What was read, without the proof that the stream got shorter. -/
def contents {input : List UInt8} {α : Type} :
    Outcome ParseError (Consumed input α) → Outcome ParseError (α × List UInt8)
  | .ok result => .ok result.1
  | .err fault => .err fault
  | .panicked => .panicked

/-- `read_generic`: the value and what follows it. -/
def readGeneric (limits : Limits) (depth : Nat) (input : List UInt8)
    (memory : Allocator := .full) : Outcome ParseError (Object × List UInt8) :=
  match input with
  | [] => .err .eofReadingByte
  | chr :: input => contents (readGenericWithByte limits depth chr input memory)

/-- `Parser::parse`, together with the bytes it leaves in the reader. -/
def parse (limits : Limits) (input : List UInt8) (memory : Allocator := .full) :
    Outcome ParseError (Object × List UInt8) :=
  readGeneric limits 0 input memory

variable {memory : Allocator}

/-- A value at a permitted depth is read by its first byte.

Proof: the branches of the reader one by one; each outcome of a call in it is the case of the
bind. -/
theorem readGeneric_cons (limits : Limits) (depth : Nat) (chr : UInt8) (input : List UInt8)
    (permitted : depth ≤ limits.maxRecursion) :
    readGeneric limits depth (chr :: input) memory =
      if chr = letterL then do
        let (items, rest) ← contents (readList limits (depth + 1) [] input memory)
        .ok (.list items, rest)
      else if chr = letterD then do
        let acceptZeroPad := limits.acceptCjdnsAlignPad && depth + 1 == 1
        let (entries, rest) ← contents (readDict limits (depth + 1) acceptZeroPad [] input memory)
        .ok (.dict entries, rest)
      else if chr = letterI then do
        let (number, rest) ← readInt input
        .ok (.integer number, rest)
      else if isAsciiDigit chr then do
        let (content, rest) ← readStringWithByte chr false input memory
        .ok (.bytes content, rest)
      else .err (.unexpectedCharacter chr) := by
  rw [readGeneric, readGenericWithByte, if_neg (Nat.not_lt.mpr permitted)]
  split
  · cases readList limits (depth + 1) [] input memory <;> rfl
  · split
    · dsimp only
      cases readDict limits (depth + 1) (limits.acceptCjdnsAlignPad && depth + 1 == 1) [] input
        memory <;> rfl
    · split
      · split <;> simp only [*] <;> rfl
      · split
        · split <;> simp only [*] <;> rfl
        · rfl

/-- A list ends at its marker, and otherwise reads one more item. -/
theorem readList_cons (limits : Limits) (depth : Nat) (items : List Object) (byte : UInt8)
    (input : List UInt8) :
    contents (readList limits depth items (byte :: input) memory) =
      if byte = letterE then .ok (items, input)
      else (do
        let (item, rest) ← readGeneric limits depth (byte :: input) memory
        contents (readList limits depth (items ++ [item]) rest memory)) := by
  rw [readList, readGeneric]
  split
  · rfl
  · match readGenericWithByte limits depth byte input memory with
    | .ok ⟨(item, rest), _⟩ =>
      simp only [contents, Outcome.ok_bind]
      cases readList limits depth (items ++ [item]) rest memory <;> rfl
    | .err fault => rfl
    | .panicked => rfl

/-- A dictionary ends at its marker, and otherwise reads one more key and its
value. Padding is accepted before the first key only. -/
theorem readDict_cons (limits : Limits) (depth : Nat) (acceptZeroPad : Bool)
    (entries : List (Bstr × Object)) (byte : UInt8) (input : List UInt8) :
    contents (readDict limits depth acceptZeroPad entries (byte :: input) memory) =
      if byte = letterE then .ok (entries, input)
      else (do
        let (key, afterKey) ← readStringWithByte byte acceptZeroPad input memory
        let (value, rest) ← readGeneric limits depth afterKey memory
        contents
          (readDict limits depth false (OrderedMap.insert key value entries) rest memory)) := by
  rw [readDict]
  split
  · rfl
  · split <;> rename_i keyRead <;> simp only [keyRead] <;> try rfl
    rename_i key chr afterKey
    simp only [Outcome.ok_bind, readGeneric]
    match readGenericWithByte limits depth chr afterKey memory with
    | .ok ⟨(value, rest), _⟩ =>
      simp only [contents, Outcome.ok_bind]
      cases readDict limits depth false (OrderedMap.insert key value entries) rest memory <;> rfl
    | .err fault => rfl
    | .panicked => rfl

end RouteServer.Bencode
