import Mathlib.Data.Nat.Digits.Defs
import RouteServer.Bencode.Parser

/-!
# The bencode serializer

The writer is a stack of bytes: every write prepends. The serializer therefore
works from the end of a value to its beginning, and a list or a dictionary is
written last item first. A stack takes any write, so no call fails.

Alignment concerns only the outermost dictionary. Zeros are put before the length
of its first key until the stack, the `d` included, is a multiple of the boundary.
-/

namespace RouteServer.Bencode

/-- The ASCII digit of a number below ten. -/
def digitByte (digit : Nat) : UInt8 := UInt8.ofNat (48 + digit)

/-- Decimal digits, the most significant first. Zero is a single digit. -/
def decimalDigits (number : Nat) : List Nat :=
  if number = 0 then [0] else (Nat.digits 10 number).reverse

/-- `to_string` on an unsigned number. -/
def decimal (number : Nat) : List UInt8 := (decimalDigits number).map digitByte

/-- `to_string` on a signed number. -/
def signedDecimal (number : Int64) : List UInt8 :=
  if number.toInt < 0 then minusSign :: decimal number.toInt.natAbs
  else decimal number.toInt.natAbs

/-- `write_int`. -/
def writeInt (number : Int64) (writer : List UInt8) : List UInt8 :=
  letterI :: (signedDecimal number ++ letterE :: writer)

/-- `write_string`. -/
def writeString (content : Bstr) (writer : List UInt8) : List UInt8 :=
  decimal content.bytes.length ++ colon :: (content.bytes ++ writer)

/-- Zeros before the `d` that closes the writing of a dictionary. -/
def alignDict (align : Nat) (writer : List UInt8) : List UInt8 :=
  if align > 1 then
    let totalLenWithD := writer.length + 1
    List.replicate ((align - totalLenWithD % align) % align) digitZero ++ writer
  else writer

mutual

/-- `write_value`, with `write_list` and `write_dict` in its branches. -/
def writeValue (value : Object) (cjdnsAlign : Nat) (writer : List UInt8) : List UInt8 :=
  match value with
  | .bytes content => writeString content writer
  | .dict entries => letterD :: alignDict cjdnsAlign (writeEntries entries (letterE :: writer))
  | .list items => letterL :: writeItems items (letterE :: writer)
  | .integer number => writeInt number writer

/-- The loop of `write_list`: the last item is written first. -/
def writeItems (items : List Object) (writer : List UInt8) : List UInt8 :=
  match items with
  | [] => writer
  | item :: rest => writeValue item 0 (writeItems rest writer)

/-- The loop of `write_dict`: the last entry is written first, its value before
its key. -/
def writeEntries (entries : List (Bstr × Object)) (writer : List UInt8) : List UInt8 :=
  match entries with
  | [] => writer
  | (key, value) :: rest => writeString key (writeValue value 0 (writeEntries rest writer))

end

/-- `serialize`: the content of the writer afterwards. -/
def serialize (writer : List UInt8) (object : Object) (cjdnsAlign : Nat) : List UInt8 :=
  writeValue object cjdnsAlign writer

/-- A string is written before what was written already. -/
theorem writeString_append (content : Bstr) (writer rest : List UInt8) :
    writeString content (writer ++ rest) = writeString content writer ++ rest := by
  simp [writeString]

/-- An integer is written before what was written already. -/
theorem writeInt_append (number : Int64) (writer rest : List UInt8) :
    writeInt number (writer ++ rest) = writeInt number writer ++ rest := by
  simp [writeInt]

/-- Without alignment a value does not depend on what the stack holds below it. -/
theorem writeValue_append (value : Object) (writer rest : List UInt8) :
    writeValue value 0 (writer ++ rest) = writeValue value 0 writer ++ rest := by
  induction value using Object.tree_induction generalizing writer rest with
  | bytes content => simp only [writeValue, writeString_append]
  | integer number => simp only [writeValue, writeInt_append]
  | list items inductionHypothesis =>
    have each : writeItems items (letterE :: writer ++ rest) =
        writeItems items (letterE :: writer) ++ rest := by
      induction items with
      | nil => rfl
      | cons item others othersHypothesis =>
        obtain ⟨first, remaining⟩ := List.forall_mem_cons.mp inductionHypothesis
        simp only [writeItems, othersHypothesis remaining, first]
    simp only [writeValue, ← List.cons_append, each]
  | dict entries inductionHypothesis =>
    have each : writeEntries entries (letterE :: writer ++ rest) =
        writeEntries entries (letterE :: writer) ++ rest := by
      induction entries with
      | nil => rfl
      | cons entry others othersHypothesis =>
        obtain ⟨first, remaining⟩ := List.forall_mem_cons.mp inductionHypothesis
        simp only [writeEntries, othersHypothesis remaining, first, writeString_append]
    simp only [writeValue, alignDict, ← List.cons_append, each]
    simp

end RouteServer.Bencode
