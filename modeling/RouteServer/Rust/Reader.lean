import Mathlib.Algebra.Group.Nat.Defs

/-!
# Reading bytes from the front

A reader is the list of bytes it has left. Reading more than is left fails, and the
numbers are big-endian. A variable-length number is a byte, or a marker followed by
a number of two, four or eight bytes that must fit the type asked for.
-/

namespace Rust

/-- An array of a fixed size, `[u8; size]`. -/
structure Bytes (size : Nat) where
  bytes : List UInt8
  sized : bytes.length = size
deriving DecidableEq

/-- The number that bytes spell in big-endian order. -/
def bigEndian (bytes : List UInt8) : Nat :=
  bytes.foldl (fun value byte => value * 256 + byte.toNat) 0

/-- Two lower-case digits for every byte, as `hex::encode`. -/
def hexEncode (bytes : List UInt8) : List Char :=
  bytes.flatMap fun byte => [Nat.digitChar (byte.toNat / 16), Nat.digitChar (byte.toNat % 16)]

/-- `Reader::read_slice`. -/
def readSlice (count : Nat) (reader : List UInt8) : Option (List UInt8 × List UInt8) :=
  if count ≤ reader.length then some (reader.take count, reader.drop count) else none

/-- `Reader::read_u16_be` and its siblings, at the given number of bytes. -/
def readBe (count : Nat) (reader : List UInt8) : Option (Nat × List UInt8) :=
  (readSlice count reader).map fun (bytes, rest) => (bigEndian bytes, rest)

/-- Why a variable-length number cannot be read. -/
inductive VarIntError where
  | unexpectedEndOfData
  | malformedEncoding (needed : Nat) (marker : UInt8)
  | valueTooBig (value width needed : Nat)
deriving DecidableEq

/-- A number of some bytes after its marker, in a type of the given width. -/
def readMarked (width count : Nat) (marker : UInt8) (reader : List UInt8) :
    Except VarIntError (Nat × List UInt8) :=
  match readBe count reader with
  | none => .error (.malformedEncoding count marker)
  | some (value, rest) =>
    if value < 2 ^ width then .ok (value, rest)
    else .error (.valueTooBig value width (8 * count))

/-- `read_var_int`, in a type of the given width of at least eight bits. -/
def readVarInt (width : Nat) : List UInt8 → Except VarIntError (Nat × List UInt8)
  | [] => .error .unexpectedEndOfData
  | byte :: rest =>
    if byte = 0xff then readMarked width 8 byte rest
    else if byte = 0xfe then readMarked width 4 byte rest
    else if byte = 0xfd then readMarked width 2 byte rest
    else .ok (byte.toNat, rest)

/-- What is read of a reader leaves a shorter one.

Proof: by the marker in front; a marker is followed by its number of bytes, and without one the
byte is the number. -/
theorem readVarInt_length {width value : Nat} {reader rest : List UInt8}
    (read : readVarInt width reader = .ok (value, rest)) : rest.length < reader.length := by
  have marked : ∀ (count : Nat) (marker : UInt8) (tail : List UInt8),
      readMarked width count marker tail = .ok (value, rest) → rest.length ≤ tail.length := by
    intro count marker tail ok
    simp only [readMarked, readBe, readSlice] at ok
    split at ok
    · cases ok
    · next found =>
      split at ok
      · cases ok
        split at found
        · cases found
          rw [List.length_drop]
          omega
        · cases found
      · cases ok
  cases reader with
  | nil => cases read
  | cons byte tail =>
    rw [readVarInt] at read
    rw [List.length_cons]
    split at read
    · exact Nat.lt_succ_of_le (marked _ _ _ read)
    · split at read
      · exact Nat.lt_succ_of_le (marked _ _ _ read)
      · split at read
        · exact Nat.lt_succ_of_le (marked _ _ _ read)
        · cases read
          exact Nat.lt_succ_self _

end Rust
