import RouteServer.Rust.BigEndian
import RouteServer.Rust.Outcome

/-!
# Reading a header or a body

A reader first checks the size it is promised, and then runs a job of several
reads. The job must not read beyond the bytes, and must read as many as were
promised; both are assertions, so a job that breaks them panics.

Errors carry the texts of the source. They are shared by all headers and bodies.
-/

namespace RouteServer.Bytes

open Rust

/-- `ParseError`. -/
inductive ParseError where
  | invalidPacketSize
  | invalidInvariant (text : String)
  | invalidData (text : String)
  | invalidChecksum (received computed : UInt16)
deriving DecidableEq

/-- `SerializeError`. -/
inductive SerializeError where
  | unrecognizedData
  | invalidInvariant (text : String)
  | invalidData (text : String)
deriving DecidableEq

/-- `ExpectedSize`. -/
inductive ExpectedSize where
  | exact (count : Nat)
  | notLessThan (count : Nat)

/-- Whether a buffer has the size. -/
def ExpectedSize.admits : ExpectedSize → Nat → Bool
  | .exact count, len => len = count
  | .notLessThan count, len => count ≤ len

/-- Whether enough has been read, by the lengths before and after. -/
def ExpectedSize.consumed : ExpectedSize → Nat → Nat → Bool
  | .exact count, before, after => after = before - count
  | .notLessThan count, before, after => after ≤ before - count

/-- `Reader::read_u8`. -/
def readU8 : List UInt8 → Option (UInt8 × List UInt8)
  | [] => none
  | byte :: rest => some (byte, rest)

/-- The first byte is read. -/
@[simp] theorem readU8_cons (byte : UInt8) (rest : List UInt8) :
    readU8 (byte :: rest) = some (byte, rest) := rfl

/-- `Reader::read_array_32`. -/
def readArray32 (r : List UInt8) : Option (Rust.Bytes 32 × List UInt8) :=
  if enough : 32 ≤ r.length then
    some (⟨r.take 32, List.length_take_of_le enough⟩, r.drop 32)
  else none

/-- An array in front of a reader is taken. -/
theorem readArray32_append (array : Rust.Bytes 32) (rest : List UInt8) :
    readArray32 (array.bytes ++ rest) = some (array, rest) := by
  obtain ⟨bytes, sized⟩ := array
  rw [readArray32, dif_pos (by simp [sized])]
  simp [List.take_left' sized, List.drop_left' sized]

/-- A byte that was read stood in front of what is left. -/
theorem readU8_ok {byte : UInt8} {r rest : List UInt8} (read : readU8 r = some (byte, rest)) :
    r = byte :: rest := by
  cases r with
  | nil => cases read
  | cons first others =>
    cases read
    rfl

/-- An array that was read stood in front of what is left. -/
theorem readArray32_ok {array : Rust.Bytes 32} {r rest : List UInt8}
    (read : readArray32 r = some (array, rest)) : r = array.bytes ++ rest := by
  rw [readArray32] at read
  split at read
  · cases read
    exact (List.take_append_drop _ _).symm
  · cases read

/-- `Reader::read` under `map_err(|_| ParseError::InvalidPacketSize)`, as all its
callers have it. -/
def read {α : Type} (expected : ExpectedSize) (job : List UInt8 → Option (α × List UInt8))
    (bytes : List UInt8) : Outcome ParseError α :=
  if expected.admits bytes.length then
    match job bytes with
    | none => .panicked
    | some (value, rest) => do
      Outcome.assert (expected.consumed bytes.length rest.length)
      .ok value
  else .err .invalidPacketSize

/-- A job that reads all of a buffer of exactly the promised size. -/
theorem read_exact {α : Type} {count : Nat} {job : List UInt8 → Option (α × List UInt8)}
    {bytes : List UInt8} {value : α} (sized : bytes.length = count)
    (done : job bytes = some (value, [])) : read (.exact count) job bytes = .ok value := by
  simp [read, ExpectedSize.admits, ExpectedSize.consumed, sized, done]

/-- A buffer that was read has the promised size, and the job read all of it. -/
theorem read_exact_ok {α : Type} {count : Nat} {job : List UInt8 → Option (α × List UInt8)}
    {bytes : List UInt8} {value : α} (ok : read (.exact count) job bytes = .ok value) :
    bytes.length = count ∧ job bytes = some (value, []) := by
  rw [read] at ok
  split at ok
  · next sized =>
    have length : bytes.length = count := by simpa [ExpectedSize.admits] using sized
    split at ok
    · cases ok
    · next found rest done =>
      have consumed : rest.length = 0 := by
        simp only [ExpectedSize.consumed, length, Nat.sub_self, Outcome.assert] at ok
        split at ok
        · next holds => exact of_decide_eq_true holds
        · cases ok
      simp only [ExpectedSize.consumed, length, Nat.sub_self, consumed, decide_true,
        Outcome.assert_true, Outcome.ok_bind, Outcome.ok.injEq] at ok
      rw [List.length_eq_zero_iff.mp consumed, ok] at done
      exact ⟨length, done⟩
  · cases ok

/-- A job that leaves nothing of a buffer with at least the promised size. -/
theorem read_notLessThan {α : Type} {count : Nat} {job : List UInt8 → Option (α × List UInt8)}
    {bytes : List UInt8} {value : α} (enough : count ≤ bytes.length)
    (done : job bytes = some (value, [])) : read (.notLessThan count) job bytes = .ok value := by
  simp [read, ExpectedSize.admits, ExpectedSize.consumed, enough, done]

end RouteServer.Bytes
