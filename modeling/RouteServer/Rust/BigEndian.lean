import Mathlib.Data.List.Induction
import RouteServer.Rust.Reader

/-!
# Writing bytes that a reader takes back

Numbers are written in big-endian order at a fixed number of bytes. A reader that
finds them in front takes the number, or the bytes, and leaves what follows.
-/

namespace Rust

/-- `to_be_bytes` of a number of the given number of bytes. -/
def toBe : Nat → Nat → List UInt8
  | 0, _ => []
  | count + 1, value => toBe count (value / 256) ++ [UInt8.ofNat value]

/-- As many bytes are made as were asked for. -/
@[simp] theorem toBe_length (count value : Nat) : (toBe count value).length = count := by
  induction count generalizing value with
  | zero => rfl
  | succ count inductionHypothesis =>
    rw [toBe, List.length_append, inductionHypothesis, List.length_singleton]

/-- The last byte is the lowest. -/
theorem bigEndian_append (bytes : List UInt8) (byte : UInt8) :
    bigEndian (bytes ++ [byte]) = bigEndian bytes * 256 + byte.toNat := by
  rw [bigEndian, List.foldl_append]
  rfl

/-- A number that fits is the number its bytes spell. -/
theorem bigEndian_toBe {count value : Nat} (fits : value < 256 ^ count) :
    bigEndian (toBe count value) = value := by
  induction count generalizing value with
  | zero =>
    have zero : value = 0 := by simpa using fits
    rw [zero]
    rfl
  | succ count inductionHypothesis =>
    have shorter : value / 256 < 256 ^ count := by
      rw [Nat.pow_succ] at fits
      exact Nat.div_lt_of_lt_mul (by rwa [Nat.mul_comm])
    rw [toBe, bigEndian_append, inductionHypothesis shorter, UInt8.toNat_ofNat']
    omega

/-- Bytes are those of the number they spell. -/
theorem toBe_bigEndian (bytes : List UInt8) : toBe bytes.length (bigEndian bytes) = bytes := by
  induction bytes using List.reverseRecOn with
  | nil => rfl
  | append_singleton bytes byte inductionHypothesis =>
    have small : byte.toNat < 256 := byte.toNat_lt
    have upper : (bigEndian bytes * 256 + byte.toNat) / 256 = bigEndian bytes := by omega
    have lower : UInt8.ofNat (bigEndian bytes * 256 + byte.toNat) = byte := by
      rw [← UInt8.toNat_inj, UInt8.toNat_ofNat']
      omega
    rw [List.length_append, List.length_singleton, bigEndian_append, toBe, upper, lower,
      inductionHypothesis]

/-- A number is less than the next one with more bytes. -/
theorem bigEndian_lt (bytes : List UInt8) : bigEndian bytes < 256 ^ bytes.length := by
  induction bytes using List.reverseRecOn with
  | nil => exact Nat.one_pos
  | append_singleton bytes byte inductionHypothesis =>
    have small : byte.toNat < 256 := byte.toNat_lt
    rw [bigEndian_append, List.length_append, List.length_singleton, Nat.pow_succ]
    omega

/-- Bytes in front of a reader are taken as they are. -/
theorem readSlice_append {count : Nat} {bytes : List UInt8} (sized : bytes.length = count)
    (rest : List UInt8) : readSlice count (bytes ++ rest) = some (bytes, rest) := by
  rw [readSlice, if_pos (by simp [sized]), List.take_left' sized, List.drop_left' sized]

/-- What a reader gives stood in front of what it leaves. -/
theorem readSlice_ok {count : Nat} {reader bytes rest : List UInt8}
    (read : readSlice count reader = some (bytes, rest)) :
    reader = bytes ++ rest ∧ bytes.length = count := by
  rw [readSlice] at read
  split at read
  · next enough =>
    cases read
    exact ⟨(List.take_append_drop _ _).symm, List.length_take_of_le enough⟩
  · cases read

/-- The bytes of a number that was read stood in front of what is left. -/
theorem readBe_ok {count value : Nat} {reader rest : List UInt8}
    (read : readBe count reader = some (value, rest)) :
    reader = toBe count value ++ rest ∧ value < 256 ^ count := by
  rw [readBe, Option.map_eq_some_iff] at read
  obtain ⟨⟨bytes, left⟩, sliced, same⟩ := read
  obtain ⟨rfl, sized⟩ := readSlice_ok sliced
  cases same
  rw [← sized, toBe_bigEndian]
  exact ⟨rfl, bigEndian_lt bytes⟩

/-- A number in front of a reader is read back. -/
theorem readBe_append {count value : Nat} (fits : value < 256 ^ count) (rest : List UInt8) :
    readBe count (toBe count value ++ rest) = some (value, rest) := by
  simp only [readBe, readSlice_append (toBe_length count value), Option.map_some,
    bigEndian_toBe fits]

end Rust
