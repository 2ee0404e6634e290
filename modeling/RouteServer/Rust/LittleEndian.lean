import Mathlib.Data.Nat.Digits.Lemmas

/-!
# Byte strings as little-endian numbers

A byte string denotes one natural number, its first byte least significant. Bit
positions of the string are then bit positions of the number, and a packed
bit field is a quotient and a remainder. Packing and unpacking loops are related
to this number once, and every later argument is ordinary arithmetic on it.
-/

namespace Rust

/-- The number a byte string denotes when its first byte is least significant. -/
def byteValue (bytes : List UInt8) : Nat := Nat.ofDigits 256 (bytes.map UInt8.toNat)

/-- No bytes are zero. -/
@[simp] theorem byteValue_nil : byteValue [] = 0 := rfl

/-- The first byte is the lowest. -/
theorem byteValue_cons (byte : UInt8) (bytes : List UInt8) :
    byteValue (byte :: bytes) = byte.toNat + 256 * byteValue bytes := by
  simp [byteValue, Nat.ofDigits_cons]

/-- Bytes that come behind others count for more. -/
theorem byteValue_append (left right : List UInt8) :
    byteValue (left ++ right) = byteValue left + 256 ^ left.length * byteValue right := by
  simp [byteValue, Nat.ofDigits_append]

/-- Bytes are digits in base 256. -/
theorem byte_digits (bytes : List UInt8) : ∀ digit ∈ bytes.map UInt8.toNat, digit < 256 := by
  intro digit member
  obtain ⟨byte, _, rfl⟩ := List.mem_map.mp member
  exact byte.toNat_lt

/-- Dropping leading bytes divides the number by their weight. -/
theorem byteValue_drop (bytes : List UInt8) (count : Nat) :
    byteValue (bytes.drop count) = byteValue bytes / 256 ^ count := by
  unfold byteValue
  rw [Nat.ofDigits_div_pow_eq_ofDigits_drop count (by decide) _ (byte_digits bytes), List.map_drop]

/-- Bit `8 * index + position` of the number is bit `position` of the byte at
`index`. -/
theorem byteValue_testBit (bytes : List UInt8) (index position : Nat)
    (inside : index < bytes.length) (low : position < 8) :
    (byteValue bytes).testBit (8 * index + position) = bytes[index].toNat.testBit position := by
  induction bytes generalizing index with
  | nil => simp at inside
  | cons byte rest inductionHypothesis =>
    have base : 256 * byteValue rest + byte.toNat = 2 ^ 8 * byteValue rest + byte.toNat := by
      norm_num
    have small : byte.toNat < 2 ^ 8 := byte.toNat_lt
    rw [byteValue_cons, Nat.add_comm, base]
    cases index with
    | zero =>
      rw [Nat.testBit_two_pow_mul_add _ small]
      simp [low]
    | succ index =>
      have beyond : ¬ 8 * (index + 1) + position < 8 := by omega
      have shifted : 8 * (index + 1) + position - 8 = 8 * index + position := by omega
      rw [Nat.testBit_two_pow_mul_add _ small, if_neg beyond, shifted,
        inductionHypothesis index (by simpa using inside)]
      rfl

/-- The bit field of a number at an offset, `width` bits wide. -/
def field (number offset width : Nat) : Nat := number / 2 ^ offset % 2 ^ width

/-- A field has as many bits as it is wide. -/
theorem field_lt (number offset width : Nat) : field number offset width < 2 ^ width :=
  Nat.mod_lt _ (by positivity)

/-- A field without bits is zero. -/
@[simp] theorem field_zero_width (number offset : Nat) : field number offset 0 = 0 := by
  simp [field, Nat.mod_one]

/-- Two adjacent fields make one field, the lower one less significant. -/
theorem field_add (number offset low high : Nat) :
    field number offset (low + high) =
      field number offset low + 2 ^ low * field number (offset + low) high := by
  unfold field
  rw [Nat.pow_add, Nat.mod_mul, Nat.div_div_eq_div_mul, ← Nat.pow_add]

/-- A field one bit wide is that bit. -/
theorem field_one (number offset : Nat) :
    field number offset 1 = (number.testBit offset).toNat := by
  rw [field, Nat.pow_one, Nat.toNat_testBit]

end Rust
