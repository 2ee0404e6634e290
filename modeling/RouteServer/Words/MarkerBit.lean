import Mathlib.Data.List.Induction
import Mathlib.Data.Nat.Bitwise

/-!
# Bit strings under a marker bit

A non-zero number holds a bit string of any length: its highest set bit marks where the
string begins, and the bits below are the string, most significant first. Appending
strings shifts the first number and clears the marker of the second. A suffix is a
number of low bits, and dropping it is a shift to the right.
-/

namespace MarkerBit

/-- Put bits below a number. -/
def pushAll (high : Nat) (bits : List Bool) : Nat :=
  bits.foldl (fun high bit => 2 * high + bit.toNat) high

/-- The number of a bit string without a marker. -/
def low (bits : List Bool) : Nat := pushAll 0 bits

/-- A bit string below a marker. -/
def encode (bits : List Bool) : Nat := pushAll 1 bits

/-- The bit string below the highest set bit. -/
def payload (number : Nat) : List Bool := ((List.range number.log2).map number.testBit).reverse

/-- A number has as many bits below its highest as its logarithm. -/
@[simp] theorem length_payload (number : Nat) : (payload number).length = number.log2 := by
  simp [payload]

/-- Bits put below a number shift it to the left. -/
theorem pushAll_eq (high : Nat) (bits : List Bool) :
    pushAll high bits = 2 ^ bits.length * high + low bits := by
  induction bits using List.reverseRecOn with
  | nil => simp [pushAll, low]
  | append_singleton bits bit inductionHypothesis =>
    have step (start : Nat) : pushAll start (bits ++ [bit]) = 2 * pushAll start bits + bit.toNat :=
      List.foldl_append
    rw [low, step, step, inductionHypothesis, List.length_append, List.length_singleton,
      Nat.pow_succ', Nat.mul_assoc, ← low]
    omega

/-- Bits are less than the next power of two. -/
theorem low_lt (bits : List Bool) : low bits < 2 ^ bits.length := by
  induction bits using List.reverseRecOn with
  | nil => decide
  | append_singleton bits bit inductionHypothesis =>
    have step : low (bits ++ [bit]) = 2 * low bits + bit.toNat := List.foldl_append
    have bitBound : bit.toNat < 2 := bit.toNat_lt
    rw [step, List.length_append, List.length_singleton, Nat.pow_succ']
    omega

/-- The marker stands above the bits. -/
theorem encode_eq (bits : List Bool) : encode bits = 2 ^ bits.length + low bits := by
  rw [encode, pushAll_eq, Nat.mul_one]

/-- With its marker no number is zero. -/
theorem encode_ne_zero (bits : List Bool) : encode bits ≠ 0 := by
  have positive : 0 < 2 ^ bits.length := Nat.two_pow_pos _
  rw [encode_eq]
  omega

/-- The marker stands above the string. -/
@[simp] theorem log2_encode (bits : List Bool) : (encode bits).log2 = bits.length := by
  have bound := low_lt bits
  rw [Nat.log2_eq_iff (encode_ne_zero bits), encode_eq, Nat.pow_succ']
  omega

/-- A string of some length has a number of one bit more. -/
theorem encode_lt_iff (bits : List Bool) (width : Nat) :
    encode bits < 2 ^ width ↔ bits.length < width := by
  rw [← Nat.log2_lt (encode_ne_zero bits), log2_encode]

/-- The lowest bit of a number is the last of its string. -/
theorem payload_push {high : Nat} (nonzero : high ≠ 0) (bit : Bool) :
    payload (2 * high + bit.toNat) = payload high ++ [bit] := by
  have bitBound : bit.toNat < 2 := bit.toNat_lt
  have shorter : (2 * high + bit.toNat).log2 = high.log2 + 1 := by
    rw [Nat.log2_def, if_pos (by omega)]
    congr
    omega
  have upper (index : Nat) : (2 * high + bit.toNat).testBit (index + 1) = high.testBit index := by
    rw [Nat.testBit_succ]
    congr
    omega
  have lowest : (2 * high + bit.toNat).testBit 0 = bit := by
    cases bit <;> simp [Nat.testBit_zero]
  rw [payload, payload, shorter, List.range_succ_eq_map, List.map_cons, List.reverse_cons,
    List.map_map, lowest]
  exact congrArg (fun bits => (List.map bits (List.range high.log2)).reverse ++ [bit])
    (funext upper)

/-- Every string is read back. -/
@[simp] theorem payload_encode (bits : List Bool) : payload (encode bits) = bits := by
  induction bits using List.reverseRecOn with
  | nil => rfl
  | append_singleton bits bit inductionHypothesis =>
    have step : encode (bits ++ [bit]) = 2 * encode bits + bit.toNat := List.foldl_append
    rw [step, payload_push (encode_ne_zero bits), inductionHypothesis]

/-- Every non-zero number is that of its string. -/
theorem encode_payload {number : Nat} (nonzero : number ≠ 0) :
    encode (payload number) = number := by
  induction number using Nat.strongRecOn with
  | ind number inductionHypothesis =>
    by_cases one : number = 1
    · subst one
      rfl
    · have split : 2 * (number / 2) + (number.testBit 0).toNat = number := by
        rw [Nat.testBit_zero]
        rcases Nat.mod_two_eq_zero_or_one number with even | odd
        · simp only [even, Nat.zero_ne_one, decide_false, Bool.toNat_false]
          omega
        · simp only [odd, decide_true, Bool.toNat_true]
          omega
      have half : number / 2 ≠ 0 := by omega
      have step : encode (payload (number / 2) ++ [number.testBit 0]) =
          2 * encode (payload (number / 2)) + (number.testBit 0).toNat := List.foldl_append
      rw [← split, payload_push half, split, step, inductionHypothesis _ (by omega) half, split]

/-- Numbers with the same marker and bits come from the same bits. -/
theorem encode_injective {first second : List Bool} (same : encode first = encode second) :
    first = second := by
  rw [← payload_encode first, same, payload_encode]

/-- Strings of one length with one number are equal. -/
theorem low_injective {first second : List Bool} (lengths : first.length = second.length)
    (same : low first = low second) : first = second :=
  encode_injective (by rw [encode_eq, encode_eq, lengths, same])

/-- Appending strings shifts the first number and clears the marker of the second. -/
theorem encode_append (first second : List Bool) :
    encode (first ++ second) = 2 ^ second.length * encode first + low second := by
  rw [encode, pushAll, List.foldl_append]
  exact pushAll_eq (encode first) second

/-- Bits below a shifted number are added by exclusive or. -/
theorem shiftLeft_xor {width below : Nat} (high : Nat) (bound : below < 2 ^ width) :
    (high <<< width) ^^^ below = 2 ^ width * high + below := by
  apply Nat.eq_of_testBit_eq
  intro index
  rw [Nat.testBit_two_pow_mul_add high bound, Nat.testBit_xor, Nat.testBit_shiftLeft]
  split
  · next inside => simp [Nat.not_le.mpr inside]
  · next outside =>
    have clear : below.testBit index = false := Nat.testBit_lt_two_pow
      (Nat.lt_of_lt_of_le bound (Nat.pow_le_pow_right (by decide) (Nat.not_lt.mp outside)))
    simp [clear, Nat.not_lt.mp outside]

/-- The marker of the second number, taken away with exclusive or, leaves the lowest bit
of the first one as it was. -/
theorem join_eq {first second : Nat} (firstNonzero : first ≠ 0) (secondNonzero : second ≠ 0) :
    ((first ^^^ 1) <<< second.log2) ^^^ second = encode (payload first ++ payload second) := by
  have bound := low_lt (payload second)
  have marked := shiftLeft_xor 1 bound
  rw [Nat.mul_one, ← encode_eq, encode_payload secondNonzero] at marked
  rw [length_payload] at marked
  calc ((first ^^^ 1) <<< second.log2) ^^^ second
      = ((first ^^^ 1) <<< second.log2) ^^^ ((1 <<< second.log2) ^^^ low (payload second)) := by
        rw [marked]
    _ = (first <<< second.log2) ^^^ low (payload second) := by
        rw [← Nat.xor_assoc, ← Nat.shiftLeft_xor_distrib, Nat.xor_assoc, Nat.xor_self,
          Nat.xor_zero]
    _ = encode (payload first ++ payload second) := by
        rw [← length_payload, shiftLeft_xor first bound, encode_append,
          encode_payload firstNonzero]

/-- Dropping a suffix is a shift to the right. -/
theorem shiftRight_encode_append (first second : List Bool) :
    encode (first ++ second) >>> second.length = encode first := by
  rw [encode_append, Nat.shiftRight_eq_div_pow, Nat.mul_add_div (Nat.two_pow_pos _),
    Nat.div_eq_of_lt (low_lt second), Nat.add_zero]

/-- The low bits of a number are the suffix of that length. -/
theorem mod_eq_low {number : Nat} {front back : List Bool} (nonzero : number ≠ 0)
    (split : front ++ back = payload number) : number % 2 ^ back.length = low back := by
  rw [← encode_payload nonzero, ← split, encode_append, Nat.mul_add_mod,
    Nat.mod_eq_of_lt (low_lt back)]

/-- A string is a suffix of another exactly when it is no longer and the low bits agree. -/
theorem suffix_iff {number suffix : Nat} (nonzero : number ≠ 0) (suffixNonzero : suffix ≠ 0) :
    payload suffix <:+ payload number ↔
      suffix.log2 ≤ number.log2 ∧ number % 2 ^ suffix.log2 = suffix % 2 ^ suffix.log2 := by
  have own : suffix % 2 ^ suffix.log2 = low (payload suffix) := by
    have whole := mod_eq_low suffixNonzero (List.nil_append (payload suffix))
    rwa [length_payload] at whole
  rw [own]
  constructor
  · rintro ⟨front, split⟩
    have lengths := congrArg List.length split
    rw [List.length_append, length_payload, length_payload] at lengths
    have agree := mod_eq_low nonzero split
    rw [length_payload] at agree
    exact ⟨by omega, agree⟩
  · rintro ⟨shorter, agree⟩
    have split := List.take_append_drop (number.log2 - suffix.log2) (payload number)
    have length : ((payload number).drop (number.log2 - suffix.log2)).length = suffix.log2 := by
      rw [List.length_drop, length_payload]
      omega
    have back := mod_eq_low nonzero split
    rw [length, agree] at back
    have same := low_injective (by rw [length, length_payload]) back.symm
    exact same ▸ List.drop_suffix _ _

end MarkerBit
