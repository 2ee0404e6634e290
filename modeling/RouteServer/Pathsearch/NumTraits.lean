import RouteServer.Pathsearch.Frontier
import RouteServer.Words.Double

/-!
# The order of finite weights

The weights of the path search are doubles. They are ordered by a signed number made of
their bits: the bits themselves for a positive double, and with all but the sign inverted
for a negative one. A lesser double has the lesser number.
-/

namespace RouteServer.Pathsearch

open Words

/-- `into_ord` of an `f64` that passes its assertion, the result an `i64`. -/
instance : IntoOrd Double Int where
  intoOrd weight := (weight.bits ^^^ (weight.bits.sshiftRight 63 >>> 1)).toInt

/-- The bits of a negative number are turned over but for the sign. -/
theorem intoOrd_double (weight : Double) :
    intoOrd weight = (weight.bits ^^^ (weight.bits.sshiftRight 63 >>> 1)).toInt := rfl

/-- All bits of a number inverted. -/
theorem xor_ones {number width : Nat} (fits : number < 2 ^ width) :
    number ^^^ (2 ^ width - 1) = 2 ^ width - 1 - number := by
  have inverted := congrArg BitVec.toNat (BitVec.xor_allOnes (x := BitVec.ofNat width number))
  rwa [BitVec.toNat_xor, BitVec.toNat_allOnes, BitVec.toNat_not, BitVec.toNat_ofNat,
    Nat.mod_eq_of_lt fits] at inverted

/-- Without a sign the bits are the order. -/
theorem intoOrd_of_not_negative {weight : Double} (positive : weight.bits.msb = false) :
    intoOrd weight = (weight.unsigned : Int) := by
  have small : weight.bits.toNat < 2 ^ 63 := by
    simpa [BitVec.msb_eq_decide] using positive
  have signs : weight.bits.sshiftRight 63 = 0#64 := by
    rw [BitVec.sshiftRight_eq_of_msb_false positive]
    apply BitVec.eq_of_toNat_eq
    rw [BitVec.toNat_ushiftRight, Nat.shiftRight_eq_div_pow, Nat.div_eq_of_lt small]
    rfl
  rw [intoOrd_double, signs, BitVec.zero_ushiftRight, BitVec.xor_zero,
    BitVec.toInt_eq_toNat_of_msb positive, Double.unsigned, Nat.mod_eq_of_lt small]

/-- With a sign the order is turned over.

Proof: the arithmetic shift of a word with a sign is all ones, so the mask turns over all bits
below the sign; the rest is arithmetic on these bits as numbers. -/
theorem intoOrd_of_negative {weight : Double} (negative : weight.bits.msb = true) :
    intoOrd weight = -1 - (weight.unsigned : Int) := by
  have large : 2 ^ 63 ≤ weight.bits.toNat := by
    simpa [BitVec.msb_eq_decide] using negative
  have bounded : weight.bits.toNat < 2 ^ 64 := weight.bits.isLt
  have signs : weight.bits.sshiftRight 63 = BitVec.allOnes 64 := by
    rw [BitVec.sshiftRight_eq_of_msb_true negative]
    have none : ~~~weight.bits >>> 63 = 0#64 := by
      apply BitVec.eq_of_toNat_eq
      rw [BitVec.toNat_ushiftRight, BitVec.toNat_not, Nat.shiftRight_eq_div_pow,
        Nat.div_eq_of_lt (by omega)]
      rfl
    rw [none]
    rfl
  have inverted : (weight.bits ^^^ (BitVec.allOnes 64 >>> 1)).toNat =
      2 ^ 64 - 1 - weight.unsigned := by
    have mask : (BitVec.allOnes 64 >>> 1).toNat = 2 ^ 63 - 1 := rfl
    have low := Nat.xor_mod_two_pow (a := weight.bits.toNat) (b := 2 ^ 63 - 1) (n := 63)
    have high := Nat.xor_div_two_pow (a := weight.bits.toNat) (b := 2 ^ 63 - 1) (n := 63)
    have one : weight.bits.toNat / 2 ^ 63 = 1 := by omega
    rw [Nat.mod_eq_of_lt (by decide : 2 ^ 63 - 1 < 2 ^ 63),
      xor_ones (Nat.mod_lt _ (Nat.two_pow_pos 63))] at low
    rw [one, Nat.div_eq_of_lt (by decide : 2 ^ 63 - 1 < 2 ^ 63), Nat.xor_zero] at high
    rw [BitVec.toNat_xor, mask, Double.unsigned]
    have := Nat.mod_lt weight.bits.toNat (Nat.two_pow_pos 63)
    omega
  rw [intoOrd_double, signs, BitVec.toInt_eq_toNat_cond, inverted]
  have := Nat.mod_lt weight.bits.toNat (Nat.two_pow_pos 63)
  rw [Double.unsigned] at *
  split <;> omega

/-- A lesser weight has the lesser number. -/
theorem intoOrd_lt_of_lt {first second : Double} (less : first < second) :
    intoOrd first < intoOrd second := by
  rw [Double.lt_iff] at less
  cases firstSign : first.bits.msb with
  | false =>
    cases secondSign : second.bits.msb with
    | false =>
      rw [Double.value_of_not_negative firstSign, Double.value_of_not_negative secondSign,
        Int.ofNat_lt, magnitude_strictMono.lt_iff_lt] at less
      rw [intoOrd_of_not_negative firstSign, intoOrd_of_not_negative secondSign]
      exact Int.ofNat_lt.mpr less
    | true =>
      rw [Double.value_of_not_negative firstSign, Double.value_of_negative secondSign] at less
      omega
  | true =>
    rw [intoOrd_of_negative firstSign]
    cases secondSign : second.bits.msb with
    | false =>
      rw [intoOrd_of_not_negative secondSign]
      omega
    | true =>
      rw [Double.value_of_negative firstSign, Double.value_of_negative secondSign,
        neg_lt_neg_iff, Int.ofNat_lt, magnitude_strictMono.lt_iff_lt] at less
      rw [intoOrd_of_negative secondSign]
      omega

end RouteServer.Pathsearch
