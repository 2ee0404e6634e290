import Mathlib.Data.BitVec
import Mathlib.Data.Int.Order.Basic
import Mathlib.Order.Monotone.Basic

/-!
# Finite doubles

A finite double is a sign, an exponent and a fraction in one word of sixty-four bits. Its
value is a whole number of units, the least positive double being one unit, so two doubles
are compared by comparing whole numbers. There are two zeros, and neither is less than the
other. A greater magnitude has greater bits, read as a number, and the other way round.
-/

namespace Words

/-- A finite `f64`: its exponent is not the one reserved for infinities and `NaN`. -/
structure Double where
  bits : BitVec 64
  finite : bits.toNat / 2 ^ 52 % 2 ^ 11 ≠ 2 ^ 11 - 1
deriving DecidableEq

/-- The magnitude that an exponent and a fraction stand for, in units. -/
def magnitude (bits : Nat) : Nat :=
  if bits / 2 ^ 52 = 0 then bits % 2 ^ 52
  else (2 ^ 52 + bits % 2 ^ 52) * 2 ^ (bits / 2 ^ 52 - 1)

/-- The next bits are the next larger number. -/
theorem magnitude_lt_succ (bits : Nat) : magnitude bits < magnitude (bits + 1) := by
  have scale : 0 < 2 ^ (bits / 2 ^ 52 - 1) := Nat.two_pow_pos _
  by_cases last : bits % 2 ^ 52 = 2 ^ 52 - 1
  · -- the next double has the next exponent and no fraction
    have exponent : (bits + 1) / 2 ^ 52 = bits / 2 ^ 52 + 1 := by omega
    have fraction : (bits + 1) % 2 ^ 52 = 0 := by omega
    rw [magnitude, magnitude, exponent, fraction, last, if_neg (Nat.succ_ne_zero _)]
    split
    · next subnormal =>
      rw [subnormal]
      decide
    · next normal =>
      have doubled : 2 ^ (bits / 2 ^ 52 + 1 - 1) = 2 * 2 ^ (bits / 2 ^ 52 - 1) := by
        rw [← Nat.pow_succ']
        exact congrArg (2 ^ ·) (by omega)
      rw [doubled]
      omega
  · have exponent : (bits + 1) / 2 ^ 52 = bits / 2 ^ 52 := by omega
    have fraction : (bits + 1) % 2 ^ 52 = bits % 2 ^ 52 + 1 := by omega
    rw [magnitude, magnitude, exponent, fraction]
    split
    · exact Nat.lt_succ_self _
    · apply Nat.mul_lt_mul_of_pos_right _ scale
      omega

/-- Larger bits are larger numbers. -/
theorem magnitude_strictMono : StrictMono magnitude := strictMono_nat_of_lt_succ magnitude_lt_succ

namespace Double

/-- The bits below the sign. -/
def unsigned (double : Double) : Nat := double.bits.toNat % 2 ^ 63

/-- The value in units. -/
def value (double : Double) : Int :=
  if double.bits.msb then -(magnitude double.unsigned : Int) else magnitude double.unsigned

instance : LT Double := ⟨fun first second => first.value < second.value⟩

/-- Doubles are ordered by their values. -/
theorem lt_iff (first second : Double) : first < second ↔ first.value < second.value := Iff.rfl

instance : DecidableLT Double := fun first second => Int.decLt first.value second.value

/-- With a sign a value is negative. -/
theorem value_of_negative {double : Double} (negative : double.bits.msb = true) :
    double.value = -(magnitude double.unsigned : Int) := if_pos negative

/-- Without a sign a value is its magnitude. -/
theorem value_of_not_negative {double : Double} (positive : double.bits.msb = false) :
    double.value = magnitude double.unsigned := by
  rw [value, positive]
  exact if_neg Bool.false_ne_true

end Double

end Words
