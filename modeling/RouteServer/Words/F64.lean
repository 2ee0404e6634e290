import Mathlib.Data.Rat.Floor
import Mathlib.Tactic.Linarith
import Mathlib.Tactic.Positivity
import RouteServer.Words.Double

/-!
# Arithmetic of doubles that are not negative

A double without a sign is the number of its place in the order of magnitudes. Infinity is
the one after the greatest finite double, at the place where two to the 1024 would stand.
A result is rounded to the nearest double, and between two of them to the one with even bits.

Rounding keeps the order and leaves doubles as they are. So adding what is not negative never
makes a sum less, though it may leave it as it is, and sums keep the order of their first
part. They are not associative.

Products of zero and infinity and quotients of two zeros or two infinities are no numbers.
They have no place here, and what the operations return for them means nothing: who uses
these operations has to show that it does not come to this.
-/

namespace Words

/-! ## Rounding -/

/-- How many bits of a number of units do not fit into a significand. -/
def excess (units : Nat) : Nat := Nat.log2 units - 52

/-- The bits of the greatest double that is not above a number of units. -/
def below (units : Nat) : Nat := excess units * 2 ^ 52 + units / 2 ^ excess units

/-- An exponent and a significand. One more than the greatest significand is the least one of
the next exponent. -/
theorem magnitude_scaled {exponent significand : Nat} (normal : exponent = 0 ∨ 2 ^ 52 ≤ significand)
    (bounded : significand ≤ 2 ^ 53) :
    magnitude (exponent * 2 ^ 52 + significand) = significand * 2 ^ exponent := by
  rw [magnitude]
  by_cases last : significand = 2 ^ 53
  · have places : (exponent * 2 ^ 52 + significand) / 2 ^ 52 = exponent + 2 := by omega
    have rest : (exponent * 2 ^ 52 + significand) % 2 ^ 52 = 0 := by omega
    rw [places, rest, if_neg (by omega), last, Nat.add_sub_assoc (by decide), pow_add]
    ring
  · by_cases subnormal : significand < 2 ^ 52
    · obtain rfl : exponent = 0 := normal.resolve_right (by omega)
      rw [if_pos (by omega), Nat.zero_mul, Nat.zero_add, Nat.mod_eq_of_lt subnormal, pow_zero,
        Nat.mul_one]
    · have places : (exponent * 2 ^ 52 + significand) / 2 ^ 52 = exponent + 1 := by omega
      have rest : 2 ^ 52 + (exponent * 2 ^ 52 + significand) % 2 ^ 52 = significand := by omega
      rw [places, if_neg (by omega), rest, Nat.add_sub_cancel]

/-- A number of units lies between the double below it and the next one. -/
theorem below_spec (units : Nat) :
    magnitude (below units) ≤ units ∧ units < magnitude (below units + 1) := by
  have significand : units / 2 ^ excess units < 2 ^ 53 ∧
      (excess units = 0 ∨ 2 ^ 52 ≤ units / 2 ^ excess units) := by
    by_cases zero : units = 0
    · subst zero
      decide
    · have upper : units < 2 ^ (excess units + 53) :=
        Nat.lt_log2_self.trans_le (Nat.pow_le_pow_right (by decide) (by rw [excess]; omega))
      refine ⟨?_, ?_⟩
      · rw [Nat.div_lt_iff_lt_mul (Nat.two_pow_pos _), ← pow_add, Nat.add_comm]
        exact upper
      · by_cases small : excess units = 0
        · exact Or.inl small
        · have exponent : excess units + 52 = Nat.log2 units := by
            rw [excess] at small ⊢
            omega
          right
          rw [Nat.le_div_iff_mul_le (Nat.two_pow_pos _), ← pow_add, Nat.add_comm, exponent]
          exact Nat.log2_self_le zero
  obtain ⟨upper, normal⟩ := significand
  constructor
  · rw [below, magnitude_scaled normal upper.le]
    exact Nat.div_mul_le_self units _
  · rw [below, Nat.add_assoc, magnitude_scaled (normal.imp_right (Nat.le_succ_of_le)) upper]
    exact Nat.lt_mul_of_div_lt (Nat.lt_succ_self _) (Nat.two_pow_pos _)

/-- The double below a number is the only one with the number between it and the next. -/
theorem eq_below {bits units : Nat} (lower : magnitude bits ≤ units)
    (upper : units < magnitude (bits + 1)) : below units = bits := by
  obtain ⟨belowLower, belowUpper⟩ := below_spec units
  apply Nat.le_antisymm
  · exact Nat.le_of_lt_succ (magnitude_strictMono.lt_iff_lt.mp (belowLower.trans_lt upper))
  · exact Nat.le_of_lt_succ (magnitude_strictMono.lt_iff_lt.mp (lower.trans_lt belowUpper))

/-- A larger number has no smaller double below it. -/
theorem below_mono : Monotone below := by
  intro first second less
  have between := (below_spec first).1.trans_lt (less.trans_lt (below_spec second).2)
  exact Nat.le_of_lt_succ (magnitude_strictMono.lt_iff_lt.mp between)

/-- The bits of the double that is nearest to a number of units. Halfway between two of them
the bits are even. -/
def nearest (number : Rat) : Nat :=
  let low := below ⌊number⌋₊
  let halfway : Rat := ((magnitude low + magnitude (low + 1) : Nat) : Rat) / 2
  if number < halfway then low else if number = halfway then low + low % 2 else low + 1

/-- The nearest double is at most the one above. -/
theorem nearest_le (number : Rat) : nearest number ≤ below ⌊number⌋₊ + 1 := by
  rw [nearest]
  split_ifs <;> omega

/-- The nearest double is at least the one below. -/
theorem le_nearest (number : Rat) : below ⌊number⌋₊ ≤ nearest number := by
  rw [nearest]
  split_ifs <;> omega

/-- Rounding keeps the order. Numbers between the same two doubles are compared with the same
place between them. -/
theorem nearest_mono : Monotone nearest := by
  intro first second less
  have lows : below ⌊first⌋₊ ≤ below ⌊second⌋₊ := below_mono (Nat.floor_mono less)
  rcases lows.eq_or_lt with same | apart
  · rw [nearest, nearest, same]
    split_ifs <;> grind
  · exact (nearest_le first).trans ((Nat.succ_le_of_lt apart).trans (le_nearest second))

/-- Doubles are not rounded. -/
theorem nearest_magnitude (bits : Nat) : nearest (magnitude bits) = bits := by
  have next : magnitude bits < magnitude (bits + 1) := magnitude_lt_succ bits
  have low : below ⌊(magnitude bits : Rat)⌋₊ = bits := by
    rw [Nat.floor_natCast]
    exact eq_below le_rfl next
  have less : (magnitude bits : Rat) <
      ((magnitude bits + magnitude (bits + 1) : Nat) : Rat) / 2 := by
    have cast : (magnitude bits : Rat) < magnitude (bits + 1) := Nat.cast_lt.mpr next
    rw [Nat.cast_add]
    linarith
  rw [nearest, low]
  exact if_pos less

/-! ## Doubles -/

/-- The bits of infinity. -/
def infinityBits : Nat := 2047 * 2 ^ 52

/-- An `f64` that is neither negative nor a `NaN`. -/
@[ext] structure F64 where
  bits : Nat
  bounded : bits ≤ infinityBits
deriving DecidableEq

namespace F64

instance : LinearOrder F64 :=
  LinearOrder.lift' bits fun _ _ same => F64.ext same

/-- The number of units. The least positive double is one unit. -/
def units (double : F64) : Nat := magnitude double.bits

/-- Larger doubles have more units. -/
theorem units_mono : Monotone units := fun _ _ less => magnitude_strictMono.monotone less

/-- The double that is nearest to a number of units, or infinity. -/
def ofUnits (number : Rat) : F64 := ⟨min (nearest number) infinityBits, Nat.min_le_right _ _⟩

/-- Rounding keeps the order: at a tie two numbers with the same neighbours are rounded alike. -/
theorem ofUnits_mono : Monotone ofUnits := by
  intro first second less
  exact min_le_min_right infinityBits (nearest_mono less)

/-- A double is rounded to itself. -/
theorem ofUnits_units (double : F64) : ofUnits double.units = double := by
  apply F64.ext
  exact (congrArg (min · infinityBits) (nearest_magnitude double.bits)).trans
    (Nat.min_eq_left double.bounded)

/-- `f64::INFINITY`. -/
def infinity : F64 := ⟨infinityBits, Nat.le_refl _⟩

/-- A number as a double. -/
def ofRat (number : Rat) : F64 := ofUnits (number * 2 ^ 1074)

/-- The number that a finite double stands for. -/
def toRat (double : F64) : Rat := double.units / 2 ^ 1074

instance : Zero F64 := ⟨⟨0, Nat.zero_le _⟩⟩

instance : One F64 := ⟨ofRat 1⟩

instance : NatCast F64 := ⟨fun number => ofRat number⟩

/-- Infinity has the units of what it stands for in the order, so it needs no case here. -/
instance : Add F64 := ⟨fun first second => ofUnits ((first.units : Rat) + second.units)⟩

instance : Mul F64 := ⟨fun first second =>
  if first = infinity ∨ second = infinity then infinity else ofRat (first.toRat * second.toRat)⟩

instance : Div F64 := ⟨fun first second =>
  if first = infinity ∨ second = 0 then infinity
  else if second = infinity then 0
  else ofRat (first.toRat / second.toRat)⟩

/-- `f64::recip`. -/
def recip (double : F64) : F64 := 1 / double

/-- A product that is a number. -/
def MulDefined (first second : F64) : Prop :=
  ¬(first = 0 ∧ second = infinity) ∧ ¬(first = infinity ∧ second = 0)

/-- A quotient that is a number. -/
def DivDefined (first second : F64) : Prop :=
  ¬(first = 0 ∧ second = 0) ∧ ¬(first = infinity ∧ second = infinity)

/-- A sum is rounded once. -/
theorem add_def (first second : F64) :
    first + second = ofUnits ((first.units : Rat) + second.units) := rfl

/-- None of these doubles is negative. -/
theorem nonneg (double : F64) : 0 ≤ double := Nat.zero_le _

/-- A sum is not less than its first part. -/
theorem le_add (first second : F64) : first ≤ first + second := by
  have more : (first.units : Rat) ≤ first.units + second.units :=
    le_add_of_nonneg_right (Nat.cast_nonneg _)
  calc first = ofUnits first.units := (ofUnits_units first).symm
    _ ≤ first + second := ofUnits_mono more

/-- Rounding keeps the order of numbers. -/
theorem ofRat_mono : Monotone ofRat := fun _ _ less =>
  ofUnits_mono (mul_le_mul_of_nonneg_right less (by positivity))

/-- A larger double has no smaller value. -/
theorem toRat_mono : Monotone toRat := fun _ _ less =>
  div_le_div_of_nonneg_right (Nat.cast_le.mpr (units_mono less)) (by positivity)

/-- No value is negative. -/
theorem toRat_nonneg (double : F64) : 0 ≤ double.toRat := by
  rw [toRat]
  positivity

/-- The value of a double is rounded to itself. -/
theorem ofRat_toRat (double : F64) : ofRat double.toRat = double := by
  rw [ofRat, toRat, div_mul_cancel₀ _ (by positivity), ofUnits_units]

/-- One is one. -/
theorem toRat_one : (1 : F64).toRat = 1 := by decide +kernel

/-- Zero is less than one. -/
theorem zero_lt_one : (0 : F64) < 1 := by decide +kernel

/-- One is finite. -/
theorem one_lt_infinity : (1 : F64) < infinity := by decide +kernel

/-- Whole numbers of 64 bits are finite. -/
theorem natCast_lt_infinity {number : Nat} (small : number < 2 ^ 64) :
    (number : F64) < infinity := by
  have cast : (number : Rat) ≤ 2 ^ 64 := by exact_mod_cast small.le
  exact (ofRat_mono cast).trans_lt (by decide +kernel)

/-- A positive number is at least one. -/
theorem one_le_natCast {number : Nat} (positive : 0 < number) : (1 : F64) ≤ number := by
  have cast : (1 : Rat) ≤ number := by exact_mod_cast positive
  exact ofRat_mono cast

/-- What is at least one is not zero. -/
theorem ne_zero_of_one_le {double : F64} (large : 1 ≤ double) : double ≠ 0 :=
  (zero_lt_one.trans_le large).ne'

/-- Factors that are not below one make no number less than one. -/
theorem one_le_mul {first second : F64} (firstLarge : 1 ≤ first) (secondLarge : 1 ≤ second) :
    1 ≤ first * second := by
  change 1 ≤ ite _ _ _
  split_ifs with infinite
  · exact one_lt_infinity.le
  · have lower : (1 : Rat) ≤ first.toRat := toRat_one ▸ toRat_mono firstLarge
    have other : (1 : Rat) ≤ second.toRat := toRat_one ▸ toRat_mono secondLarge
    exact ofRat_mono (one_le_mul_of_one_le_of_one_le lower other)

/-- A factor of at most one makes no finite number greater. -/
theorem mul_le_of_le_one {first second : F64} (finite : first < infinity) (small : second ≤ 1) :
    first * second ≤ first := by
  have bothFinite : ¬(first = infinity ∨ second = infinity) :=
    not_or.mpr ⟨finite.ne, (small.trans_lt one_lt_infinity).ne⟩
  have less : second.toRat ≤ 1 := toRat_one ▸ toRat_mono small
  change ite _ _ _ ≤ first
  rw [if_neg bothFinite]
  calc ofRat (first.toRat * second.toRat) ≤ ofRat first.toRat :=
        ofRat_mono (mul_le_of_le_one_right first.toRat_nonneg less)
    _ = first := ofRat_toRat first

/-- Sums keep the order of their first parts. -/
theorem add_le_add_right {first second : F64} (less : first ≤ second) (other : F64) :
    first + other ≤ second + other := by
  apply ofUnits_mono
  have cast : (first.units : Rat) ≤ second.units := Nat.cast_le.mpr (units_mono less)
  linarith

/-- Adding keeps the order, since rounding does. -/
theorem add_le_add_left {first second : F64} (less : first ≤ second) (other : F64) :
    other + first ≤ other + second := by
  rw [add_def, add_def, add_comm (other.units : Rat), add_comm (other.units : Rat)]
  exact add_le_add_right less other

end F64

end Words
