import RouteServer.Core.Interfaces
import RouteServer.Core.ReEncodeKept

/-!
# Directors that do not fit

Re-encoding never compares the director with the form asked for. A director that is too large
is written all the same, over the bits above it, and the call fails only for other reasons:
because the label gets too long, or because no bit of it is left in the word. The second can
happen in words of 32 bits only, where the shift over a director and a prefix of 32 bits is
an overflow as well.
-/

namespace RouteServer.Splice

open Rust Encoding Labels FormRecognition

variable {width : Nat}

/-- A sum of shifted bits has none in the word. -/
theorem shifted_mod_eq_zero_iff {value count width : Nat} (inside : count ≤ width) :
    (value <<< count) % 2 ^ width = 0 ↔ 2 ^ (width - count) ∣ value := by
  have split : 2 ^ width = 2 ^ (width - count) * 2 ^ count := by
    rw [← Nat.pow_add, Nat.sub_add_cancel inside]
  rw [← Nat.dvd_iff_mod_eq_zero, split, Nat.shiftLeft_eq]
  exact Nat.mul_dvd_mul_iff_right (Nat.two_pow_pos _)

/-- A label cannot be made of a word without bits. -/
theorem labelOfWord_eq_none_iff (width bits : Nat) :
    labelOfWord width bits = none ↔ bits % 2 ^ width = 0 := by
  rw [labelOfWord, RoutingLabel.tryNew]
  split_ifs with nonzero
  · exact iff_of_false (fun same => by cases same) nonzero
  · exact iff_of_true rfl (Decidable.not_not.mp nonzero)

section

variable {scheme : EncodingScheme} {label : RoutingLabel width} {num asked : Nat}
  {form target : EncodingSchemeForm} {dir above adjusted : Nat}

/-- What a form that fits the label writes, and when none of its bits is in the word. -/
theorem writeDirector_zero_iff (wide : 32 ≤ width) (fits : Fits width above target)
    (adjusted : Nat) :
    ∃ word, writeDirector width target adjusted above = .ok word ∧
      (labelOfWord width word = none ↔
        above = 0 ∧ target.prefixBits = 0 ∧ 2 ^ (width - target.prefixLen) ∣ adjusted) := by
  have countSmall : target.bitCount ≤ 31 := target.bitCount_le
  have lengthSmall : target.prefixLen ≤ 31 := target.prefixLen_le
  have short : restBitlen above + target.bitCount + target.prefixLen ≤ width - 4 := fits
  have aboveSmall : above < 2 ^ (width - target.prefixLen - target.bitCount) :=
    lt_of_restBitlen (by omega)
  have shifted : above <<< target.bitCount < 2 ^ (width - target.prefixLen) :=
    shiftLeft_lt aboveSmall (by omega)
  have inWord : above <<< target.bitCount < 2 ^ width :=
    shifted.trans_le (Nat.pow_le_pow_right (by decide) (by omega))
  have prefixSmall : target.prefixBits < 2 ^ width :=
    target.prefixBits_lt.trans_le (Nat.pow_le_pow_right (by decide) (by omega))
  refine ⟨(above <<< target.bitCount ||| adjusted) <<< target.prefixLen % 2 ^ width |||
    target.prefixBits, ?_, ?_⟩
  · rw [writeDirector, Outcome.checkedShl_of_lt (by omega) inWord, Outcome.ok_bind,
      Outcome.checkedShl, if_pos (by omega), Outcome.ok_bind]
    rfl
  · have gone : above <<< target.bitCount = 0 ↔ above = 0 := by
      rw [Nat.shiftLeft_eq, Nat.mul_eq_zero]
      exact or_iff_left (Nat.two_pow_pos _).ne'
    rw [labelOfWord_eq_none_iff, Nat.or_mod_two_pow, Nat.mod_mod, Nat.or_eq_zero_iff,
      shifted_mod_eq_zero_iff (by omega), Nat.mod_eq_of_lt prefixSmall, Nat.dvd_iff_mod_eq_zero,
      Nat.or_mod_two_pow, Nat.or_eq_zero_iff, Nat.mod_eq_of_lt shifted, gone,
      Nat.dvd_iff_mod_eq_zero, and_right_comm, and_assoc]

/-- A director that is too large for the form asked for is adjusted to one that has bits in
the word if it has some.

Proof: outside `V358` the director stays as it is. There the number of the interface is small
while the form is full, so neither it nor the director is a multiple of so large a power. -/
theorem adjustDirector_large (wide : 32 ≤ width)
    (written : WrittenIn scheme label num form dir above)
    (placed : scheme.forms[asked]? = some target) (large : 2 ^ target.bitCount ≤ dir) :
    ∃ adjusted, adjustDirector width scheme form target dir = .ok adjusted ∧
      (2 ^ (width - target.prefixLen) ∣ adjusted ↔ 2 ^ (width - target.prefixLen) ∣ dir) := by
  by_cases special : scheme = v358
  · subst special
    obtain ⟨-, lengthSmall⟩ := v358_sizes placed
    have atLeast : 8 ≤ dir := by
      have three : 3 ≤ target.bitCount := by
        rcases v358_forms placed with ⟨-, ⟨count, -⟩, -⟩ | ⟨-, ⟨count, -⟩, -⟩ |
          ⟨-, ⟨count, -⟩, -⟩ <;> omega
      exact (Nat.pow_le_pow_right (by decide) three).trans large
    have other : num ≠ 0 := by
      intro first
      have fits : dir < 2 ^ form.bitCount := written.fits
      rcases v358_forms written.placed with ⟨-, ⟨count, -⟩, -⟩ | ⟨rfl, -⟩ | ⟨rfl, -⟩
      · rw [count] at fits
        omega
      · cases first
      · cases first
    have denotes : interfaceOf num dir = some dir := if_neg other
    refine ⟨_, adjustDirector_v358 wide written denotes, ?_⟩
    have small : dir < 256 := (written.small denotes).1
    have place : 2 ^ 30 ≤ 2 ^ (width - target.prefixLen) :=
      Nat.pow_le_pow_right (by decide) (by omega)
    have bounds : 0 < renumbered target dir dir ∧ renumbered target dir dir ≤ 256 := by
      rw [renumbered]
      split_ifs <;> omega
    exact iff_of_false (Nat.not_dvd_of_pos_of_lt bounds.1 (by omega))
      (Nat.not_dvd_of_pos_of_lt (by omega) (by omega))
  · exact ⟨dir, if_neg special, Iff.rfl⟩

/-- A director that is too large for the form asked for is refused exactly when the label
gets too long, or has no bit left.

Proof: the check of the length looks at the bits above alone, and the director is written over
them whatever its size. So a label that is short enough is refused only if no bit of the prefix,
the director and the bits above is left in the word. -/
theorem large_director_refused_iff (wide : 32 ≤ width)
    (recognized : getEncodingForm label scheme = .ok (form, num))
    (got : getDirector label form = .ok dir) (placed : scheme.forms[asked]? = some target)
    (large : 2 ^ target.bitCount ≤ dir) :
    (∃ fault, reEncode label scheme (some asked) = .err fault) ↔
      form.bitCount + form.prefixLen < width ∧
        (¬Fits width (label.bits >>> (form.bitCount + form.prefixLen)) target ∨
          label.bits >>> (form.bitCount + form.prefixLen) = 0 ∧ target.prefixBits = 0 ∧
            2 ^ (width - target.prefixLen) ∣ dir) := by
  obtain ⟨above, written⟩ : ∃ above, WrittenIn scheme label num form dir above := by
    cases getDirector_ok got
    exact ⟨_, writtenIn_of_recognized recognized⟩
  have chosen : desiredForm dir scheme (some asked) = .ok target := by
    rw [desiredForm, placed]
  obtain ⟨adjusted, adjusts, bitsLeft⟩ := adjustDirector_large wide written placed large
  rw [written.above_eq]
  by_cases room : form.bitCount + form.prefixLen < width
  · rw [reEncode_eq recognized written room chosen adjusts]
    split_ifs with long
    · exact iff_of_true ⟨_, rfl⟩ ⟨room, Or.inl (Nat.not_le.mpr long)⟩
    · have fits : Fits width above target := Nat.not_lt.mp long
      obtain ⟨word, writes, empty⟩ := writeDirector_zero_iff wide fits adjusted
      rw [writes, Outcome.ok_bind, ← bitsLeft, ← empty, and_iff_right room,
        or_iff_right (not_not_intro fits)]
      cases labelOfWord width word <;> simp
  · have overflow : reEncode label scheme (some asked) = .panicked := by
      rw [reEncode, recognized, Outcome.ok_bind]
      dsimp only
      rw [got, Outcome.ok_bind, chosen, Outcome.ok_bind, adjusts, Outcome.ok_bind,
        Outcome.checkedShr, if_neg room]
      rfl
    rw [overflow]
    refine iff_of_false ?_ fun both => room both.1
    rintro ⟨fault, same⟩
    cases same

end

/-- Hops before the director 9 in the second form of `V358`, few and many. -/
def nineInSecond : RoutingLabel 64 := ⟨0x126, by decide, by decide⟩
def nineInLong : RoutingLabel 64 := ⟨2 ^ 63 + 0x26, by decide, by decide⟩

/-- What the first of them is re-encoded to in the first form: the director has become 2, and
the hop before it another one. -/
def twoInFirst : RoutingLabel 64 := ⟨0x35, by decide, by decide⟩

/-- Whether a director that does not fit is refused depends on the form that it is in. -/
theorem nine_refused : (∃ fault, reEncode nineInLong v358 (some 0) = .err fault) ∧
    ¬∃ fault, reEncode nineInSecond v358 (some 0) = .err fault := by
  have long : getEncodingForm nineInLong v358 =
      .ok (⟨5, 2, 2, by decide, by decide, by decide, by decide⟩, 1) := by decide
  have short : getEncodingForm nineInSecond v358 =
      .ok (⟨5, 2, 2, by decide, by decide, by decide, by decide⟩, 1) := by decide
  have longDir : getDirector nineInLong ⟨5, 2, 2, by decide, by decide, by decide, by decide⟩ =
      .ok 9 := by decide
  have shortDir : getDirector nineInSecond
      ⟨5, 2, 2, by decide, by decide, by decide, by decide⟩ = .ok 9 := by decide
  have placed : v358.forms[0]? =
      some ⟨3, 1, 1, by decide, by decide, by decide, by decide⟩ := by decide
  constructor
  · refine (large_director_refused_iff (by decide) long longDir placed (by decide)).mpr
      ⟨by decide, Or.inl ?_⟩
    rw [Fits]
    decide
  · rw [large_director_refused_iff (by decide) short shortDir placed (by decide)]
    rintro ⟨-, tooLong | ⟨noBits, -⟩⟩
    · rw [Fits] at tooLong
      revert tooLong
      decide
    · revert noBits
      decide

/-- A director that does not fit need not be refused: nine in the second form is written as two. -/
theorem nine_becomes_two :
    ¬∀ (scheme : EncodingScheme) (label : RoutingLabel 64) (form target : EncodingSchemeForm)
      (num asked dir : Nat), getEncodingForm label scheme = .ok (form, num) →
      getDirector label form = .ok dir → scheme.forms[asked]? = some target →
      2 ^ target.bitCount ≤ dir → ∃ fault, reEncode label scheme (some asked) = .err fault := by
  intro claimed
  have spilled : reEncode nineInSecond v358 (some 0) = .ok twoInFirst := by decide
  obtain ⟨fault, refused⟩ := claimed v358 nineInSecond
    ⟨5, 2, 2, by decide, by decide, by decide, by decide⟩
    ⟨3, 1, 1, by decide, by decide, by decide, by decide⟩ 1 0 9 (by decide) (by decide)
    (by decide) (by decide)
  cases refused.symm.trans spilled

end RouteServer.Splice
