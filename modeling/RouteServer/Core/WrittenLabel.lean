import RouteServer.Core.ReEncodeForms

/-!
# Labels written in a form

A label that is recognized is written in its form: the prefix, the director and the bits
above. Re-encoding takes the director and the bits above and puts them together again, with
no check that the director fits. What does not fit spills into the bits above.
-/

namespace RouteServer.Splice

open Rust Encoding Labels FormRecognition

variable {width : Nat}

/-- A label that is written in a form of a scheme: its director and what is above it. -/
structure WrittenIn (scheme : EncodingScheme) (label : RoutingLabel width) (num : Nat)
    (form : EncodingSchemeForm) (dir above : Nat) : Prop where
  placed : scheme.forms[num]? = some form
  fits : dir < 2 ^ form.bitCount
  bits : label.bits = encodeDirector form dir above

section

variable {scheme : EncodingScheme} {label : RoutingLabel width} {num : Nat}
  {form : EncodingSchemeForm} {dir above : Nat}

/-- Where prefixes do not overlap, a label is recognized as the form it is written in. -/
theorem WrittenIn.recognized (written : WrittenIn scheme label num form dir above)
    (separate : PrefixFree scheme) : getEncodingForm label scheme = .ok (form, num) := by
  have matched : Matches label.bits form := by
    rw [written.bits]
    exact encodeDirector_matches form dir above
  refine (getEncodingForm_ok_iff _ _ _ _).mpr ⟨written.placed, matched, ?_⟩
  exact (noneBefore_iff_of_prefixFree separate written.placed matched num).mpr (Nat.le_refl _)

/-- The bits of a label over its prefix. -/
theorem WrittenIn.upper (written : WrittenIn scheme label num form dir above) :
    label.bits / 2 ^ form.prefixLen = 2 ^ form.bitCount * above + dir := by
  rw [written.bits, encodeDirector_eq form dir above written.fits,
    Nat.mul_add_div (Nat.two_pow_pos _), Nat.div_eq_of_lt form.prefixBits_lt, Nat.add_zero]

/-- The director of a written label stands behind its prefix. -/
theorem WrittenIn.dir_eq (written : WrittenIn scheme label num form dir above) :
    label.bits / 2 ^ form.prefixLen % 2 ^ form.bitCount = dir := by
  rw [written.upper, Nat.mul_add_mod, Nat.mod_eq_of_lt written.fits]

/-- What is above the director of a written label stands behind both. -/
theorem WrittenIn.above_eq (written : WrittenIn scheme label num form dir above) :
    label.bits >>> (form.bitCount + form.prefixLen) = above := by
  rw [Nat.shiftRight_eq_div_pow, Nat.add_comm, Nat.pow_add, ← Nat.div_div_eq_div_mul,
    written.upper, Nat.mul_add_div (Nat.two_pow_pos _), Nat.div_eq_of_lt written.fits,
    Nat.add_zero]

/-- A label that is recognized is written in that form. -/
theorem writtenIn_of_recognized (recognized : getEncodingForm label scheme = .ok (form, num)) :
    WrittenIn scheme label num form (label.bits / 2 ^ form.prefixLen % 2 ^ form.bitCount)
      (label.bits / 2 ^ form.prefixLen / 2 ^ form.bitCount) := by
  obtain ⟨placed, matched, -⟩ := (getEncodingForm_ok_iff _ _ _ _).mp recognized
  have fits : label.bits / 2 ^ form.prefixLen % 2 ^ form.bitCount < 2 ^ form.bitCount :=
    Nat.mod_lt _ (Nat.two_pow_pos _)
  refine ⟨placed, fits, ?_⟩
  rw [encodeDirector_eq form _ _ fits, Nat.div_add_mod, ← matched, Nat.div_add_mod]

/-- A director that is too large for its form spills into what is above. -/
theorem encodeDirector_spill (form : EncodingSchemeForm) (dir above : Nat) :
    encodeDirector form dir above =
      encodeDirector form (dir % 2 ^ form.bitCount) (above ||| dir >>> form.bitCount) := by
  have same : above <<< form.bitCount ||| dir =
      (above ||| dir >>> form.bitCount) <<< form.bitCount ||| dir % 2 ^ form.bitCount := by
    apply Nat.eq_of_testBit_eq
    intro index
    simp only [Nat.testBit_or, Nat.testBit_shiftLeft, Nat.testBit_shiftRight,
      Nat.testBit_mod_two_pow]
    by_cases low : index < form.bitCount
    · simp [low, Nat.not_le.mpr low]
    · have high : form.bitCount ≤ index := Nat.not_lt.mp low
      simp [low, high, Nat.add_sub_cancel' high]
  rw [encodeDirector, encodeDirector, same]

end

/-- What takes few bits is small. -/
theorem lt_of_restBitlen {above size : Nat} (short : restBitlen above ≤ size) :
    above < 2 ^ size := by
  by_cases zero : above = 0
  · rw [zero]
    exact Nat.two_pow_pos _
  · rw [restBitlen, highestSetBit, if_neg zero] at short
    exact Nat.lt_log2_self.trans_le (Nat.pow_le_pow_right (by decide) short)

/-- A small number stays in a word where it is shifted by less than the room above it. -/
theorem shiftLeft_lt {value size count width : Nat} (small : value < 2 ^ size)
    (room : size + count ≤ width) : value <<< count < 2 ^ width := by
  rw [Nat.shiftLeft_eq]
  calc value * 2 ^ count < 2 ^ size * 2 ^ count :=
        Nat.mul_lt_mul_of_pos_right small (Nat.two_pow_pos _)
    _ = 2 ^ (size + count) := (Nat.pow_add ..).symm
    _ ≤ 2 ^ width := Nat.pow_le_pow_right (by decide) room

section

variable {scheme : EncodingScheme} {label : RoutingLabel width} {num : Nat}
  {form target : EncodingSchemeForm} {dir above adjusted : Nat} {desired : Option Nat}

/-- The director of a label is what it is written with. -/
theorem WrittenIn.getDirector_eq (written : WrittenIn scheme label num form dir above)
    (room : form.bitCount + form.prefixLen ≤ width) : Splice.getDirector label form = .ok dir := by
  have positive : 0 < form.bitCount := form.bitCount_pos
  have got : ∃ value, Splice.getDirector label form = .ok value := by
    let padding := width - form.bitCount - form.prefixLen
    refine ⟨((label.bits <<< padding) % 2 ^ width) >>> (padding + form.prefixLen), ?_⟩
    rw [Splice.getDirector, Outcome.checkedSub_of_le (by omega), Outcome.ok_bind,
      Outcome.checkedSub_of_le (by omega), Outcome.ok_bind, Outcome.checkedShl,
      if_pos (by omega), Outcome.ok_bind, Outcome.checkedShr, if_pos (by omega)]
  obtain ⟨value, got⟩ := got
  rw [got, getDirector_ok got, written.dir_eq]

/-- Bits above a director leave room for it. -/
theorem WrittenIn.room (written : WrittenIn scheme label num form dir above)
    (nonzero : above ≠ 0) : form.bitCount + form.prefixLen < width := by
  by_contra narrow
  apply nonzero
  rw [← written.above_eq, Nat.shiftRight_eq_div_pow]
  exact Nat.div_eq_of_lt
    (label.bounded.trans_le (Nat.pow_le_pow_right (by decide) (Nat.not_lt.mp narrow)))

/-- Nothing is lost when a director is written into a label that is short enough. -/
theorem writeDirector_small
    (short : restBitlen above + target.bitCount + target.prefixLen ≤ maxPayloadBits width)
    (small : dir < 2 ^ (width - target.prefixLen)) :
    writeDirector width target dir above = .ok (encodeDirector target dir above) ∧
      encodeDirector target dir above < 2 ^ width := by
  have positive : 0 < target.bitCount := target.bitCount_pos
  rw [maxPayloadBits] at short
  have aboveSmall : above < 2 ^ (width - target.prefixLen - target.bitCount) :=
    lt_of_restBitlen (by omega)
  have shifted : above <<< target.bitCount < 2 ^ (width - target.prefixLen) :=
    shiftLeft_lt aboveSmall (by omega)
  have whole : (above <<< target.bitCount ||| dir) <<< target.prefixLen < 2 ^ width :=
    shiftLeft_lt (Nat.or_lt_two_pow shifted small) (by omega)
  have inWord : above <<< target.bitCount < 2 ^ width :=
    shifted.trans_le (Nat.pow_le_pow_right (by decide) (by omega))
  have prefixSmall : target.prefixBits < 2 ^ width :=
    target.prefixBits_lt.trans_le (Nat.pow_le_pow_right (by decide) (by omega))
  refine ⟨?_, Nat.or_lt_two_pow whole prefixSmall⟩
  rw [writeDirector, Outcome.checkedShl_of_lt (by omega) inWord, Outcome.ok_bind,
    Outcome.checkedShl_of_lt (by omega) whole, Outcome.ok_bind]
  rfl

/-- Re-encoding, from what the label is written with. -/
theorem reEncode_eq (recognized : getEncodingForm label scheme = .ok (form, num))
    (written : WrittenIn scheme label num form dir above)
    (room : form.bitCount + form.prefixLen < width)
    (chosen : desiredForm dir scheme desired = .ok target)
    (adjusts : adjustDirector width scheme form target dir = .ok adjusted) :
    reEncode label scheme desired =
      if restBitlen above + target.bitCount + target.prefixLen > maxPayloadBits width then
        .err .labelTooLong
      else
        writeDirector width target adjusted above >>= fun bits =>
          (labelOfWord width bits).elim (.err (.routingLabelTryNewFailed bits)) .ok := by
  rw [reEncode, recognized, Outcome.ok_bind]
  dsimp only
  rw [written.getDirector_eq room.le, Outcome.ok_bind, chosen, Outcome.ok_bind, adjusts,
    Outcome.ok_bind, Outcome.checkedShr, if_pos room, Outcome.ok_bind, written.above_eq]
  congr 2
  funext bits
  cases labelOfWord width bits <;> rfl

end

end RouteServer.Splice
