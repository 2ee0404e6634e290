import RouteServer.Core.WrittenLabel

/-!
# What re-encoding keeps

In a scheme without adjustment a re-encoded label depends on nothing but the first director
of the label and what is above it. Where the director fits the form asked for, and the form
fits the label, both are read back from the result. A director that does not fit is not
refused: it is written over the bits above it.

A form whose director and prefix fill the word leaves nothing above, and only words of 32
bits are short enough for one.
-/

namespace RouteServer.Splice

open Rust Encoding Labels FormRecognition

variable {width : Nat}

/-- A form leaves room for its own bits and the bits above, below the payload's end. -/
def Fits (width above : Nat) (form : EncodingSchemeForm) : Prop :=
  restBitlen above + form.bitCount + form.prefixLen ≤ maxPayloadBits width

section

variable {scheme : EncodingScheme} {label other : RoutingLabel width} {num otherNum : Nat}
  {form otherForm target : EncodingSchemeForm} {dir above adjusted : Nat} {desired : Option Nat}

/-- Nothing is lost when a director that fits is written into a label that is short enough. -/
theorem writeDirector_fits (fits : Fits width above target) (small : dir < 2 ^ target.bitCount) :
    writeDirector width target dir above = .ok (encodeDirector target dir above) ∧
      encodeDirector target dir above < 2 ^ width := by
  have positive : 0 < target.bitCount := target.bitCount_pos
  have short : restBitlen above + target.bitCount + target.prefixLen ≤ width - 4 := fits
  exact writeDirector_small fits (small.trans_le (Nat.pow_le_pow_right (by decide) (by omega)))

/-- Without adjustment, labels with one director and the same bits above are re-encoded
alike, whatever forms they have. -/
theorem reEncode_congr (plain : scheme ≠ v358) (separate : PrefixFree scheme)
    (written : WrittenIn scheme label num form dir above)
    (also : WrittenIn scheme other otherNum otherForm dir above)
    (room : form.bitCount + form.prefixLen < width)
    (otherRoom : otherForm.bitCount + otherForm.prefixLen < width) (desired : Option Nat) :
    reEncode other scheme desired = reEncode label scheme desired := by
  have adjusts (from_ target : EncodingSchemeForm) :
      adjustDirector width scheme from_ target dir = .ok dir := if_neg plain
  cases chosen : desiredForm dir scheme desired with
  | ok target =>
    rw [reEncode_eq (written.recognized separate) written room chosen (adjusts _ _),
      reEncode_eq (also.recognized separate) also otherRoom chosen (adjusts _ _)]
  | err fault =>
    rw [reEncode, reEncode, written.recognized separate, also.recognized separate,
      Outcome.ok_bind, Outcome.ok_bind]
    dsimp only
    rw [written.getDirector_eq room.le, also.getDirector_eq otherRoom.le, Outcome.ok_bind,
      Outcome.ok_bind, chosen]
    rfl
  | panicked =>
    rw [reEncode, reEncode, written.recognized separate, also.recognized separate,
      Outcome.ok_bind, Outcome.ok_bind]
    dsimp only
    rw [written.getDirector_eq room.le, also.getDirector_eq otherRoom.le, Outcome.ok_bind,
      Outcome.ok_bind, chosen]
    rfl

/-- Without adjustment, a director that fits is written into the form asked for. -/
theorem reEncode_fits (plain : scheme ≠ v358) (separate : PrefixFree scheme)
    (written : WrittenIn scheme label num form dir above)
    (room : form.bitCount + form.prefixLen < width) (nonzero : above ≠ 0)
    (placed : scheme.forms[otherNum]? = some target) (small : dir < 2 ^ target.bitCount)
    (fits : Fits width above target) :
    ∃ result, reEncode label scheme (some otherNum) = .ok result ∧
      WrittenIn scheme result otherNum target dir above := by
  have chosen : desiredForm dir scheme (some otherNum) = .ok target := by
    rw [desiredForm, placed]
  obtain ⟨writes, inWord⟩ := writeDirector_fits fits small
  have filled : encodeDirector target dir above ≠ 0 := by
    have upper : 0 < 2 ^ target.bitCount * above :=
      Nat.mul_pos (Nat.two_pow_pos _) (Nat.pos_of_ne_zero nonzero)
    have whole : 0 < 2 ^ target.prefixLen * (2 ^ target.bitCount * above + dir) :=
      Nat.mul_pos (Nat.two_pow_pos _) (Nat.add_pos_left upper _)
    rw [encodeDirector_eq target dir above small]
    exact (Nat.add_pos_left whole _).ne'
  refine ⟨⟨encodeDirector target dir above, filled, inWord⟩, ?_, placed, small, rfl⟩
  rw [reEncode_eq (written.recognized separate) written room chosen (if_neg plain),
    if_neg (Nat.not_lt.mpr fits), writes, Outcome.ok_bind, labelOfWord, RoutingLabel.tryNew,
    dif_pos (by rwa [Nat.mod_eq_of_lt inWord])]
  exact congrArg Outcome.ok (RoutingLabel.ext (Nat.mod_eq_of_lt inWord))

end

/-- A director takes no more bits than a form has exactly when it fits the form. -/
theorem directorBitLength_le_iff (dir : Nat) (form : EncodingSchemeForm) :
    directorBitLength dir ≤ form.bitCount ↔ dir < 2 ^ form.bitCount := by
  have positive : 0 < form.bitCount := form.bitCount_pos
  rw [directorBitLength, highestSetBit]
  split_ifs with zero
  · rw [zero]
    exact iff_of_true positive (Nat.two_pow_pos _)
  · rw [Option.getD_some, Nat.add_one_le_iff]
    exact Nat.log2_lt zero

/-- The shortest form for a director that some form can hold. -/
theorem findShortestForm_ok {scheme : EncodingScheme} {dir : Nat} {form : EncodingSchemeForm}
    (member : form ∈ scheme.forms) (small : dir < 2 ^ form.bitCount) :
    ∃ (shortest : EncodingSchemeForm) (num : Nat), findShortestForm dir scheme = .ok shortest ∧
      scheme.forms[num]? = some shortest ∧ dir < 2 ^ shortest.bitCount ∧
      ∀ other ∈ scheme.forms, dir < 2 ^ other.bitCount → shortest.bitCount ≤ other.bitCount := by
  have wideEnough (other : EncodingSchemeForm) :
      other ∈ scheme.forms.filter (fun form => directorBitLength dir ≤ form.bitCount) ↔
        other ∈ scheme.forms ∧ dir < 2 ^ other.bitCount := by
    rw [List.mem_filter, decide_eq_true_iff, directorBitLength_le_iff]
  have found : (scheme.forms.filter (fun form => directorBitLength dir ≤ form.bitCount)).argmin
      EncodingSchemeForm.bitCount ≠ none := by
    rw [Ne, List.argmin_eq_none]
    exact List.ne_nil_of_mem ((wideEnough form).mpr ⟨member, small⟩)
  obtain ⟨shortest, least⟩ := Option.ne_none_iff_exists'.mp found
  obtain ⟨placed, holds⟩ := (wideEnough shortest).mp (List.argmin_mem least)
  obtain ⟨num, placed⟩ := List.mem_iff_getElem?.mp placed
  refine ⟨shortest, num, ?_, placed, holds, ?_⟩
  · rw [findShortestForm, least]
  · intro other among otherHolds
    exact List.le_of_mem_argmin ((wideEnough other).mpr ⟨among, otherHolds⟩) least

section

variable {scheme : EncodingScheme} {label : RoutingLabel width} {num : Nat}
  {form : EncodingSchemeForm}

/-- In a scheme without adjustment whose prefixes do not overlap, a label with bits above its
director is re-encoded into any form that holds the director and fits the label, with the
director and the bits above kept. What it is re-encoded to next is what the label itself is,
its own form gives it back, and no form asked for is the shortest that holds the director.

Proof: a label is written in a form with a director and the bits above. Re-encoding writes the
same two in another form, which depends on nothing else, and separate prefixes make the new form
recognized. -/
theorem reEncode_keeps (plain : scheme ≠ v358) (separate : PrefixFree scheme)
    (recognized : getEncodingForm label scheme = .ok (form, num))
    (nonzero : label.bits >>> (form.bitCount + form.prefixLen) ≠ 0) :
    ∃ dir, getDirector label form = .ok dir ∧
      (∀ (asked : Nat) (target : EncodingSchemeForm), scheme.forms[asked]? = some target →
        dir < 2 ^ target.bitCount →
        Fits width (label.bits >>> (form.bitCount + form.prefixLen)) target →
        ∃ result, reEncode label scheme (some asked) = .ok result ∧
          getEncodingForm result scheme = .ok (target, asked) ∧
          getDirector result target = .ok dir ∧
          result.bits >>> (target.bitCount + target.prefixLen) =
            label.bits >>> (form.bitCount + form.prefixLen) ∧
          ∀ next, reEncode result scheme next = reEncode label scheme next) ∧
      (Fits width (label.bits >>> (form.bitCount + form.prefixLen)) form →
        reEncode label scheme (some num) = .ok label) ∧
      ∃ (shortest : EncodingSchemeForm) (asked : Nat), scheme.forms[asked]? = some shortest ∧
        dir < 2 ^ shortest.bitCount ∧
        (∀ other ∈ scheme.forms, dir < 2 ^ other.bitCount → shortest.bitCount ≤ other.bitCount) ∧
        reEncode label scheme none = reEncode label scheme (some asked) := by
  obtain ⟨dir, above, written⟩ : ∃ dir above, WrittenIn scheme label num form dir above :=
    ⟨_, _, writtenIn_of_recognized recognized⟩
  rw [written.above_eq] at nonzero ⊢
  have room := written.room nonzero
  have got := written.getDirector_eq room.le
  refine ⟨dir, got, ?_, ?_, ?_⟩
  · intro asked target placed small fits
    obtain ⟨result, encoded, rewritten⟩ :=
      reEncode_fits plain separate written room nonzero placed small fits
    have targetRoom := rewritten.room nonzero
    exact ⟨result, encoded, rewritten.recognized separate, rewritten.getDirector_eq targetRoom.le,
      rewritten.above_eq, reEncode_congr plain separate written rewritten room targetRoom⟩
  · intro fits
    obtain ⟨result, encoded, rewritten⟩ :=
      reEncode_fits plain separate written room nonzero written.placed written.fits fits
    have same : result = label := RoutingLabel.ext (rewritten.bits.trans written.bits.symm)
    rw [encoded, same]
  · obtain ⟨shortest, asked, found, placed, small, least⟩ :=
      findShortestForm_ok (List.mem_of_getElem? written.placed) written.fits
    refine ⟨shortest, asked, placed, small, least, ?_⟩
    have unasked : desiredForm dir scheme none = .ok shortest := found
    have chosen : desiredForm dir scheme (some asked) = .ok shortest := by
      rw [desiredForm, placed]
    rw [reEncode_eq recognized written room unasked (if_neg plain),
      reEncode_eq recognized written room chosen (if_neg plain)]

end

/-- `schemes::V48`. -/
def v48 : EncodingScheme := ⟨formsOf [(4, 1, 1), (8, 1, 0)], by decide⟩

/-- The prefixes of the sample scheme are told apart. -/
theorem v48_prefixFree : PrefixFree v48 := prefixFree_of_pairwise (by decide)

/-- A hop above the director 3 in the first form, and in the second. -/
def threeInFirst : RoutingLabel 64 := ⟨0xa7, by decide, by decide⟩
def threeInSecond : RoutingLabel 64 := ⟨0xa06, by decide, by decide⟩

/-- Director three is written in the other form and back. -/
theorem three_kept : reEncode threeInFirst v48 (some 1) = .ok threeInSecond ∧
    reEncode threeInSecond v48 (some 0) = .ok threeInFirst := by
  have recognized : getEncodingForm threeInFirst v48 =
      .ok (⟨4, 1, 1, by decide, by decide, by decide, by decide⟩, 0) := by decide
  have got : getDirector threeInFirst ⟨4, 1, 1, by decide, by decide, by decide, by decide⟩ =
      .ok 3 := by decide
  obtain ⟨dir, same, each, own, -⟩ :=
    reEncode_keeps (by decide) v48_prefixFree recognized (by decide)
  cases got.symm.trans same
  obtain ⟨result, encoded, -, -, -, next⟩ :=
    each 1 ⟨8, 1, 0, by decide, by decide, by decide, by decide⟩ (by decide) (by decide)
      (show _ ≤ _ by decide)
  have second : reEncode threeInFirst v48 (some 1) = .ok threeInSecond := by decide
  cases encoded.symm.trans second
  exact ⟨second, (next (some 0)).trans (own (show _ ≤ _ by decide))⟩

end RouteServer.Splice
