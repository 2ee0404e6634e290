import RouteServer.Core.FormRecognition
import RouteServer.Core.ReEncode

/-!
# The form of a re-encoded label

A re-encoded label carries the prefix of the form asked for. Which forms of the scheme
it matches depends on nothing else than the director and what stands before it: the
adjustment of directors in the special scheme changes no match, as its prefixes do not
overlap.
-/

namespace RouteServer.Splice

open Rust Encoding Labels FormRecognition

variable {width : Nat}

/-- No form before a number is matched. -/
def NoneBefore (scheme : EncodingScheme) (start bits : Nat) : Prop :=
  ∀ earlier < start, ∀ other, scheme.forms[earlier]? = some other → ¬Matches bits other

/-- A label is recognized as a form of a number or a higher one. -/
def RecognizedFrom (label : RoutingLabel width) (scheme : EncodingScheme) (start : Nat) : Prop :=
  ∃ form formNum, getEncodingForm label scheme = .ok (form, formNum) ∧ start ≤ formNum

/-- The director of a label in one form, and what is before it, written with another. -/
def rewritten (label : RoutingLabel width) (form target : EncodingSchemeForm) : Nat :=
  encodeDirector target (label.bits / 2 ^ form.prefixLen % 2 ^ form.bitCount)
    (label.bits / 2 ^ (form.bitCount + form.prefixLen))

/-- A label that matches some form is recognized as the first it matches. -/
theorem recognizedFrom_iff (label : RoutingLabel width) (scheme : EncodingScheme) (start : Nat) :
    RecognizedFrom label scheme start ↔
      (∃ (place : Nat) (form : EncodingSchemeForm),
          scheme.forms[place]? = some form ∧ Matches label.bits form) ∧
        NoneBefore scheme start label.bits := by
  classical
  constructor
  · rintro ⟨form, formNum, recognized, high⟩
    obtain ⟨placed, matched, unmatched⟩ := (getEncodingForm_ok_iff _ _ _ _).mp recognized
    exact ⟨⟨formNum, form, placed, matched⟩,
      fun earlier before => unmatched earlier (before.trans_le high)⟩
  · rintro ⟨found, unmatched⟩
    obtain ⟨form, placed, matched⟩ := Nat.find_spec found
    refine ⟨form, Nat.find found, (getEncodingForm_ok_iff _ _ _ _).mpr ⟨placed, matched, ?_⟩, ?_⟩
    · exact fun earlier before other at_earlier also =>
        Nat.find_min found before ⟨other, at_earlier, also⟩
    · exact Nat.not_lt.mp fun before => unmatched _ before form placed matched

/-- The director of a label in a form. -/
theorem getDirector_ok {label : RoutingLabel width} {form : EncodingSchemeForm} {dir : Nat}
    (got : getDirector label form = .ok dir) :
    dir = label.bits / 2 ^ form.prefixLen % 2 ^ form.bitCount := by
  simp only [getDirector, Outcome.bind_ok_iff, Outcome.checkedSub_ok_iff,
    Outcome.checkedShl_ok_iff, Outcome.checkedShr_ok_iff] at got
  obtain ⟨_, ⟨formFits, rfl⟩, padding, ⟨prefixFits, split⟩, _, ⟨_, rfl⟩, _, rfl⟩ := got
  apply Nat.eq_of_testBit_eq
  intro index
  rw [Nat.testBit_shiftRight, Nat.testBit_mod_two_pow, Nat.testBit_shiftLeft,
    Nat.testBit_mod_two_pow, Nat.testBit_div_two_pow]
  have place : padding + form.prefixLen + index - padding = index + form.prefixLen := by omega
  have low : padding ≤ padding + form.prefixLen + index := by omega
  rw [place]
  by_cases inside : index < form.bitCount
  · have inWord : padding + form.prefixLen + index < width := by omega
    simp [inside, inWord, low]
  · have outside : ¬padding + form.prefixLen + index < width := by omega
    simp [inside, outside]

/-- Truncation to the word changes no low bits of what is written. -/
theorem writeDirector_mod {desired : EncodingSchemeForm} {dir above bits count : Nat}
    (inside : count ≤ width) (written : writeDirector width desired dir above = .ok bits) :
    bits % 2 ^ count = encodeDirector desired dir above % 2 ^ count := by
  simp only [writeDirector, Outcome.bind_ok_iff, Outcome.checkedShl_ok_iff, Outcome.pure_def,
    Outcome.ok.injEq] at written
  obtain ⟨_, ⟨_, rfl⟩, _, ⟨_, rfl⟩, rfl⟩ := written
  apply Nat.eq_of_testBit_eq
  intro index
  rw [Nat.testBit_mod_two_pow, Nat.testBit_mod_two_pow]
  by_cases low : index < count
  · have inWord : index < width := by omega
    have inUpper : index - desired.prefixLen < width := by omega
    simp [encodeDirector, inWord, inUpper]
  · simp [low]

/-- What a re-encoded label is made of.

Proof: the calls of the function one after the other, with the lemma of each. -/
theorem reEncode_ok {label result : RoutingLabel width} {scheme : EncodingScheme} {num : Nat}
    (encoded : reEncode label scheme (some num) = .ok result) :
    ∃ form index desired dir bits, getEncodingForm label scheme = .ok (form, index) ∧
      scheme.forms[num]? = some desired ∧
      adjustDirector width scheme form desired
        (label.bits / 2 ^ form.prefixLen % 2 ^ form.bitCount) = .ok dir ∧
      writeDirector width desired dir (label.bits / 2 ^ (form.bitCount + form.prefixLen)) =
        .ok bits ∧ result.bits = bits % 2 ^ width := by
  rw [reEncode] at encoded
  obtain ⟨⟨form, index⟩, recognized, afterForm⟩ := (Outcome.bind_ok_iff _ _ _).mp encoded
  obtain ⟨dir, got, afterDir⟩ := (Outcome.bind_ok_iff _ _ _).mp afterForm
  obtain ⟨desired, chosen, afterDesired⟩ := (Outcome.bind_ok_iff _ _ _).mp afterDir
  obtain ⟨adjusted, adjusts, afterAdjust⟩ := (Outcome.bind_ok_iff _ _ _).mp afterDesired
  obtain ⟨above, shifted, afterAbove⟩ := (Outcome.bind_ok_iff _ _ _).mp afterAdjust
  cases getDirector_ok got
  obtain ⟨-, rfl⟩ := (Outcome.checkedShr_ok_iff _ _ _ _).mp shifted
  rw [Nat.shiftRight_eq_div_pow] at afterAbove
  have placed : scheme.forms[num]? = some desired := by
    rw [desiredForm] at chosen
    split at chosen
    · next found =>
      cases chosen
      exact found
    · cases chosen
  split at afterAbove
  · cases afterAbove
  · obtain ⟨bits, written, labelled⟩ := (Outcome.bind_ok_iff _ _ _).mp afterAbove
    refine ⟨form, index, desired, adjusted, bits, recognized, placed, adjusts, written, ?_⟩
    split at labelled
    · next label built =>
      cases labelled
      exact labelOfWord_bits built
    · cases labelled

/-- In a scheme whose prefixes do not overlap a word matches one form only. -/
theorem matches_iff_of_prefixFree {scheme : EncodingScheme} (separate : PrefixFree scheme)
    {bits place other : Nat} {form otherForm : EncodingSchemeForm}
    (placed : scheme.forms[place]? = some form) (matched : Matches bits form)
    (otherPlaced : scheme.forms[other]? = some otherForm) :
    Matches bits otherForm ↔ other = place := by
  constructor
  · intro also
    rcases Nat.lt_trichotomy other place with before | same | after
    · exact absurd (overlap_of_matches bits _ _ also matched)
        (separate other place _ _ before otherPlaced placed)
    · exact same
    · exact absurd (overlap_of_matches bits _ _ matched also)
        (separate place other _ _ after placed otherPlaced)
  · rintro rfl
    cases placed.symm.trans otherPlaced
    exact matched

/-- In such a scheme a word that matches a form matches none before it. -/
theorem noneBefore_iff_of_prefixFree {scheme : EncodingScheme} (separate : PrefixFree scheme)
    {bits place : Nat} {form : EncodingSchemeForm} (placed : scheme.forms[place]? = some form)
    (matched : Matches bits form) (start : Nat) :
    NoneBefore scheme start bits ↔ start ≤ place := by
  constructor
  · intro unmatched
    exact Nat.not_lt.mp fun before => unmatched place before form placed matched
  · intro high earlier before other otherPlaced also
    have same := (matches_iff_of_prefixFree separate placed matched otherPlaced).mp also
    omega

/-- The prefixes of the scheme are told apart, which is decided form by form. -/
theorem v358_prefixFree : PrefixFree v358 := prefixFree_of_pairwise (by decide)

/-- A re-encoded label matches the forms that the rewritten one matches. -/
theorem reEncode_matches_iff (wide : 31 ≤ width) {label result : RoutingLabel width}
    {scheme : EncodingScheme} {num : Nat}
    (encoded : reEncode label scheme (some num) = .ok result) :
    ∃ form index target, getEncodingForm label scheme = .ok (form, index) ∧
      scheme.forms[num]? = some target ∧
      ∀ (place : Nat) (other : EncodingSchemeForm), scheme.forms[place]? = some other →
        (Matches result.bits other ↔ Matches (rewritten label form target) other) := by
  obtain ⟨form, index, target, dir, bits, recognized, placed, adjusts, written, resultBits⟩ :=
    reEncode_ok encoded
  refine ⟨form, index, target, recognized, placed, ?_⟩
  have sameLow (other : EncodingSchemeForm) : Matches result.bits other ↔
      Matches (encodeDirector target dir (label.bits / 2 ^ (form.bitCount + form.prefixLen)))
        other := by
    have inside : other.prefixLen ≤ width := other.prefixLen_le.trans wide
    rw [Matches, Matches, resultBits, Nat.mod_mod_of_dvd _ (Nat.pow_dvd_pow 2 inside),
      writeDirector_mod inside written]
  intro place other otherPlaced
  rw [sameLow]
  by_cases special : scheme = v358
  · have separate : PrefixFree scheme := special ▸ v358_prefixFree
    rw [matches_iff_of_prefixFree separate placed (encodeDirector_matches _ _ _) otherPlaced,
      rewritten,
      matches_iff_of_prefixFree separate placed (encodeDirector_matches _ _ _) otherPlaced]
  · rw [adjustDirector, if_neg special] at adjusts
    cases adjusts
    rfl

end RouteServer.Splice
