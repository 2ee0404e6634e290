import Mathlib.Tactic.Ring
import RouteServer.Core.Splice

/-!
# When the forms of a scheme can be told apart

Validation requires distinct prefix values; recognition compares low bits, each
form at its own prefix length. The two differ: a scheme passes validation even
when the prefix of one form is the low end of the prefix of another, and labels
of the later form are then taken for the earlier one. Labels are recognized as
the form they were built with exactly when no prefix is the low end of another,
in either direction: a longer prefix of an earlier form can also be completed by
the director bits of a later form.
-/

namespace RouteServer.FormRecognition

open Rust Encoding Labels Splice

/-- Every label built with a form of the scheme, from a director that fits the
form and any bits above it, is recognized as that form. -/
def Distinguishable (width : Nat) (scheme : EncodingScheme) : Prop :=
  ∀ (index : Nat) (form : EncodingSchemeForm) (director above : Nat) (label : RoutingLabel width),
    scheme.forms[index]? = some form → director < 2 ^ form.bitCount →
    label.bits = encodeDirector form director above →
    getEncodingForm label scheme = .ok (form, index)

/-- One of two prefixes is the low end of the other. -/
def Overlap (first second : EncodingSchemeForm) : Prop :=
  first.prefixBits % 2 ^ min first.prefixLen second.prefixLen =
    second.prefixBits % 2 ^ min first.prefixLen second.prefixLen

instance (first second : EncodingSchemeForm) : Decidable (Overlap first second) :=
  inferInstanceAs (Decidable (_ = _))

/-- No form's prefix is the low end of a later form's, nor the other way round. -/
def PrefixFree (scheme : EncodingScheme) : Prop :=
  ∀ (earlier later : Nat) (first second : EncodingSchemeForm), earlier < later →
    scheme.forms[earlier]? = some first → scheme.forms[later]? = some second →
    ¬ Overlap first second

/-- Where no two forms overlap no prefix is one of another. -/
theorem prefixFree_of_pairwise {scheme : EncodingScheme}
    (separate : scheme.forms.Pairwise fun first second => ¬Overlap first second) :
    PrefixFree scheme := by
  intro earlier later first second before placed laterPlaced
  obtain ⟨inside, rfl⟩ := List.getElem?_eq_some_iff.mp placed
  obtain ⟨laterInside, rfl⟩ := List.getElem?_eq_some_iff.mp laterPlaced
  exact List.pairwise_iff_getElem.mp separate earlier later inside laterInside before

/-- A word that matches both of two forms makes their prefixes overlap. -/
theorem overlap_of_matches (bits : Nat) (first second : EncodingSchemeForm)
    (low : Matches bits first) (other : Matches bits second) : Overlap first second := by
  rw [Overlap]
  rw [← low, ← other, Nat.mod_mod_of_dvd _ (Nat.pow_dvd_pow 2 (Nat.min_le_left _ _)),
    Nat.mod_mod_of_dvd _ (Nat.pow_dvd_pow 2 (Nat.min_le_right _ _))]

/-- A label built with a form matches it, whether or not the director fits. -/
theorem encodeDirector_matches (form : EncodingSchemeForm) (director above : Nat) :
    Matches (encodeDirector form director above) form := by
  rw [Matches, encodeDirector, Nat.or_mod_two_pow, Nat.shiftLeft_eq, Nat.mul_mod_left,
    Nat.zero_or, Nat.mod_eq_of_lt form.prefixBits_lt]

/-- Whatever stands above the prefix can be written as a director and bits above
it, since the director takes the low bits and no others. -/
theorem encodeDirector_surjective (form : EncodingSchemeForm) (upper : Nat) :
    ∃ director above, director < 2 ^ form.bitCount ∧
      encodeDirector form director above = 2 ^ form.prefixLen * upper + form.prefixBits := by
  have fits : upper % 2 ^ form.bitCount < 2 ^ form.bitCount := Nat.mod_lt _ (Nat.two_pow_pos _)
  refine ⟨upper % 2 ^ form.bitCount, upper / 2 ^ form.bitCount, fits, ?_⟩
  rw [encodeDirector_eq form _ _ fits, Nat.div_add_mod]

/-- When two prefixes overlap, some 62-bit label built with the second form also
matches the first. The director completes the longer prefix if the first form
has it, and a high bit keeps the label non-zero.

Proof: the shorter of the two prefixes is compared with the lower bits of the longer one, and
the upper bits of the longer one are written where the director of the second form begins. -/
theorem overlap_has_label (first second : EncodingSchemeForm) (overlap : Overlap first second) :
    ∃ director above, director < 2 ^ second.bitCount ∧
      encodeDirector second director above ≠ 0 ∧
      encodeDirector second director above < 2 ^ 63 ∧
      Matches (encodeDirector second director above) first := by
  have firstBound : first.prefixLen ≤ 31 := first.prefixLen_le
  have secondBound : second.prefixLen ≤ 31 := second.prefixLen_le
  -- The upper part of the longer prefix, empty when the second form has it.
  obtain ⟨upper, small, completed⟩ : ∃ upper, upper < 2 ^ 31 ∧
      (2 ^ second.prefixLen * upper + second.prefixBits) % 2 ^ first.prefixLen =
        first.prefixBits := by
    rcases Nat.le_total first.prefixLen second.prefixLen with shorter | longer
    · refine ⟨0, by decide, ?_⟩
      rw [Overlap, Nat.min_eq_left shorter, Nat.mod_eq_of_lt first.prefixBits_lt] at overlap
      rw [Nat.mul_zero, Nat.zero_add, ← overlap]
    · rw [Overlap, Nat.min_eq_right longer, Nat.mod_eq_of_lt second.prefixBits_lt] at overlap
      refine ⟨first.prefixBits / 2 ^ second.prefixLen, ?_, ?_⟩
      · calc first.prefixBits / 2 ^ second.prefixLen ≤ first.prefixBits := Nat.div_le_self _ _
          _ < 2 ^ first.prefixLen := first.prefixBits_lt
          _ ≤ 2 ^ 31 := Nat.pow_le_pow_right (by decide) firstBound
      · rw [← overlap, Nat.div_add_mod, Nat.mod_eq_of_lt first.prefixBits_lt]
  obtain ⟨director, above, fits, built⟩ := encodeDirector_surjective second (upper + 2 ^ 31)
  have weight : 2 ^ second.prefixLen ≤ 2 ^ 31 := Nat.pow_le_pow_right (by decide) secondBound
  have positive : 0 < 2 ^ second.prefixLen := Nat.two_pow_pos _
  have prefixSmall : second.prefixBits < 2 ^ second.prefixLen := second.prefixBits_lt
  refine ⟨director, above, fits, ?_, ?_, ?_⟩
  · rw [built]
    have product : 0 < 2 ^ second.prefixLen * (upper + 2 ^ 31) := Nat.mul_pos positive (by omega)
    omega
  · rw [built]
    calc 2 ^ second.prefixLen * (upper + 2 ^ 31) + second.prefixBits
        < 2 ^ second.prefixLen * (upper + 2 ^ 31) + 2 ^ second.prefixLen := by omega
      _ = 2 ^ second.prefixLen * (upper + 2 ^ 31 + 1) := by ring
      _ ≤ 2 ^ 31 * (2 ^ 32) := Nat.mul_le_mul weight (by omega)
      _ = 2 ^ 63 := by decide
  · have aligned : 2 ^ first.prefixLen ∣ 2 ^ second.prefixLen * 2 ^ 31 := by
      rw [← Nat.pow_add]
      exact Nat.pow_dvd_pow 2 (by omega)
    have regrouped : 2 ^ second.prefixLen * (upper + 2 ^ 31) + second.prefixBits =
        2 ^ second.prefixLen * upper + second.prefixBits + 2 ^ second.prefixLen * 2 ^ 31 := by ring
    rw [Matches, built, regrouped, Nat.add_mod, Nat.mod_eq_zero_of_dvd aligned, Nat.add_zero,
      Nat.mod_mod, completed]

/-- At every width of at least 64 bits the forms are distinguishable exactly
when no prefix is the low end of another. -/
theorem distinguishable_iff (width : Nat) (wide : 64 ≤ width) (scheme : EncodingScheme) :
    Distinguishable width scheme ↔ PrefixFree scheme := by
  constructor
  · intro recognized earlier later first second before at_earlier at_later overlap
    obtain ⟨director, above, fits, nonzero, small, matched⟩ :=
      overlap_has_label first second overlap
    have bounded : encodeDirector second director above < 2 ^ width :=
      small.trans_le (Nat.pow_le_pow_right (by decide) (by omega))
    have found := recognized later second director above
      ⟨encodeDirector second director above, nonzero, bounded⟩ at_later fits rfl
    exact ((getEncodingForm_ok_iff _ scheme second later).mp found).2.2 earlier before first
      at_earlier matched
  · intro separate index form director above label at_index fits built
    have matched : Matches label.bits form :=
      built ▸ encodeDirector_matches form director above
    refine (getEncodingForm_ok_iff label scheme form index).mpr ⟨at_index, matched, ?_⟩
    intro earlier before other at_earlier alsoMatched
    exact separate earlier index other form before at_earlier at_index
      (overlap_of_matches label.bits other form alsoMatched matched)

/-- For 64-bit and for 128-bit labels, a scheme accepted by validation tells its
forms apart exactly when no prefix is the low end of another. -/
theorem scheme_distinguishable_iff (scheme : EncodingScheme) :
    (Distinguishable 64 scheme ↔ PrefixFree scheme) ∧
      (Distinguishable 128 scheme ↔ PrefixFree scheme) :=
  ⟨distinguishable_iff 64 (by decide) scheme, distinguishable_iff 128 (by decide) scheme⟩

/-- Four director bits under the prefix `1`, and eight under the prefix `11`. -/
def overlappingForms : List EncodingSchemeForm :=
  [⟨4, 1, 1, by decide, by decide, by decide, by decide⟩,
    ⟨8, 2, 3, by decide, by decide, by decide, by decide⟩]

/-- Validation accepts the overlapping forms, yet the label that carries director
zero in the second form is recognized as the first form. -/
theorem validated_forms_overlap :
    ∃ scheme, EncodingScheme.tryNew overlappingForms = .ok scheme ∧
      ¬ Distinguishable 64 scheme ∧ ¬ Distinguishable 128 scheme := by
  have valid : validate overlappingForms = .ok () := by decide
  have overlaps : ¬ PrefixFree ⟨overlappingForms, valid⟩ := by
    intro separate
    exact separate 0 1 _ _ (by decide) rfl rfl (by unfold Overlap; decide)
  refine ⟨⟨overlappingForms, valid⟩, (EncodingScheme.tryNew_ok_iff _ _).mpr rfl, ?_, ?_⟩
  · exact fun recognized => overlaps ((distinguishable_iff 64 (by decide) _).mp recognized)
  · exact fun recognized => overlaps ((distinguishable_iff 128 (by decide) _).mp recognized)

end RouteServer.FormRecognition
