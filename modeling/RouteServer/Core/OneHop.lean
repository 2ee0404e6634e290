import Mathlib.Data.Nat.Log
import RouteServer.Core.WrittenLabel

/-!
# Labels of one hop

A label of one hop is the marker, a director and the prefix of its form. Splicing a path in
front of it puts the bits of the path in the place of the marker, so the director and the
form are those of the hop, as long as no other form can match what the path brings in.
-/

namespace RouteServer.Splice

open Rust Encoding Labels FormRecognition

variable {width : Nat}

/-- `is_one_hop`. -/
def isOneHop (label : RoutingLabel width) (scheme : EncodingScheme) :
    Outcome SpliceError Bool := do
  let (labelForm, _) ← getEncodingForm label scheme
  let formBits ← Outcome.checkedAdd 8 labelForm.bitCount labelForm.prefixLen
  return labelHighestSetBit label = formBits

section

variable {scheme : EncodingScheme} {label hop front spliced : RoutingLabel width} {num : Nat}
  {form : EncodingSchemeForm} {dir above : Nat}

/-- Both parts of a form have less than 32 bits, so their sum is a byte. -/
theorem isOneHop_of_recognized (recognized : getEncodingForm label scheme = .ok (form, num)) :
    isOneHop label scheme = .ok (label.bits.log2 = form.bitCount + form.prefixLen) := by
  have countSmall : form.bitCount ≤ 31 := form.bitCount_le
  have lengthSmall : form.prefixLen ≤ 31 := form.prefixLen_le
  have inByte : form.bitCount + form.prefixLen < 2 ^ 8 := by omega
  rw [isOneHop, recognized, Outcome.ok_bind]
  dsimp only
  rw [Outcome.checkedAdd, if_pos inByte, labelHighestSetBit_eq]
  rfl

/-- One is the zeroth power. -/
theorem log2_one : Nat.log2 1 = 0 := by decide

/-- The highest bit of a label is that of the bits above its director, moved up. -/
theorem WrittenIn.log2_eq (written : WrittenIn scheme label num form dir above)
    (nonzero : above ≠ 0) :
    label.bits.log2 = above.log2 + (form.bitCount + form.prefixLen) := by
  have upper : label.bits / 2 ^ (form.bitCount + form.prefixLen) = above := by
    rw [← Nat.shiftRight_eq_div_pow, written.above_eq]
  have shifted : above.log2 = label.bits.log2 - (form.bitCount + form.prefixLen) := by
    rw [Nat.log2_eq_log_two, Nat.log2_eq_log_two, ← upper, Nat.log_div_base_pow]
  have reaches : 2 ^ (form.bitCount + form.prefixLen) ≤ label.bits := by
    by_contra below
    exact nonzero (upper ▸ Nat.div_eq_of_lt (Nat.not_le.mp below))
  have high := (Nat.le_log2 label.nonzero).mpr reaches
  omega

/-- A label has one hop exactly when it is a marker above a director of one form. -/
theorem isOneHop_iff (separate : PrefixFree scheme) (label : RoutingLabel width) :
    isOneHop label scheme = .ok true ↔ ∃ num form dir, WrittenIn scheme label num form dir 1 := by
  constructor
  · intro one
    rw [isOneHop] at one
    obtain ⟨⟨form, num⟩, recognized, -⟩ := (Outcome.bind_ok_iff _ _ _).mp one
    have high := (isOneHop_of_recognized recognized).symm.trans one
    rw [Outcome.ok.injEq, decide_eq_true_iff] at high
    obtain ⟨dir, above, written⟩ : ∃ dir above, WrittenIn scheme label num form dir above :=
      ⟨_, _, writtenIn_of_recognized recognized⟩
    have nonzero : above ≠ 0 := by
      have reaches := Nat.log2_self_le label.nonzero
      rw [← written.above_eq, Nat.shiftRight_eq_div_pow, ← high]
      exact (Nat.div_pos reaches (Nat.two_pow_pos _)).ne'
    have marker : above = 1 := by
      have shifted := written.log2_eq nonzero
      have low : above < 2 ^ 1 := (Nat.log2_lt nonzero).mp (by omega)
      omega
    subst marker
    exact ⟨num, form, dir, written⟩
  · rintro ⟨num, form, dir, written⟩
    rw [isOneHop_of_recognized (written.recognized separate), written.log2_eq Nat.one_ne_zero]
    simp [log2_one]

/-- A path in front of a hop stands above its director. -/
theorem WrittenIn.splice_front (written : WrittenIn scheme hop num form dir 1)
    (joined : splice [front, hop] = .ok spliced) :
    WrittenIn scheme spliced num form dir front.bits := by
  refine ⟨written.placed, written.fits, ?_⟩
  have whole : payload spliced = payload front ++ payload hop := by
    rcases splice_cases [front, hop] (by simp) with ⟨-, label, ok, bits⟩ | ⟨-, err⟩
    · cases ok.symm.trans joined
      simpa [payloads] using bits
    · rw [err] at joined
      cases joined
  have own : hop.bits = 2 ^ (payload hop).length + MarkerBit.low (payload hop) := by
    rw [← MarkerBit.encode_eq, payload, MarkerBit.encode_payload hop.nonzero]
  have length : (payload hop).length = form.bitCount + form.prefixLen := by
    rw [length_payload, labelHighestSetBit_eq, written.log2_eq Nat.one_ne_zero]
    simp [log2_one]
  have high : 2 ^ (form.bitCount + form.prefixLen) = 2 ^ form.prefixLen * 2 ^ form.bitCount := by
    rw [Nat.pow_add, Nat.mul_comm]
  have hopBits := written.bits
  rw [encodeDirector_eq form _ _ written.fits, Nat.mul_one, Nat.mul_add, ← high, own,
    length] at hopBits
  rw [encodeDirector_eq form _ _ written.fits, Nat.mul_add, ← Nat.mul_assoc, ← high,
    ← MarkerBit.encode_payload spliced.nonzero]
  calc MarkerBit.encode (payload spliced)
      = 2 ^ (form.bitCount + form.prefixLen) * front.bits + MarkerBit.low (payload hop) := by
        rw [whole, MarkerBit.encode_append, length, payload,
          MarkerBit.encode_payload front.nonzero]
    _ = _ := by omega

/-- A label has one hop exactly when it is marker, director and prefix of one form. Splicing
keeps the form and the director of such a label, and nothing but the self-reference in front
of it leaves it one hop.

Proof: a label of one hop has a marker right above its director. Splicing puts the payload of the
front there in its place, so the form and the director stay, and the marker is higher unless the
front has no payload. -/
theorem one_hop_spliced [NeZero width] (separate : PrefixFree scheme)
    (hop : RoutingLabel width) :
    (isOneHop hop scheme = .ok true ↔
        ∃ (num : Nat) (form : EncodingSchemeForm) (dir : Nat), scheme.forms[num]? = some form ∧
          dir < 2 ^ form.bitCount ∧ hop.bits = encodeDirector form dir 1) ∧
      (isOneHop hop scheme = .ok true → ∀ front spliced, splice [front, hop] = .ok spliced →
        ∃ form num dir, getEncodingForm hop scheme = .ok (form, num) ∧
          getEncodingForm spliced scheme = .ok (form, num) ∧
          getDirector hop form = .ok dir ∧ getDirector spliced form = .ok dir ∧
          (front ≠ selfReference → isOneHop spliced scheme = .ok false)) := by
  have oneIff := isOneHop_iff separate hop
  constructor
  · rw [oneIff]
    constructor
    · rintro ⟨num, form, dir, written⟩
      exact ⟨num, form, dir, written.placed, written.fits, written.bits⟩
    · rintro ⟨num, form, dir, placed, fits, bits⟩
      exact ⟨num, form, dir, placed, fits, bits⟩
  · intro one front spliced joined
    obtain ⟨num, form, dir, written⟩ := oneIff.mp one
    have extended := written.splice_front joined
    have recognized := extended.recognized separate
    refine ⟨form, num, dir, written.recognized separate, recognized,
      written.getDirector_eq (written.room Nat.one_ne_zero).le,
      extended.getDirector_eq (extended.room front.nonzero).le, ?_⟩
    intro other
    have longer : front.bits.log2 ≠ 0 := by
      intro zero
      have small : front.bits < 2 ^ 1 := (Nat.log2_lt front.nonzero).mp (by omega)
      have nonzero : front.bits ≠ 0 := front.nonzero
      exact other (RoutingLabel.ext (show front.bits = 1 by omega))
    rw [isOneHop_of_recognized recognized, extended.log2_eq front.nonzero,
      decide_eq_false (by omega)]

end

/-- A hop with the director 0 in the first form of `V358`, behind a hop of the second form. -/
def zeroInFirst : RoutingLabel 64 := ⟨0x11, by decide, by decide⟩
def sevenInSecond : RoutingLabel 64 := ⟨0x9e, by decide, by decide⟩
def sevenThenZero : RoutingLabel 64 := ⟨0x9e1, by decide, by decide⟩

/-- Zero in the first form is one hop, and so it is not behind another director. -/
theorem zero_after_seven : isOneHop zeroInFirst v358 = .ok true ∧
    isOneHop sevenThenZero v358 = .ok false := by
  have one : isOneHop zeroInFirst v358 = .ok true := by decide
  have spliced : splice [sevenInSecond, zeroInFirst] = .ok sevenThenZero := by decide
  have separate : PrefixFree v358 := v358_prefixFree
  obtain ⟨form, num, dir, -, -, -, -, longer⟩ :=
    (one_hop_spliced separate zeroInFirst).2 one sevenInSecond sevenThenZero spliced
  exact ⟨one, longer (by decide)⟩

end RouteServer.Splice
