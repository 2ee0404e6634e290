import Mathlib.Data.Nat.Bitwise
import RouteServer.Core.Encoding
import RouteServer.Core.RoutingLabel

/-!
# Recognizing and writing the first director of a label

The encoding form of a label is found by its low bits: the forms of the scheme
are tried in order, each masking the label by its own prefix length, and the
first that matches is taken. Writing a director puts the prefix of the chosen
form below it and the rest of the label above it.
-/

namespace RouteServer.Splice

open Rust Encoding Labels

/-- `SpliceError`. -/
inductive SpliceError where
  | labelTooLong
  | notEnoughArguments
  | badArgument
  | cannotUnsplice
  | cannotFindForm
  | cannotReencode
  | routingLabelTryNewFailed (bits : Nat)
  | routesThroughFailed
  | highestSetBitIsBroken
deriving DecidableEq

/-- The text of an error. -/
def SpliceError.text : SpliceError → String
  | labelTooLong => "Label is too long"
  | notEnoughArguments => "Not enough arguments"
  | badArgument => "Bad argument"
  | cannotUnsplice => "Can't unsplice"
  | cannotFindForm => "Can't detect form"
  | cannotReencode => "Can't re-encode"
  | routingLabelTryNewFailed bits => "RoutingLabel::try_new(" ++ toString bits ++ ") failed"
  | routesThroughFailed => "routes_through() failed"
  | highestSetBitIsBroken => "highest_set_bit() is broken"

/-- The loop of `get_encoding_form`, counting forms from `index`. -/
def findForm (bits : Nat) :
    Nat → List EncodingSchemeForm → Outcome SpliceError (EncodingSchemeForm × Nat)
  | _, [] => .err .cannotFindForm
  | index, form :: rest =>
    if form.prefixLen = 0 then .ok (form, index)
    else do
      Outcome.assert (decide (form.prefixLen < 32))
      let mask := (1 <<< form.prefixLen) - 1
      if bits &&& mask = form.prefixBits then return (form, index)
      else findForm bits (index + 1) rest

/-- `get_encoding_form`. -/
def getEncodingForm {width : Nat} (label : RoutingLabel width) (scheme : EncodingScheme) :
    Outcome SpliceError (EncodingSchemeForm × Nat) :=
  findForm label.bits 0 scheme.forms

/-- The bits before a director, the padded director and the prefix of its form,
put together as `re_encode` does. -/
def encodeDirector (form : EncodingSchemeForm) (director above : Nat) : Nat :=
  (((above <<< form.bitCount) ||| director) <<< form.prefixLen) ||| form.prefixBits

/-- The low bits of a word are the prefix of a form. -/
def Matches (bits : Nat) (form : EncodingSchemeForm) : Prop :=
  bits % 2 ^ form.prefixLen = form.prefixBits

/-- The shifted parts never overlap, so an encoded director is a sum. -/
theorem encodeDirector_eq (form : EncodingSchemeForm) (director above : Nat)
    (fits : director < 2 ^ form.bitCount) :
    encodeDirector form director above =
      2 ^ form.prefixLen * (2 ^ form.bitCount * above + director) + form.prefixBits := by
  rw [encodeDirector]
  simp only [Nat.shiftLeft_eq, Nat.mul_comm _ (2 ^ form.bitCount),
    Nat.mul_comm _ (2 ^ form.prefixLen)]
  rw [← Nat.two_pow_add_eq_or_of_lt fits, ← Nat.two_pow_add_eq_or_of_lt form.prefixBits_lt]

/-- One step of the search: a form is taken when it matches, else the next one
is tried. The assertion never fails on the forms of the type. -/
theorem findForm_cons (bits index : Nat) (form : EncodingSchemeForm)
    (rest : List EncodingSchemeForm) [Decidable (Matches bits form)] :
    findForm bits index (form :: rest) =
      if Matches bits form then .ok (form, index) else findForm bits (index + 1) rest := by
  have lengthBound : form.prefixLen < 32 := Nat.lt_succ_of_le form.prefixLen_le
  have masked : bits &&& ((1 <<< form.prefixLen) - 1) = bits % 2 ^ form.prefixLen := by
    rw [Nat.one_shiftLeft, Nat.and_two_pow_sub_one_eq_mod]
  by_cases empty : form.prefixLen = 0
  · have fits : form.prefixBits < 2 ^ form.prefixLen := form.prefixBits_lt
    have zero : form.prefixBits = 0 := by
      rw [empty] at fits
      omega
    have found : Matches bits form := by simp [Matches, empty, zero, Nat.mod_one]
    simp [findForm, empty, found]
  · simp only [findForm, if_neg empty, lengthBound, decide_true, Outcome.assert_true,
      Outcome.ok_bind, masked, Matches, Outcome.pure_def]
    congr

/-- The search returns exactly the first form that matches.

Proof: induction on the forms. The first one matches, or the search goes on with the others one
place later. -/
theorem findForm_ok_iff (bits index : Nat) (forms : List EncodingSchemeForm)
    (form : EncodingSchemeForm) (found : Nat) :
    findForm bits index forms = .ok (form, found) ↔
      ∃ place, found = index + place ∧ forms[place]? = some form ∧ Matches bits form ∧
        ∀ earlier < place, ∀ other, forms[earlier]? = some other → ¬ Matches bits other := by
  classical
  induction forms generalizing index with
  | nil => simp [findForm]
  | cons head rest inductionHypothesis =>
    rw [findForm_cons]
    split
    · next matched =>
      constructor
      · intro same
        cases same
        exact ⟨0, rfl, rfl, matched, by simp⟩
      · rintro ⟨place, rfl, at_place, _, unmatched⟩
        cases place with
        | zero =>
          cases at_place
          rfl
        | succ place => exact absurd matched (unmatched 0 (by omega) head rfl)
    · next skipped =>
      rw [inductionHypothesis]
      constructor
      · rintro ⟨place, rfl, at_place, matched, unmatched⟩
        refine ⟨place + 1, by omega, at_place, matched, ?_⟩
        intro earlier before other at_earlier
        cases earlier with
        | zero =>
          cases at_earlier
          exact skipped
        | succ earlier => exact unmatched earlier (by omega) other at_earlier
      · rintro ⟨place, rfl, at_place, matched, unmatched⟩
        cases place with
        | zero =>
          cases at_place
          exact absurd matched skipped
        | succ place =>
          refine ⟨place, by omega, at_place, matched, ?_⟩
          intro earlier before other at_earlier
          exact unmatched (earlier + 1) (by omega) other at_earlier

/-- A label is recognized as form `index` exactly when that form matches its low
bits and no earlier form does. -/
theorem getEncodingForm_ok_iff {width : Nat} (label : RoutingLabel width) (scheme : EncodingScheme)
    (form : EncodingSchemeForm) (index : Nat) :
    getEncodingForm label scheme = .ok (form, index) ↔
      scheme.forms[index]? = some form ∧ Matches label.bits form ∧
        ∀ earlier < index, ∀ other, scheme.forms[earlier]? = some other →
          ¬ Matches label.bits other := by
  rw [getEncodingForm, findForm_ok_iff]
  simp

end RouteServer.Splice
