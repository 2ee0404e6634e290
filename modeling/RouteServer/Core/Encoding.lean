import RouteServer.Rust.Outcome

/-!
# Encoding forms and schemes

A form tells how one director is written into a routing label: `bitCount` bits
of director above `prefixLen` bits of prefix. A scheme is a validated list of
forms. Both types carry their invariant, so a value of either type is one the
constructors `tryNew` can return.

`1 << prefix_len` is checked 32-bit arithmetic: a prefix length of 32 or more
panics before any form exists. The fields are natural numbers within the ranges
of the source's `u8` and `u32`, which the invariant makes explicit.
-/

namespace RouteServer.Encoding

open Rust

/-- Why a form is refused. -/
inductive FormValidationError where
  | badBitCount
  | invalidPrefixData
deriving DecidableEq

/-- Why a list of forms is not a scheme. -/
inductive SchemeValidationError where
  | invalidFormsAmount
  | singleFormWithPrefix
  | multiFormBadPrefix
  | bitCountNotSorted
  | duplicatePrefix
  | tooBigForm
deriving DecidableEq

/-- One form of a scheme. Its prefix fits its length, and both the bit count and
the prefix length fit the five bits the wire format gives them. -/
structure EncodingSchemeForm where
  bitCount : Nat
  prefixLen : Nat
  prefixBits : Nat
  bitCount_pos : 0 < bitCount
  bitCount_le : bitCount ≤ 31
  prefixLen_le : prefixLen ≤ 31
  prefixBits_lt : prefixBits < 2 ^ prefixLen
deriving DecidableEq

namespace EncodingSchemeForm

/-- `EncodingSchemeForm::try_new`. -/
def tryNew (bitCount prefixLen prefixBits : Nat) :
    Outcome FormValidationError EncodingSchemeForm :=
  if count : bitCount = 0 ∨ bitCount > 31 then .err .badBitCount
  else if wide : 32 ≤ prefixLen then .panicked
  else if large : prefixBits > 2 ^ prefixLen - 1 then .err .invalidPrefixData
  else .ok
    { bitCount, prefixLen, prefixBits
      bitCount_pos := by omega
      bitCount_le := by omega
      prefixLen_le := by omega
      prefixBits_lt := by
        have positive : 0 < 2 ^ prefixLen := Nat.two_pow_pos prefixLen
        omega }

/-- How many bits of label space a director takes in this form. -/
def sizeBits (form : EncodingSchemeForm) : Nat := form.bitCount + form.prefixLen

/-- A returned form has exactly the parameters it was asked for, and those
parameters are within the ranges of the type. -/
theorem tryNew_ok_iff (bitCount prefixLen prefixBits : Nat) (form : EncodingSchemeForm) :
    tryNew bitCount prefixLen prefixBits = .ok form ↔
      form.bitCount = bitCount ∧ form.prefixLen = prefixLen ∧ form.prefixBits = prefixBits := by
  obtain ⟨count, length, bits, positive, countBound, lengthBound, fits⟩ := form
  constructor
  · intro built
    rw [tryNew] at built
    split at built
    · cases built
    · split at built
      · cases built
      · split at built
        · cases built
        · cases built
          exact ⟨rfl, rfl, rfl⟩
  · rintro ⟨rfl, rfl, rfl⟩
    have counted : ¬ (count = 0 ∨ count > 31) := by omega
    have narrow : ¬ 32 ≤ length := by omega
    have small : ¬ bits > 2 ^ length - 1 := by omega
    simp [tryNew, counted, narrow, small]

end EncodingSchemeForm

/-- Room kept at the top of a label: no form may take more bits than this. -/
def formMaxBitSize : Nat := 59

/-- The loop of `EncodingScheme::validate` for two or more forms. It carries the
bit count of the form before and every prefix value met so far. -/
def validateForms : Nat → List Nat → List EncodingSchemeForm → Except SchemeValidationError Unit
  | _, _, [] => .ok ()
  | lastBitCount, usedPrefixes, form :: rest =>
    if form.prefixLen = 0 ∨ form.prefixLen > 31 then .error .multiFormBadPrefix
    else if lastBitCount > form.bitCount then .error .bitCountNotSorted
    else if form.sizeBits > formMaxBitSize then .error .tooBigForm
    else if form.prefixBits ∈ usedPrefixes then .error .duplicatePrefix
    else validateForms form.bitCount (form.prefixBits :: usedPrefixes) rest

/-- `EncodingScheme::validate`. -/
def validate (forms : List EncodingSchemeForm) : Except SchemeValidationError Unit :=
  if forms.length = 0 ∨ forms.length > 31 then .error .invalidFormsAmount
  else match forms with
    | [form] =>
      if form.prefixLen ≠ 0 ∨ form.prefixBits ≠ 0 then .error .singleFormWithPrefix
      else .ok ()
    | _ => validateForms 0 [] forms

/-- A validated, immutable list of forms. -/
structure EncodingScheme where
  forms : List EncodingSchemeForm
  valid : validate forms = .ok ()
deriving DecidableEq

/-- `EncodingScheme::try_new`. -/
def EncodingScheme.tryNew (forms : List EncodingSchemeForm) :
    Except SchemeValidationError EncodingScheme :=
  match valid : validate forms with
  | .ok () => .ok ⟨forms, valid⟩
  | .error fault => .error fault

/-- A scheme is built exactly from forms that pass validation, and keeps them. -/
theorem EncodingScheme.tryNew_ok_iff (forms : List EncodingSchemeForm) (scheme : EncodingScheme) :
    EncodingScheme.tryNew forms = .ok scheme ↔ scheme.forms = forms := by
  constructor
  · intro built
    rw [EncodingScheme.tryNew] at built
    split at built
    · cases built
      rfl
    · cases built
  · rintro rfl
    rw [EncodingScheme.tryNew]
    split
    · rfl
    · next fault refused => simp [scheme.valid] at refused

/-- Validation of several forms admits no form that leaves too little room in a label. -/
theorem validateForms_sizeBits {forms : List EncodingSchemeForm} {lastBitCount : Nat}
    {usedPrefixes : List Nat} (valid : validateForms lastBitCount usedPrefixes forms = .ok ()) :
    ∀ form ∈ forms, form.sizeBits ≤ formMaxBitSize := by
  induction forms generalizing lastBitCount usedPrefixes with
  | nil => simp
  | cons form rest inductionHypothesis =>
    simp only [validateForms] at valid
    split at valid
    · cases valid
    · split at valid
      · cases valid
      · split at valid
        · cases valid
        · next fits =>
          split at valid
          · cases valid
          · exact List.forall_mem_cons.mpr ⟨Nat.le_of_not_lt fits, inductionHypothesis valid⟩

/-- No form of a scheme takes more than 59 bits, as a single form has no prefix. -/
theorem EncodingScheme.sizeBits_le (scheme : EncodingScheme) {form : EncodingSchemeForm}
    (member : form ∈ scheme.forms) : form.sizeBits ≤ formMaxBitSize := by
  have valid : validate scheme.forms = .ok () := scheme.valid
  unfold validate at valid
  split at valid
  · cases valid
  · split at valid
    · next only same =>
      split at valid
      · cases valid
      · next noPrefix =>
        rw [same, List.mem_singleton] at member
        subst member
        have length : form.prefixLen = 0 := Decidable.not_not.mp (not_or.mp noPrefix).1
        have count : form.bitCount ≤ 31 := form.bitCount_le
        rw [EncodingSchemeForm.sizeBits, length, formMaxBitSize]
        omega
    · exact validateForms_sizeBits valid form member

/-- A scheme has between one and 31 forms. -/
theorem EncodingScheme.length_bounds (scheme : EncodingScheme) :
    0 < scheme.forms.length ∧ scheme.forms.length ≤ 31 := by
  have valid : validate scheme.forms = .ok () := scheme.valid
  unfold validate at valid
  split at valid
  · cases valid
  · omega

end RouteServer.Encoding
