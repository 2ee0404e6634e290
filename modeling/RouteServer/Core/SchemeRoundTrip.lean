import RouteServer.Core.SchemeReader

/-!
# Which byte strings the reader survives, and the round trip

`deserialize_scheme` never returns an error from inside its loop: it either
decodes every form or panics. It decodes exactly the strings whose bits are a
non-empty list of packed forms followed by fewer than ten others. Everything the
writer produces has this shape, so a serialized scheme always reads back as
itself.
-/

namespace RouteServer.SchemeCodec

open Rust Encoding

/-- One iteration returns a form or panics. -/
theorem readForm_no_err (schemeBytes : List UInt8) (curPos : Nat)
    (fault : EncodingSerializationError) : readForm schemeBytes curPos ≠ .err fault := by
  have sub (left right : Nat) :
      (Outcome.checkedSub left right : Outcome EncodingSerializationError Nat) ≠ .err fault := by
    rw [Outcome.checkedSub]
    split <;> simp
  have bits (position amount : Nat) :
      (readBits schemeBytes position amount : Outcome EncodingSerializationError Nat) ≠
        .err fault := by
    rw [readBits_eq]
    split <;> simp
  have form (bitCount prefixLen prefixBits : Nat) :
      ((EncodingSchemeForm.tryNew bitCount prefixLen prefixBits).expect :
        Outcome EncodingSerializationError EncodingSchemeForm) ≠ .err fault := by
    cases EncodingSchemeForm.tryNew bitCount prefixLen prefixBits <;> simp [Outcome.expect]
  simp [readForm, Outcome.bind_err_iff, sub, bits, form]

/-- The loop decodes all forms or panics. -/
theorem deserializeLoop_no_err (schemeBytes : List UInt8) (curPos : Nat)
    (result : List EncodingSchemeForm) (fault : EncodingSerializationError) :
    deserializeLoop schemeBytes curPos result ≠ .err fault := by
  induction curPos using Nat.strongRecOn generalizing result with
  | ind curPos inductionHypothesis =>
    rw [deserializeLoop]
    split
    · next form next read =>
      split
      · simp
      · have descended : next + 10 ≤ curPos := readForm_descends schemeBytes curPos next form read
        exact inductionHypothesis next (by omega) _
    · next other read => exact absurd read (readForm_no_err schemeBytes curPos other)
    · simp

/-- The bits of a longer list are a packed form with the packed rest above it. -/
theorem field_packed_cons (number offset : Nat) (form : EncodingSchemeForm)
    (rest : List EncodingSchemeForm) :
    field number offset (packedBits (form :: rest)) = packedValue (form :: rest) ↔
      field number offset (formBits form) = formValue form ∧
        field number (offset + formBits form) (packedBits rest) = packedValue rest := by
  have low : field number offset (formBits form) < 2 ^ formBits form := field_lt _ _ _
  have value : formValue form < 2 ^ formBits form := formValue_lt form
  rw [packedBits_cons, field_add, packedValue]
  constructor
  · intro same
    have quotient := congrArg (· / 2 ^ formBits form) same
    have remainder := congrArg (· % 2 ^ formBits form) same
    simp only [Nat.add_mul_div_left _ _ (Nat.two_pow_pos _), Nat.div_eq_of_lt low,
      Nat.div_eq_of_lt value, Nat.zero_add] at quotient
    simp only [Nat.add_mul_mod_self_left, Nat.mod_eq_of_lt low, Nat.mod_eq_of_lt value] at remainder
    exact ⟨remainder, quotient⟩
  · rintro ⟨first, second⟩
    rw [first, second]

/-- Inside the buffer the loop returns exactly the forms packed below its
position, when fewer than ten bits are left under them.

Both directions descend one form at a time. A list of one form leaves fewer than
ten bits, which is the stop rule; a longer list leaves at least the ten bits of
its next form, so the loop goes on. -/
theorem deserializeLoop_ok_iff (schemeBytes : List UInt8)
    (narrow : asU32 schemeBytes.length * 8 < 2 ^ 32) (curPos : Nat)
    (result decoded : List EncodingSchemeForm)
    (inside : curPos ≤ asU32 schemeBytes.length * 8) :
    deserializeLoop schemeBytes curPos result = .ok decoded ↔
      ∃ forms, forms ≠ [] ∧ decoded = result ++ forms ∧ packedBits forms ≤ curPos ∧
        curPos < packedBits forms + 10 ∧
        field (byteValue schemeBytes) (8 * schemeBytes.length - curPos) (packedBits forms) =
          packedValue forms := by
  have cut : asU32 schemeBytes.length ≤ schemeBytes.length := asU32_le _
  induction curPos using Nat.strongRecOn generalizing result with
  | ind curPos inductionHypothesis =>
    have below (form : EncodingSchemeForm) (next : Nat) (place : curPos = next + formBits form) :
        8 * schemeBytes.length - next = 8 * schemeBytes.length - curPos + formBits form := by
      omega
    constructor
    · intro returned
      rw [deserializeLoop] at returned
      split at returned
      · next form next read =>
        obtain ⟨place, packed⟩ :=
          (readForm_ok_iff schemeBytes narrow curPos next form inside).mp read
        split at returned
        · next stop =>
          cases returned
          refine ⟨[form], by simp, rfl, ?_, ?_, ?_⟩
          · simp only [packedBits_cons, packedBits_nil]
            omega
          · simp only [packedBits_cons, packedBits_nil]
            omega
          · rw [field_packed_cons]
            exact ⟨packed, by simp [packedValue]⟩
        · have shorter : next < curPos := by
            rw [formBits] at place
            omega
          obtain ⟨rest, nonempty, rfl, covers, leftover, tail⟩ :=
            (inductionHypothesis next shorter _ (by omega)).mp returned
          refine ⟨form :: rest, by simp, by simp, ?_, ?_, ?_⟩
          · rw [packedBits_cons]
            omega
          · rw [packedBits_cons]
            omega
          · rw [field_packed_cons, ← below form next place]
            exact ⟨packed, tail⟩
      · cases returned
      · cases returned
    · rintro ⟨forms, nonempty, rfl, covers, leftover, packed⟩
      cases forms with
      | nil => exact absurd rfl nonempty
      | cons form rest =>
        rw [packedBits_cons] at covers leftover
        rw [field_packed_cons] at packed
        obtain ⟨next, place⟩ : ∃ next, curPos = next + formBits form :=
          ⟨curPos - formBits form, by omega⟩
        have read : readForm schemeBytes curPos = .ok (form, next) :=
          (readForm_ok_iff schemeBytes narrow curPos next form inside).mpr ⟨place, packed.1⟩
        rw [deserializeLoop]
        split
        · next readForm readNext found =>
          obtain ⟨rfl, rfl⟩ : form = readForm ∧ next = readNext := by
            simpa using read.symm.trans found
          cases rest with
          | nil =>
            rw [if_pos (by simp only [packedBits_nil] at leftover; omega)]
          | cons second others =>
            have more : 10 ≤ packedBits (second :: others) := by
              rw [packedBits_cons]
              rw [formBits]
              omega
            have shorter : next < curPos := by
              rw [formBits] at place
              omega
            rw [if_neg (by omega)]
            apply (inductionHypothesis next shorter _ (by omega)).mpr
            refine ⟨second :: others, by simp, by simp, by omega, by omega, ?_⟩
            rw [below form next place]
            exact packed.2
        · next fault found => exact absurd (read.symm.trans found) (by simp)
        · next found => exact absurd (read.symm.trans found) (by simp)

/-- The bits of a byte string, first byte first and least significant bit first,
are a non-empty list of packed forms followed by fewer than ten bits of any
value. A form with bit count zero is no form. -/
def WellFramed (bytes : List UInt8) : Prop :=
  ∃ forms, forms ≠ [] ∧ packedBits forms ≤ 8 * bytes.length ∧
    8 * bytes.length < packedBits forms + 10 ∧
    byteValue bytes % 2 ^ packedBits forms = packedValue forms

/-- The bytes the reader can address: its positions are 32-bit numbers, so of a
string of 2^32 bytes or more it sees only the last `len mod 2^32`. -/
def addressed (bytes : List UInt8) : List UInt8 :=
  bytes.drop (bytes.length - asU32 bytes.length)

/-- A reader can address as many bytes as its position can count. -/
theorem addressed_length (bytes : List UInt8) :
    (addressed bytes).length = asU32 bytes.length := by
  have cut : asU32 bytes.length ≤ bytes.length := asU32_le _
  rw [addressed, List.length_drop]
  omega

/-- The loop started at the end of the addressed bytes decodes the forms that
frame them. -/
theorem deserializeLoop_start (bytes : List UInt8)
    (narrow : asU32 bytes.length * 8 < 2 ^ 32) (forms : List EncodingSchemeForm) :
    deserializeLoop bytes (asU32 (bytes.length * 8)) [] = .ok forms ↔
      forms ≠ [] ∧ packedBits forms ≤ 8 * (addressed bytes).length ∧
        8 * (addressed bytes).length < packedBits forms + 10 ∧
        byteValue (addressed bytes) % 2 ^ packedBits forms = packedValue forms := by
  have cut : asU32 bytes.length ≤ bytes.length := asU32_le _
  have start : asU32 (bytes.length * 8) = 8 * asU32 bytes.length := by
    unfold asU32 at narrow ⊢
    omega
  have lowest : byteValue (addressed bytes) % 2 ^ packedBits forms =
      field (byteValue bytes) (8 * bytes.length - 8 * asU32 bytes.length) (packedBits forms) := by
    rw [addressed, byteValue_drop, field, show 256 = 2 ^ 8 by decide, ← Nat.pow_mul]
    congr 3
    omega
  rw [deserializeLoop_ok_iff bytes narrow _ [] forms (by omega), addressed_length, start, lowest]
  constructor
  · rintro ⟨decoded, nonempty, rfl, rest⟩
    exact ⟨nonempty, rest⟩
  · rintro ⟨nonempty, rest⟩
    exact ⟨forms, nonempty, rfl, rest⟩

/-- When the byte length overflows 32-bit bit positions, the first iteration
panics. -/
theorem deserializeLoop_wide (bytes : List UInt8) (curPos : Nat)
    (result : List EncodingSchemeForm) (wide : ¬ asU32 bytes.length * 8 < 2 ^ 32) :
    deserializeLoop bytes curPos result = .panicked := by
  have read : readForm bytes curPos = .panicked := by
    have bits (position amount : Nat) :
        (readBits bytes position amount : Outcome EncodingSerializationError Nat) = .panicked := by
      rw [readBits_eq, if_neg (by omega)]
    rw [readForm, Outcome.checkedSub]
    split <;> simp [bits]
  rw [deserializeLoop]
  split
  · next form next found => exact absurd (read.symm.trans found) (by simp)
  · next fault found => exact absurd (read.symm.trans found) (by simp)
  · rfl

/-- The reader is free of panics exactly on strings it refuses for their length
and on strings whose addressed bytes are well framed, as long as bit positions
fit their types (for every shorter string than 2^29 bytes they do).

A panic stands for every way of leaving the function other than by a `Result`:
a position below zero, a failed assertion of `read_bits`, an index out of bounds
and the `expect` on a refused form.

Proof: the arithmetic of positions is undone first; where it does not overflow the loop returns
exactly the forms that frame the bytes from the end. -/
theorem deserialize_panic_free_iff (bytes : List UInt8) :
    deserializeScheme bytes ≠ .panicked ↔
      bytes.length < 2 ∨
        (bytes.length * 8 < 2 ^ 64 ∧ asU32 bytes.length * 8 < 2 ^ 32 ∧
          WellFramed (addressed bytes)) := by
  rw [deserializeScheme]
  by_cases short : bytes.length < 2
  · simp [short]
  · by_cases wide : bytes.length * 8 < 2 ^ 64
    · rw [if_neg short, Outcome.checkedMul_of_lt wide, Outcome.ok_bind]
      by_cases narrow : asU32 bytes.length * 8 < 2 ^ 32
      · simp only [short, wide, narrow, false_or, true_and]
        cases returned : deserializeLoop bytes (asU32 (bytes.length * 8)) [] with
        | ok forms =>
          have framed := (deserializeLoop_start bytes narrow forms).mp returned
          rw [Outcome.ok_bind]
          constructor
          · intro _
            exact ⟨forms, framed⟩
          · intro _
            split <;> simp
        | err fault => exact absurd returned (deserializeLoop_no_err bytes _ _ fault)
        | panicked =>
          simp only [Outcome.panicked_bind, ne_eq, not_true_eq_false, false_iff]
          rintro ⟨forms, framed⟩
          have decoded := (deserializeLoop_start bytes narrow forms).mpr framed
          rw [returned] at decoded
          cases decoded
      · simp only [deserializeLoop_wide bytes _ _ narrow, Outcome.panicked_bind, short, narrow,
          ne_eq, not_true_eq_false, false_and, and_false, or_false]
    · rw [if_neg short, Outcome.checkedMul, if_neg wide, Outcome.panicked_bind]
      simp only [short, wide, ne_eq, not_true_eq_false, false_and, or_false]

/-- Two zero bytes are one form with bit count zero: the `expect` panics. Two
bytes of ones announce a prefix of 31 bits of which six are left: the position
drops below zero. -/
theorem malformed_scheme_panics :
    deserializeScheme [0x00, 0x00] = .panicked ∧ deserializeScheme [0xFF, 0xFF] = .panicked := by
  decide +kernel

/-- A form takes at most 41 bits. -/
theorem packedBits_le (forms : List EncodingSchemeForm) : packedBits forms ≤ 41 * forms.length := by
  induction forms with
  | nil => simp
  | cons form rest inductionHypothesis =>
    have lengthBound : form.prefixLen ≤ 31 := form.prefixLen_le
    rw [packedBits_cons, List.length_cons]
    rw [formBits]
    omega

/-- Every scheme is serialized, with the writer's final assertion intact for
each form, and its bytes read back as the same scheme, form for form.

Proof: the writer leaves the forms as bits of one number, and the reader takes the same number
apart, with fewer than ten bits left over. -/
theorem scheme_round_trip (scheme : EncodingScheme) :
    ∃ bytes, serializeScheme scheme = .ok bytes ∧ deserializeScheme bytes = .ok scheme := by
  obtain ⟨bytes, written, value, covers, tight⟩ := serializeScheme_layout scheme
  obtain ⟨positive, few⟩ := scheme.length_bounds
  have nonempty : scheme.forms ≠ [] := List.length_pos_iff.mp positive
  have bitsBound : packedBits scheme.forms ≤ 41 * 31 :=
    (packedBits_le scheme.forms).trans (Nat.mul_le_mul_left 41 few)
  have enough : 10 ≤ packedBits scheme.forms := by
    obtain ⟨form, rest, same⟩ := List.exists_cons_of_ne_nil nonempty
    rw [same, packedBits_cons]
    rw [formBits]
    omega
  have whole : asU32 bytes.length = bytes.length := Nat.mod_eq_of_lt (by omega)
  have narrow : asU32 bytes.length * 8 < 2 ^ 32 := by omega
  have seen : addressed bytes = bytes := by simp [addressed, whole]
  have small : byteValue bytes < 2 ^ packedBits scheme.forms :=
    value ▸ packedValue_lt scheme.forms
  have decoded : deserializeLoop bytes (asU32 (bytes.length * 8)) [] = .ok scheme.forms := by
    rw [deserializeLoop_start bytes narrow, seen, Nat.mod_eq_of_lt small]
    exact ⟨nonempty, covers, by omega, value⟩
  have accepted : EncodingScheme.tryNew scheme.forms = .ok scheme :=
    (EncodingScheme.tryNew_ok_iff scheme.forms scheme).mpr rfl
  refine ⟨bytes, written, ?_⟩
  rw [deserializeScheme, if_neg (by omega), Outcome.checkedMul_of_lt (by omega), Outcome.ok_bind,
    decoded, Outcome.ok_bind, accepted]

end RouteServer.SchemeCodec
