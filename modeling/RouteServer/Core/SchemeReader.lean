import RouteServer.Core.SchemeWriter

/-!
# What the scheme reader accepts

Reading `bitsAmount` bits at a position yields one field of the number the bytes
denote. One iteration of the reader therefore succeeds exactly when the bits just
below the current position are a packed form, and the whole loop exactly when the
bits are a non-empty list of packed forms followed by fewer than ten others.

The characterization is about the bytes alone. It mentions neither positions nor
the order in which the reader visits them.
-/

namespace RouteServer.SchemeCodec

open Rust Encoding

variable {ε : Type}

/-- The mask of the reader's current bit selects one bit of the byte. -/
theorem masked_bit (byte : UInt8) (bit : Nat) (inside : bit < 8) :
    byte &&& UInt8.ofNat (128 >>> bit) = 0 ↔ byte.toNat.testBit (7 - bit) = false := by
  have weight : 128 >>> bit = 2 ^ (7 - bit) := by
    rw [Nat.shiftRight_eq_div_pow, show 128 = 2 ^ 7 by decide, Nat.pow_div (by omega) (by decide)]
  have small : 2 ^ (7 - bit) < 2 ^ 8 := Nat.pow_lt_pow_right (by decide) (by omega)
  have mask : (UInt8.ofNat (128 >>> bit)).toNat = 2 ^ (7 - bit) := by
    rw [weight, UInt8.toNat_ofNat', Nat.mod_eq_of_lt small]
  rw [← UInt8.toNat_inj, UInt8.toNat_and, mask, Nat.and_two_pow]
  cases byte.toNat.testBit (7 - bit) <;> simp

/-- Reading inside the buffer appends one field of its number to the
accumulator, most significant bit first.

Proof: induction on the bits that are left. One turn tests the bit at the position, which is a
bit of the whole number of the buffer, and appends it to the accumulator. -/
theorem readBitsLoop_eq (data : List UInt8) (bitsLeft pos acc : Nat)
    (inside : pos + bitsLeft ≤ 8 * data.length) :
    (readBitsLoop data bitsLeft pos acc : Outcome ε Nat) =
      .ok (acc * 2 ^ bitsLeft +
        field (byteValue data) (8 * data.length - pos - bitsLeft) bitsLeft) := by
  induction bitsLeft generalizing pos acc with
  | zero => simp [readBitsLoop]
  | succ bitsLeft inductionHypothesis =>
    have byteNum : (pos - pos % 8) / 8 = pos / 8 := by omega
    have index : data.length - 1 - pos / 8 < data.length := by omega
    have current : data[data.length - 1 - pos / 8]? = some data[data.length - 1 - pos / 8] :=
      List.getElem?_eq_getElem index
    have bit : (byteValue data).testBit (8 * data.length - 1 - pos) =
        data[data.length - 1 - pos / 8].toNat.testBit (7 - pos % 8) := by
      rw [← byteValue_testBit data _ (7 - pos % 8) index (by omega)]
      congr 1
      omega
    have offset : 8 * data.length - (pos + 1) - bitsLeft =
        8 * data.length - pos - (bitsLeft + 1) := by
      omega
    have top : 8 * data.length - pos - (bitsLeft + 1) + bitsLeft = 8 * data.length - 1 - pos := by
      omega
    have value (next : Nat)
        (extended : next = 2 * acc + ((byteValue data).testBit (8 * data.length - 1 - pos)).toNat) :
        (readBitsLoop data bitsLeft (pos + 1) next : Outcome ε Nat) =
          .ok (acc * 2 ^ (bitsLeft + 1) +
            field (byteValue data) (8 * data.length - pos - (bitsLeft + 1)) (bitsLeft + 1)) := by
      rw [inductionHypothesis (pos + 1) next (by omega), offset, field_add _ _ bitsLeft 1, top,
        field_one, extended]
      congr 1
      ring
    rw [readBitsLoop, byteNum, Outcome.checkedSub_of_le (by omega), Outcome.ok_bind,
      Outcome.checkedSub_of_le (by omega), Outcome.ok_bind]
    simp only [current, masked_bit _ (pos % 8) (Nat.mod_lt _ (by decide))]
    split
    · next clear =>
      apply value
      rw [bit, clear, Nat.shiftLeft_eq]
      simp only [Bool.toNat_false]
      omega
    · next set =>
      apply value
      rw [bit, Bool.of_not_eq_false set, Nat.shiftLeft_eq, Nat.pow_one, Nat.mul_comm acc 2]
      exact (Nat.two_pow_add_eq_or_of_lt (i := 1) (by decide) acc).symm

/-- `read_bits` returns a field of the bytes' number when its assertions hold,
and panics otherwise. It never returns an error. -/
theorem readBits_eq (data : List UInt8) (position bitsAmount : Nat) :
    (readBits data position bitsAmount : Outcome ε Nat) =
      if bitsAmount ≤ 32 ∧ asU32 data.length * 8 < 2 ^ 32 ∧
          position + bitsAmount ≤ asU32 data.length * 8 then
        .ok (field (byteValue data) (8 * data.length - position - bitsAmount) bitsAmount)
      else .panicked := by
  have cut : asU32 data.length ≤ data.length := asU32_le _
  by_cases fits : bitsAmount ≤ 32 ∧ asU32 data.length * 8 < 2 ^ 32 ∧
      position + bitsAmount ≤ asU32 data.length * 8
  · obtain ⟨amount, total, inside⟩ := fits
    rw [if_pos ⟨amount, total, inside⟩]
    simp only [readBits, amount, inside, decide_true, Outcome.assert_true, Outcome.ok_bind,
      Outcome.checkedMul_of_lt total]
    by_cases nothing : bitsAmount = 0
    · simp [nothing]
    · rw [if_neg nothing, readBitsLoop_eq data bitsAmount position 0 (by omega)]
      simp
  · rw [if_neg fits]
    by_cases amount : bitsAmount ≤ 32
    · by_cases total : asU32 data.length * 8 < 2 ^ 32
      · have outside : ¬ position + bitsAmount ≤ asU32 data.length * 8 := by omega
        simp only [readBits, amount, outside, decide_true, decide_false, Outcome.assert_true,
          Outcome.assert_false, Outcome.ok_bind, Outcome.panicked_bind,
          Outcome.checkedMul_of_lt total]
      · simp only [readBits, amount, decide_true, Outcome.assert_true, Outcome.ok_bind,
          Outcome.checkedMul, if_neg total, Outcome.panicked_bind]
    · simp only [readBits, amount, decide_false, Outcome.assert_false, Outcome.panicked_bind]

/-- A packed form is recovered from the fields at its three offsets. -/
theorem fields_of_form (number offset : Nat) (form : EncodingSchemeForm) :
    field number offset (formBits form) = formValue form ↔
      field number offset 5 = form.prefixLen ∧ field number (offset + 5) 5 = form.bitCount ∧
        field number (offset + 10) form.prefixLen = form.prefixBits := by
  have lengthBound : form.prefixLen ≤ 31 := form.prefixLen_le
  have countBound : form.bitCount ≤ 31 := form.bitCount_le
  have low : field number offset 5 < 2 ^ 5 := field_lt number offset 5
  have middle : field number (offset + 5) 5 < 2 ^ 5 := field_lt number (offset + 5) 5
  have split : field number offset (formBits form) = field number offset 5 +
      2 ^ 5 * (field number (offset + 5) 5 +
        2 ^ 5 * field number (offset + 10) form.prefixLen) := by
    rw [formBits, show 10 + form.prefixLen = 5 + (5 + form.prefixLen) by omega, field_add,
      field_add _ (offset + 5) 5 form.prefixLen]
  rw [split, formValue]
  constructor
  · intro same
    omega
  · rintro ⟨first, second, third⟩
    rw [first, second, third]

section Window

variable (schemeBytes : List UInt8) (narrow : asU32 schemeBytes.length * 8 < 2 ^ 32)

include narrow

/-- Inside the buffer one iteration returns exactly the form that is packed in
the bits below the position, together with the position below that form.

Proof: three fields are read one below the other. Each of them is a part of the number of the
buffer, and together with the checks between them these parts are the packed form. -/
theorem readForm_ok_iff (curPos next : Nat) (form : EncodingSchemeForm)
    (inside : curPos ≤ asU32 schemeBytes.length * 8) :
    readForm schemeBytes curPos = .ok (form, next) ↔
      curPos = next + formBits form ∧
        field (byteValue schemeBytes) (8 * schemeBytes.length - curPos) (formBits form) =
          formValue form := by
  have cut : asU32 schemeBytes.length ≤ schemeBytes.length := asU32_le _
  have lengthBound : form.prefixLen ≤ 31 := form.prefixLen_le
  rw [fields_of_form]
  constructor
  · intro read
    simp only [readForm, Outcome.bind_ok_iff, Outcome.checkedSub_ok_iff, Outcome.pure_def,
      Outcome.ok.injEq, Prod.mk.injEq, readBits_eq, Outcome.expect_ok_iff,
      EncodingSchemeForm.tryNew_ok_iff] at read
    obtain ⟨first, ⟨enough, rfl⟩, prefixLen, readLength, second, ⟨enoughLeft, rfl⟩, bitCount,
      readCount, third, ⟨enoughPrefix, rfl⟩, prefixBits, readPrefix, built,
      ⟨sameCount, sameLength, samePrefix⟩, rfl, rfl⟩ := read
    split at readLength
    · split at readCount
      · split at readPrefix
        · simp only [Outcome.ok.injEq] at readLength readCount readPrefix
          refine ⟨by unfold formBits; omega, ?_, ?_, ?_⟩
          · rw [sameLength, ← readLength]
            congr 1
            omega
          · rw [sameCount, ← readCount]
            congr 1
            omega
          · rw [sameLength, samePrefix, ← readPrefix]
            congr 1
            omega
        · cases readPrefix
      · cases readCount
    · cases readLength
  · rintro ⟨rfl, length, count, bits⟩
    rw [formBits] at inside length count bits ⊢
    have lengthRead : (readBits schemeBytes (next + (10 + form.prefixLen) - 5) 5 :
        Outcome EncodingSerializationError Nat) = .ok form.prefixLen := by
      rw [readBits_eq, if_pos (by omega), ← length]
      congr 2
      omega
    have countRead : (readBits schemeBytes (next + (10 + form.prefixLen) - 5 - 5) 5 :
        Outcome EncodingSerializationError Nat) = .ok form.bitCount := by
      rw [readBits_eq, if_pos (by omega), ← count]
      congr 2
      omega
    have prefixRead : (readBits schemeBytes
        (next + (10 + form.prefixLen) - 5 - 5 - form.prefixLen) form.prefixLen :
        Outcome EncodingSerializationError Nat) = .ok form.prefixBits := by
      rw [readBits_eq, if_pos (by omega), ← bits]
      congr 2
      omega
    have built :
        EncodingSchemeForm.tryNew form.bitCount form.prefixLen form.prefixBits = .ok form :=
      (EncodingSchemeForm.tryNew_ok_iff _ _ _ form).mpr ⟨rfl, rfl, rfl⟩
    have position : next + (10 + form.prefixLen) - 5 - 5 - form.prefixLen = next := by omega
    rw [readForm, Outcome.checkedSub_of_le (by omega), Outcome.ok_bind, lengthRead,
      Outcome.ok_bind, Outcome.checkedSub_of_le (by omega), Outcome.ok_bind, countRead,
      Outcome.ok_bind, Outcome.checkedSub_of_le (by omega), Outcome.ok_bind, prefixRead,
      Outcome.ok_bind, built, Outcome.expect_ok, Outcome.ok_bind, position]
    rfl

end Window

end RouteServer.SchemeCodec
