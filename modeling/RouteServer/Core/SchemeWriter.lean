import Mathlib.Tactic.Ring
import RouteServer.Core.SchemeCodec

/-!
# What the scheme writer leaves behind

A packed form is one number; a packed list of forms is their concatenation at
increasing bit offsets. The writer's loop is related to this layout through the
little-endian value of its buffer: writing a bit adds that bit at the current
position, so a whole scheme leaves exactly the number of its layout, followed by
at most seven zero bits.
-/

namespace RouteServer.SchemeCodec

open Rust Encoding

/-- Bits taken by a form on the wire. -/
def formBits (form : EncodingSchemeForm) : Nat := 10 + form.prefixLen

/-- The number one form is packed into, lengths below the prefix. -/
def formValue (form : EncodingSchemeForm) : Nat :=
  form.prefixLen + 2 ^ 5 * (form.bitCount + 2 ^ 5 * form.prefixBits)

/-- Bits taken by a list of forms. -/
def packedBits (forms : List EncodingSchemeForm) : Nat := (forms.map formBits).sum

/-- The number a list of forms is packed into, the first form lowest. -/
def packedValue : List EncodingSchemeForm → Nat
  | [] => 0
  | form :: rest => formValue form + 2 ^ formBits form * packedValue rest

/-- No forms take no bits. -/
@[simp] theorem packedBits_nil : packedBits [] = 0 := rfl

/-- Forms take the bits of the first and those of the others. -/
@[simp] theorem packedBits_cons (form : EncodingSchemeForm) (rest : List EncodingSchemeForm) :
    packedBits (form :: rest) = formBits form + packedBits rest := by
  simp [packedBits]

/-- A packed form fits the bits it takes. -/
theorem formValue_lt (form : EncodingSchemeForm) : formValue form < 2 ^ formBits form := by
  have lengthBound : form.prefixLen ≤ 31 := form.prefixLen_le
  have countBound : form.bitCount ≤ 31 := form.bitCount_le
  have fits : form.prefixBits < 2 ^ form.prefixLen := form.prefixBits_lt
  have split : 2 ^ formBits form = 2 ^ 10 * 2 ^ form.prefixLen := by
    rw [formBits, Nat.pow_add]
  rw [formValue]
  omega

/-- A packed list of forms fits the bits it takes. -/
theorem packedValue_lt (forms : List EncodingSchemeForm) :
    packedValue forms < 2 ^ packedBits forms := by
  induction forms with
  | nil => decide
  | cons form rest inductionHypothesis =>
    have first : formValue form < 2 ^ formBits form := formValue_lt form
    calc formValue form + 2 ^ formBits form * packedValue rest
        < 2 ^ formBits form + 2 ^ formBits form * packedValue rest := Nat.add_lt_add_right first _
      _ = 2 ^ formBits form * (packedValue rest + 1) := by ring
      _ ≤ 2 ^ formBits form * 2 ^ packedBits rest := Nat.mul_le_mul_left _ inductionHypothesis
      _ = 2 ^ packedBits (form :: rest) := by rw [packedBits_cons, Nat.pow_add]

/-- The accumulator of the writer holds exactly the packed form: the shifted
operands never overlap, so each `|` is an addition. -/
theorem accumulate_eq (form : EncodingSchemeForm) : accumulate form = formValue form := by
  have lengthSmall : form.prefixLen < 2 ^ 5 := Nat.lt_succ_of_le form.prefixLen_le
  have countSmall : form.bitCount < 2 ^ 5 := Nat.lt_succ_of_le form.bitCount_le
  have upper : (if form.prefixLen > 0 then 0 ||| form.prefixBits else 0) = form.prefixBits := by
    split
    · exact Nat.zero_or _
    · next empty =>
      have fits : form.prefixBits < 2 ^ form.prefixLen := form.prefixBits_lt
      have none : form.prefixLen = 0 := by omega
      rw [none] at fits
      omega
  rw [accumulate, formValue]
  rw [upper]
  simp only [Nat.shiftLeft_eq, Nat.mul_comm _ (2 ^ 5)]
  rw [← Nat.two_pow_add_eq_or_of_lt countSmall, ← Nat.two_pow_add_eq_or_of_lt lengthSmall]
  ring

/-- The writer has stored `pos` bits with the given value, in whole bytes of
which the last may still have free bits. -/
structure Holds (packer : Packer) (value pos : Nat) : Prop where
  position : packer.pos = pos
  stored : byteValue packer.resultVec = value
  bounded : value < 2 ^ pos
  bytes : packer.curByteNum = packer.resultVec.length
  covered : pos ≤ 8 * packer.resultVec.length
  tight : 8 * packer.resultVec.length < pos + 8
  bit : pos % 8 ≠ 0 → packer.curBitNum = pos % 8

/-- A new writer holds nothing. -/
theorem Holds.empty : Holds ⟨[], 0, 0, 0⟩ 0 0 :=
  ⟨rfl, rfl, by decide, rfl, by decide, by decide, by simp⟩

/-- Once a byte is started, the next position lies inside the last byte, and
the current bit number is its offset there.

Proof: by whether the position is at the start of a byte. If it is, a new byte is pushed;
otherwise the last byte is the one being filled. -/
theorem startByte_holds (packer : Packer) (value pos : Nat) (holds : Holds packer value pos) :
    ∃ front last, (startByte packer).resultVec = front ++ [last] ∧
      byteValue (front ++ [last]) = value ∧ (startByte packer).pos = pos ∧
      (startByte packer).curByteNum = front.length + 1 ∧
      (startByte packer).curBitNum = pos % 8 ∧ pos = 8 * front.length + pos % 8 := by
  have covered := holds.covered
  have tight := holds.tight
  by_cases aligned : pos % 8 = 0
  · have start : startByte packer = { packer with
        resultVec := packer.resultVec ++ [0]
        curByteNum := packer.curByteNum + 1
        curBitNum := 0 } := by
      simp [startByte, holds.position, aligned]
    refine ⟨packer.resultVec, 0, by rw [start], ?_, ?_, ?_, ?_, ?_⟩
    · simp [byteValue_append, byteValue_cons, holds.stored]
    · simp [start, holds.position]
    · simp [start, holds.bytes]
    · simp [start, aligned]
    · omega
  · have start : startByte packer = packer := by simp [startByte, holds.position, aligned]
    have nonempty : packer.resultVec ≠ [] := by
      intro none
      rw [none] at covered
      simp only [List.length_nil] at covered
      omega
    have whole : packer.resultVec.dropLast ++ [packer.resultVec.getLast nonempty] =
        packer.resultVec := List.dropLast_append_getLast nonempty
    have frontLength : packer.resultVec.dropLast.length = packer.resultVec.length - 1 :=
      List.length_dropLast
    have positive : 0 < packer.resultVec.length := List.length_pos_iff.mpr nonempty
    refine ⟨packer.resultVec.dropLast, packer.resultVec.getLast nonempty, ?_, ?_, ?_, ?_, ?_, ?_⟩
    · rw [start, whole]
    · rw [whole, holds.stored]
    · rw [start, holds.position]
    · rw [start, holds.bytes, frontLength]
      omega
    · rw [start, holds.bit aligned]
    · omega

/-- Setting a free bit of the last byte adds its weight. -/
theorem set_free_bit (front : List UInt8) (last : UInt8) (bit : Nat) (inside : bit < 8)
    (free : byteValue (front ++ [last]) < 2 ^ (8 * front.length + bit)) :
    byteValue (front ++ [last ||| UInt8.ofNat (1 <<< bit)]) =
      byteValue (front ++ [last]) + 2 ^ (8 * front.length + bit) := by
  have weight : 2 ^ (8 * front.length + bit) = 256 ^ front.length * 2 ^ bit := by
    rw [Nat.pow_add, Nat.pow_mul]
  have positive : 0 < 256 ^ front.length := by positivity
  have value (byte : UInt8) : byteValue (front ++ [byte]) =
      byteValue front + 256 ^ front.length * byte.toNat := by
    simp [byteValue_append, byteValue_cons]
  have small : last.toNat < 2 ^ bit := by
    rw [value, weight] at free
    have scaled : 256 ^ front.length * last.toNat < 256 ^ front.length * 2 ^ bit := by omega
    exact Nat.lt_of_mul_lt_mul_left scaled
  have mask : (UInt8.ofNat (1 <<< bit)).toNat = 2 ^ bit := by
    have fits : 2 ^ bit < 256 := by
      calc 2 ^ bit < 2 ^ 8 := Nat.pow_lt_pow_right (by decide) inside
        _ = 256 := by decide
    simp [Nat.shiftLeft_eq, Nat.mod_eq_of_lt fits]
  have joined : (last ||| UInt8.ofNat (1 <<< bit)).toNat = last.toNat + 2 ^ bit := by
    have disjoint : 2 ^ bit * 1 + last.toNat = 2 ^ bit * 1 ||| last.toNat :=
      Nat.two_pow_add_eq_or_of_lt small 1
    rw [Nat.mul_one] at disjoint
    rw [UInt8.toNat_or, mask, Nat.or_comm, ← disjoint, Nat.add_comm]
  rw [value, value, joined, weight, Nat.mul_add, Nat.add_assoc]

/-- Storing one bit never panics and adds that bit at the current position.

Proof: by the bit that is stored. A set bit goes to a place of the last byte that was free, and
a zero leaves the bytes as they are. -/
theorem packBit_holds (acc : Nat) (packer : Packer) (value pos : Nat)
    (holds : Holds packer value pos) :
    ∃ next, packBit acc packer = .ok next ∧ Holds next (value + 2 ^ pos * (acc % 2)) (pos + 1) := by
  obtain ⟨front, last, contents, same, position, byteNum, bitNum, offset⟩ :=
    startByte_holds packer value pos holds
  have inside : pos % 8 < 8 := Nat.mod_lt _ (by decide)
  have grown : value + 2 ^ pos * (acc % 2) < 2 ^ (pos + 1) := by
    have bounded := holds.bounded
    have parity : acc % 2 < 2 := Nat.mod_lt _ (by decide)
    have scaled : 2 ^ pos * (acc % 2) ≤ 2 ^ pos * 1 := Nat.mul_le_mul_left _ (by omega)
    rw [Nat.pow_succ]
    omega
  have bit : (pos + 1) % 8 ≠ 0 → pos % 8 + 1 = (pos + 1) % 8 := by omega
  by_cases odd : acc % 2 = 1
  · have found : (startByte packer).resultVec[(startByte packer).curByteNum - 1]? = some last := by
      simp [contents, byteNum]
    have written : (startByte packer).resultVec.set ((startByte packer).curByteNum - 1)
        (last ||| UInt8.ofNat (1 <<< (startByte packer).curBitNum)) =
          front ++ [last ||| UInt8.ofNat (1 <<< (pos % 8))] := by
      rw [contents, byteNum, bitNum, Nat.add_sub_cancel, List.set_append_right _ _ (Nat.le_refl _)]
      simp
    refine ⟨_, by simp only [packBit, odd, if_true, found]; rfl, ?_⟩
    constructor
    · simp [position]
    · have free : byteValue (front ++ [last]) < 2 ^ (8 * front.length + pos % 8) := by
        rw [same, ← offset]
        exact holds.bounded
      simp only [written]
      rw [set_free_bit front last (pos % 8) inside free, same, ← offset, odd, Nat.mul_one]
    · exact grown
    · simp [contents, byteNum]
    · simp only [written, List.length_append, List.length_singleton]
      omega
    · simp only [written, List.length_append, List.length_singleton]
      omega
    · intro unaligned
      simp only [bitNum]
      exact bit unaligned
  · have even : acc % 2 = 0 := by omega
    refine ⟨_, by simp only [packBit, odd, if_false]; rfl, ?_⟩
    constructor
    · simp [position]
    · simp [contents, same, even]
    · exact grown
    · simp [contents, byteNum]
    · simp only [contents, List.length_append, List.length_singleton]
      omega
    · simp only [contents, List.length_append, List.length_singleton]
      omega
    · intro unaligned
      simp only [bitNum]
      exact bit unaligned

/-- Storing several bits adds the low bits of the accumulator at the current
position and leaves its high bits. -/
theorem packBits_holds (bitsNeeded acc : Nat) (packer : Packer) (value pos : Nat)
    (holds : Holds packer value pos) :
    ∃ next, packBits bitsNeeded acc packer = .ok (acc / 2 ^ bitsNeeded, next) ∧
      Holds next (value + 2 ^ pos * (acc % 2 ^ bitsNeeded)) (pos + bitsNeeded) := by
  induction bitsNeeded generalizing acc packer value pos with
  | zero => exact ⟨packer, by simp [packBits], by simpa [Nat.mod_one] using holds⟩
  | succ bitsNeeded inductionHypothesis =>
    obtain ⟨middle, packed, middleHolds⟩ := packBit_holds acc packer value pos holds
    obtain ⟨next, rest, nextHolds⟩ :=
      inductionHypothesis (acc >>> 1) middle (value + 2 ^ pos * (acc % 2)) (pos + 1) middleHolds
    have halved : acc >>> 1 = acc / 2 := Nat.shiftRight_one acc
    have quotient : acc / 2 / 2 ^ bitsNeeded = acc / 2 ^ (bitsNeeded + 1) := by
      rw [Nat.div_div_eq_div_mul, Nat.pow_succ']
    have remainder : value + 2 ^ pos * (acc % 2) + 2 ^ (pos + 1) * (acc / 2 % 2 ^ bitsNeeded) =
        value + 2 ^ pos * (acc % 2 ^ (bitsNeeded + 1)) := by
      rw [Nat.pow_succ' (n := bitsNeeded), Nat.mod_mul]
      ring
    refine ⟨next, ?_, ?_⟩
    · rw [packBits, packed, Outcome.ok_bind, rest, halved, quotient]
    · rw [halved, remainder, Nat.add_right_comm] at nextHolds
      exact nextHolds

/-- One form is stored in full, and the writer's final assertion holds. -/
theorem packForm_holds (form : EncodingSchemeForm) (packer : Packer) (value pos : Nat)
    (holds : Holds packer value pos) :
    ∃ next, packForm packer form = .ok next ∧
      Holds next (value + 2 ^ pos * formValue form) (pos + formBits form) := by
  have lengthOk : ¬ form.prefixLen > 31 := Nat.not_lt.mpr form.prefixLen_le
  have countOk : ¬ (form.bitCount < 1 ∨ form.bitCount > 31) := by
    have positive : 0 < form.bitCount := form.bitCount_pos
    have bounded : form.bitCount ≤ 31 := form.bitCount_le
    omega
  obtain ⟨next, packed, nextHolds⟩ :=
    packBits_holds (formBits form) (accumulate form) packer value pos holds
  have small : accumulate form < 2 ^ formBits form := accumulate_eq form ▸ formValue_lt form
  rw [Nat.mod_eq_of_lt small, accumulate_eq] at nextHolds
  rw [Nat.div_eq_of_lt small] at packed
  refine ⟨next, ?_, nextHolds⟩
  rw [formBits] at packed
  rw [packForm, if_neg lengthOk, if_neg countOk]
  simp [packed, Outcome.assert]

/-- A list of forms is stored in full, in order, with no gap between forms. -/
theorem packForms_holds (forms : List EncodingSchemeForm) (packer : Packer) (value pos : Nat)
    (holds : Holds packer value pos) :
    ∃ next, packForms packer forms = .ok next ∧
      Holds next (value + 2 ^ pos * packedValue forms) (pos + packedBits forms) := by
  induction forms generalizing packer value pos with
  | nil => exact ⟨packer, rfl, by simpa [packedValue] using holds⟩
  | cons form rest inductionHypothesis =>
    obtain ⟨middle, stored, middleHolds⟩ := packForm_holds form packer value pos holds
    obtain ⟨next, remaining, nextHolds⟩ := inductionHypothesis middle _ _ middleHolds
    refine ⟨next, by rw [packForms, stored, Outcome.ok_bind, remaining], ?_⟩
    have joined : value + 2 ^ pos * formValue form + 2 ^ (pos + formBits form) * packedValue rest =
        value + 2 ^ pos * packedValue (form :: rest) := by
      rw [packedValue, Nat.pow_add]
      ring
    rw [joined, Nat.add_assoc, ← packedBits_cons] at nextHolds
    exact nextHolds

/-- Serialization always succeeds. Its bytes denote the packed forms, and fewer
than eight padding bits follow. -/
theorem serializeScheme_layout (scheme : EncodingScheme) :
    ∃ bytes, serializeScheme scheme = .ok bytes ∧
      byteValue bytes = packedValue scheme.forms ∧
      packedBits scheme.forms ≤ 8 * bytes.length ∧
      8 * bytes.length < packedBits scheme.forms + 8 := by
  obtain ⟨packer, packed, holds⟩ := packForms_holds scheme.forms ⟨[], 0, 0, 0⟩ 0 0 Holds.empty
  simp only [Nat.pow_zero, Nat.one_mul, Nat.zero_add] at holds
  exact ⟨packer.resultVec, by simp [serializeScheme, packed], holds.stored, holds.covered,
    holds.tight⟩

end RouteServer.SchemeCodec
