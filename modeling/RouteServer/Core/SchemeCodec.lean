import Mathlib.Data.Nat.Bitwise
import RouteServer.Core.Encoding
import RouteServer.Rust.LittleEndian

/-!
# Packing schemes into bytes and reading them back

The writer emits every form least significant bit first: five bits of prefix
length, five bits of bit count, then the prefix. The reader starts at the other
end of the same bits, walks the position backwards, and stops when fewer than
ten bits are left. Both are related to one number, the little-endian value of
the bytes, of which each form is a bit field.

Arithmetic on positions is checked: a position that would drop below zero is a
panic, and so are a failed assertion, an index out of bounds and an `expect`
on an error. Casts to 32 bits are remainders.
-/

namespace RouteServer.SchemeCodec

open Rust Encoding

/-- `EncodingSerializationError`. -/
inductive EncodingSerializationError where
  | badSerializedData
  | badEncodingForm
deriving DecidableEq

/-- The variables of `serialize_scheme`'s loop. -/
structure Packer where
  resultVec : List UInt8
  pos : Nat
  curByteNum : Nat
  curBitNum : Nat

/-- Every eighth bit starts a fresh zero byte. -/
def startByte (packer : Packer) : Packer :=
  if packer.pos % 8 = 0 then
    { packer with
      resultVec := packer.resultVec ++ [0]
      curByteNum := packer.curByteNum + 1
      curBitNum := 0 }
  else packer

/-- Store the low bit of the accumulator at the next position. -/
def packBit (acc : Nat) (packer : Packer) : Outcome EncodingSerializationError Packer :=
  let started := startByte packer
  let advanced := { started with curBitNum := started.curBitNum + 1, pos := started.pos + 1 }
  if acc % 2 = 1 then
    match started.resultVec[started.curByteNum - 1]? with
    | none => .panicked
    | some byte => .ok { advanced with
        resultVec := started.resultVec.set (started.curByteNum - 1)
          (byte ||| UInt8.ofNat (1 <<< started.curBitNum)) }
  else .ok advanced

/-- Store as many low bits of the accumulator as are needed. -/
def packBits : Nat → Nat → Packer → Outcome EncodingSerializationError (Nat × Packer)
  | 0, acc, packer => .ok (acc, packer)
  | bitsNeeded + 1, acc, packer => do
    let packer ← packBit acc packer
    packBits bitsNeeded (acc >>> 1) packer

/-- The fields of one form, prefix length in the low bits. -/
def accumulate (form : EncodingSchemeForm) : Nat :=
  let acc := if form.prefixLen > 0 then 0 ||| form.prefixBits else 0
  let acc := (acc <<< 5) ||| form.bitCount
  (acc <<< 5) ||| form.prefixLen

/-- One iteration of `serialize_scheme`, with its closing assertion. -/
def packForm (packer : Packer) (form : EncodingSchemeForm) :
    Outcome EncodingSerializationError Packer :=
  if form.prefixLen > 31 then .err .badEncodingForm
  else if form.bitCount < 1 ∨ form.bitCount > 31 then .err .badEncodingForm
  else do
    let (acc, packer) ← packBits (5 + 5 + form.prefixLen) (accumulate form) packer
    Outcome.assert (acc == 0)
    return packer

/-- All iterations, in the order of the forms. -/
def packForms : Packer → List EncodingSchemeForm → Outcome EncodingSerializationError Packer
  | packer, [] => .ok packer
  | packer, form :: rest => do
    let packer ← packForm packer form
    packForms packer rest

/-- `serialize_scheme`. -/
def serializeScheme (scheme : EncodingScheme) :
    Outcome EncodingSerializationError (List UInt8) := do
  let packer ← packForms ⟨[], 0, 0, 0⟩ scheme.forms
  return packer.resultVec

/-- The loop of `read_bits`. The shift has cleared the low bit, so `acc & !1`
leaves the accumulator as it is. -/
def readBitsLoop {ε : Type} (data : List UInt8) : Nat → Nat → Nat → Outcome ε Nat
  | 0, _, acc => .ok acc
  | bitsLeft + 1, pos, acc => do
    let curByteNum := (pos - pos % 8) / 8
    let curBitNum := pos % 8
    let byteMask : UInt8 := UInt8.ofNat (128 >>> curBitNum)
    let last ← Outcome.checkedSub data.length 1
    let index ← Outcome.checkedSub last curByteNum
    match data[index]? with
    | none => .panicked
    | some curByte =>
      let shifted := acc <<< 1
      readBitsLoop data bitsLeft (pos + 1)
        (if curByte &&& byteMask = 0 then shifted else shifted ||| 1)

/-- `read_bits`. -/
def readBits {ε : Type} (data : List UInt8) (position bitsAmount : Nat) : Outcome ε Nat := do
  Outcome.assert (decide (bitsAmount ≤ 32))
  let available ← Outcome.checkedMul 32 (asU32 data.length) 8
  Outcome.assert (decide (position + bitsAmount ≤ available))
  if bitsAmount = 0 then return 0
  else readBitsLoop data bitsAmount position 0

/-- One iteration of `deserialize_scheme`: the decoded form and the position
below it. -/
def readForm (schemeBytes : List UInt8) (curPos : Nat) :
    Outcome EncodingSerializationError (EncodingSchemeForm × Nat) := do
  let curPos ← Outcome.checkedSub curPos 5
  let prefixLen ← readBits schemeBytes curPos 5
  let curPos ← Outcome.checkedSub curPos 5
  let bitCount ← readBits schemeBytes curPos 5
  let curPos ← Outcome.checkedSub curPos prefixLen
  let prefixBits ← readBits schemeBytes curPos prefixLen
  let form ← (EncodingSchemeForm.tryNew bitCount prefixLen prefixBits).expect
  return (form, curPos)

/-- Every iteration consumes at least the ten bits of the two lengths. -/
theorem readForm_descends (schemeBytes : List UInt8) (curPos next : Nat)
    (form : EncodingSchemeForm) (read : readForm schemeBytes curPos = .ok (form, next)) :
    next + 10 ≤ curPos := by
  simp only [readForm, Outcome.bind_ok_iff, Outcome.checkedSub_ok_iff, Outcome.pure_def,
    Outcome.ok.injEq, Prod.mk.injEq] at read
  obtain ⟨first, ⟨enough, rfl⟩, prefixLen, _, second, ⟨enoughLeft, rfl⟩, bitCount, _, third,
    ⟨enoughPrefix, rfl⟩, prefixBits, _, built, _, _, rfl⟩ := read
  omega

/-- The loop of `deserialize_scheme`. -/
def deserializeLoop (schemeBytes : List UInt8) (curPos : Nat) (result : List EncodingSchemeForm) :
    Outcome EncodingSerializationError (List EncodingSchemeForm) :=
  match _read : readForm schemeBytes curPos with
  | .ok (form, next) =>
    if next < 5 + 5 then .ok (result ++ [form])
    else deserializeLoop schemeBytes next (result ++ [form])
  | .err fault => .err fault
  | .panicked => .panicked
termination_by curPos
decreasing_by
  have descended : next + 10 ≤ curPos := readForm_descends schemeBytes curPos next form _read
  omega

/-- `deserialize_scheme`. -/
def deserializeScheme (schemeBytes : List UInt8) :
    Outcome EncodingSerializationError EncodingScheme :=
  if schemeBytes.length < 2 then .err .badSerializedData
  else do
    let bits ← Outcome.checkedMul 64 schemeBytes.length 8
    let forms ← deserializeLoop schemeBytes (asU32 bits) []
    match EncodingScheme.tryNew forms with
    | .ok scheme => .ok scheme
    | .error _ => .err .badSerializedData

end RouteServer.SchemeCodec
