import Mathlib.Algebra.Group.Nat.Defs

/-!
# The checksum of control messages

The 16-bit words of the data are summed as little-endian numbers, the carries are
folded into the sum, and its two bytes are swapped in the end. Sums of 32 bits wrap,
as in a release build.
-/

namespace RouteServer.Ctrl

/-- The loop of `sum_be_words`; an odd last byte is left over. -/
def sumWords (sum : UInt32) : List UInt8 → UInt32
  | low :: high :: rest => sumWords (sum + (low.toUInt32 + high.toUInt32 * 256)) rest
  | _ => sum

/-- `sum_be_words`. -/
def sumBeWords (data : List UInt8) : UInt32 :=
  let sum := sumWords 0 data
  match data.getLast? with
  | some last => if data.length % 2 ≠ 0 then sum + last.toUInt32 else sum
  | none => 0

/-- The loop of `finalize_checksum`. -/
def foldCarries (sum : Nat) : Nat :=
  if sum > 0xffff then foldCarries (sum / 2 ^ 16 + sum % 2 ^ 16) else sum

/-- `finalize_checksum`. -/
def finalizeChecksum (sum : UInt32) : UInt16 :=
  let sum := UInt16.ofNat (foldCarries sum.toNat)
  ~~~(sum <<< 8 ||| sum >>> 8)

/-- `cksum_raw`. -/
def cksumRaw (buf : List UInt8) : UInt16 :=
  finalizeChecksum (sumBeWords buf)

/-- A word and an odd byte, and a single byte. -/
example : cksumRaw [0, 1, 2] = 0xfdfe ∧ cksumRaw [0xff] = 0xff := by
  simp [cksumRaw, sumBeWords, sumWords, finalizeChecksum, foldCarries]
  decide

end RouteServer.Ctrl
