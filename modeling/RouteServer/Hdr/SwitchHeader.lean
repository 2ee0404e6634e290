import RouteServer.Bytes.Framing
import RouteServer.Core.RoutingLabel

/-!
# The switch header

Twelve bytes in front of every switched packet: the label, seven bits of congestion
with a flag, two bits of version with six bits of label shift, and the penalty. A
header without a version is written with the current one, so it is read back with
that version and otherwise as it was.
-/

namespace RouteServer.Hdr

open Rust Labels Bytes

/-- `SwitchHeader`. -/
structure SwitchHeader where
  label : RoutingLabel 64
  congestion : UInt8
  suppressErrors : Bool
  version : UInt8
  labelShift : UInt8
  penalty : UInt16
deriving DecidableEq

namespace SwitchHeader

def size : Nat := 12

def currentVersion : UInt8 := 1

/-- The reads of `SwitchHeader::parse`. -/
def fields (r : List UInt8) : Option ((Nat × UInt8 × UInt8 × UInt16) × List UInt8) := do
  let (labelNum, r) ← readBe 8 r
  let (congestionAndSuppressErrors, r) ← readU8 r
  let (versionAndLabelShift, r) ← readU8 r
  let (penalty, r) ← readBe 2 r
  return ((labelNum, congestionAndSuppressErrors, versionAndLabelShift, UInt16.ofNat penalty), r)

/-- `SwitchHeader::parse`. -/
def parse (data : List UInt8) : Outcome ParseError SwitchHeader := do
  let (labelNum, congestionAndSuppressErrors, versionAndLabelShift, penalty) ←
    read (.exact size) fields data
  match RoutingLabel.tryNew (labelNum % 2 ^ 64) (Nat.mod_lt _ (Nat.two_pow_pos 64)) with
  | none => .err (.invalidData "zero label bytes")
  | some label =>
    let version := versionAndLabelShift >>> 6
    if version ≠ currentVersion ∧ version ≠ 0 then
      .err (.invalidData "unrecognized switch header version")
    else .ok {
      label
      congestion := congestionAndSuppressErrors >>> 1
      suppressErrors := congestionAndSuppressErrors &&& 1 == 1
      version
      labelShift := versionAndLabelShift &&& 0x3f
      penalty }

/-- The version that is written. -/
def writtenVersion (header : SwitchHeader) : UInt8 :=
  if header.version = 0 then currentVersion else header.version

/-- The bytes of a header. -/
def bytes (header : SwitchHeader) : List UInt8 :=
  let congestionAndSuppressErrors := header.congestion <<< 1 ||| header.suppressErrors.toUInt8
  let versionAndLabelShift := header.writtenVersion <<< 6 ||| header.labelShift
  toBe 8 header.label.bits ++ congestionAndSuppressErrors :: versionAndLabelShift ::
    toBe 2 header.penalty.toNat

/-- `SwitchHeader::serialize`. -/
def serialize (header : SwitchHeader) : Outcome SerializeError (List UInt8) :=
  if header.version ≠ currentVersion ∧ header.version ≠ 0 then .err .unrecognizedData
  else if header.labelShift > 63 then
    .err (.invalidInvariant "label_shift value can't take more than 6 bits")
  else if header.congestion > 127 then
    .err (.invalidInvariant "congestion value can't take more than 7 bits")
  else .ok header.bytes

/-- A header as it is read back: the current version stands for a missing one. -/
def readBack (header : SwitchHeader) : SwitchHeader :=
  { header with version := header.writtenVersion }

/-- Seven bits above a flag are taken apart again. -/
theorem congestion_packed {congestion : UInt8} (small : congestion ≤ 127) (flag : Bool) :
    (congestion <<< 1 ||| flag.toUInt8) >>> 1 = congestion ∧
      ((congestion <<< 1 ||| flag.toUInt8) &&& 1 == 1) = flag := by
  have all : ∀ (congestion : Fin 128) (flag : Bool),
      (UInt8.ofNat congestion <<< 1 ||| flag.toUInt8) >>> 1 = UInt8.ofNat congestion ∧
        ((UInt8.ofNat congestion <<< 1 ||| flag.toUInt8) &&& 1 == 1) = flag := by decide
  have bound : congestion.toNat < 128 := Nat.lt_succ_of_le (UInt8.le_iff_toNat_le.mp small)
  simpa using all ⟨congestion.toNat, bound⟩ flag

/-- A version of at most one above six bits is taken apart again. -/
theorem version_packed {version labelShift : UInt8} (known : version = 0 ∨ version = 1)
    (small : labelShift ≤ 63) :
    (version <<< 6 ||| labelShift) >>> 6 = version ∧
      (version <<< 6 ||| labelShift) &&& 0x3f = labelShift := by
  have older : ∀ labelShift : Fin 64,
      ((0 : UInt8) <<< 6 ||| UInt8.ofNat labelShift) >>> 6 = 0 ∧
        ((0 : UInt8) <<< 6 ||| UInt8.ofNat labelShift) &&& 0x3f = UInt8.ofNat labelShift := by
    decide
  have newer : ∀ labelShift : Fin 64,
      ((1 : UInt8) <<< 6 ||| UInt8.ofNat labelShift) >>> 6 = 1 ∧
        ((1 : UInt8) <<< 6 ||| UInt8.ofNat labelShift) &&& 0x3f = UInt8.ofNat labelShift := by
    decide
  have bound : labelShift.toNat < 64 := Nat.lt_succ_of_le (UInt8.le_iff_toNat_le.mp small)
  obtain rfl | rfl := known
  · simpa using older ⟨labelShift.toNat, bound⟩
  · simpa using newer ⟨labelShift.toNat, bound⟩

/-- What can be written: a known version, and values that fit their bits. -/
structure Writable (header : SwitchHeader) : Prop where
  version : header.version = 0 ∨ header.version = currentVersion
  labelShift : header.labelShift ≤ 63
  congestion : header.congestion ≤ 127

/-- A header has a fixed size. -/
@[simp] theorem bytes_length (header : SwitchHeader) : header.bytes.length = size := by
  simp [bytes, size]

/-- A version is accepted if it is zero or the current one. -/
theorem known_iff (version : UInt8) :
    ¬(version ≠ currentVersion ∧ version ≠ 0) ↔ version = 0 ∨ version = currentVersion := by
  rw [Decidable.not_and_iff_not_or_not, Decidable.not_not, Decidable.not_not, or_comm]

/-- A header is written exactly when it can be, as its bytes. -/
theorem serialize_ok_iff (header : SwitchHeader) (written : List UInt8) :
    header.serialize = .ok written ↔ header.Writable ∧ header.bytes = written := by
  rw [serialize]
  constructor
  · intro ok
    split at ok
    · cases ok
    · next known =>
      split at ok
      · cases ok
      · next shift =>
        split at ok
        · cases ok
        · next congestion =>
          exact ⟨⟨(known_iff _).mp known, UInt8.not_lt.mp shift, UInt8.not_lt.mp congestion⟩,
            Outcome.ok.inj ok⟩
  · rintro ⟨⟨version, shift, congestion⟩, rfl⟩
    rw [if_neg ((known_iff _).mpr version), if_neg (UInt8.not_lt.mpr shift),
      if_neg (UInt8.not_lt.mpr congestion)]

/-- The bytes of a header are read back. -/
theorem parse_bytes {header : SwitchHeader} (writable : header.Writable) :
    parse header.bytes = .ok header.readBack := by
  obtain ⟨congestion, flag⟩ := congestion_packed writable.congestion header.suppressErrors
  have known : header.writtenVersion = 0 ∨ header.writtenVersion = currentVersion := by
    rw [writtenVersion]
    split
    · exact Or.inr rfl
    · exact writable.version
  obtain ⟨version, shift⟩ := version_packed known writable.labelShift
  have reads : fields header.bytes = some ((header.label.bits,
      header.congestion <<< 1 ||| header.suppressErrors.toUInt8,
      header.writtenVersion <<< 6 ||| header.labelShift, header.penalty), []) := by
    have penalty : readBe 2 (toBe 2 header.penalty.toNat) = some (header.penalty.toNat, []) := by
      simpa using readBe_append header.penalty.toNat_lt []
    have label (rest : List UInt8) :
        readBe 8 (toBe 8 header.label.bits ++ rest) = some (header.label.bits, rest) :=
      readBe_append header.label.bounded rest
    simp [fields, bytes, label, penalty]
  have label :
      RoutingLabel.tryNew (header.label.bits % 2 ^ 64) (Nat.mod_lt _ (Nat.two_pow_pos 64)) =
        some header.label := by
    simp only [Nat.mod_eq_of_lt header.label.bounded, RoutingLabel.tryNew]
    rw [dif_pos header.label.nonzero]
  rw [parse, read_exact (bytes_length header) reads]
  simp only [Outcome.ok_bind, label, version, if_neg ((known_iff _).mpr known), congestion, flag,
    shift]
  rfl

/-- What has been read can be written. -/
theorem writable_of_parse {data : List UInt8} {header : SwitchHeader}
    (parsed : parse data = .ok header) : header.Writable := by
  simp only [parse, Outcome.bind_ok_iff, Prod.exists] at parsed
  obtain ⟨labelNum, congestion, version, penalty, -, checks⟩ := parsed
  split at checks
  · cases checks
  · split at checks
    · cases checks
    · next known =>
      cases checks
      refine ⟨(known_iff _).mp known, ?_, ?_⟩
      · exact UInt8.le_iff_toNat_le.mpr (by
          rw [UInt8.toNat_and]
          exact Nat.and_le_right)
      · exact UInt8.le_iff_toNat_le.mpr (by
          rw [UInt8.toNat_shiftRight]
          have bound : congestion.toNat < 256 := congestion.toNat_lt
          simp [Nat.shiftRight_eq_div_pow]
          omega)

end SwitchHeader

end RouteServer.Hdr
