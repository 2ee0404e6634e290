import Mathlib.Data.List.Basic
import RouteServer.Ann.Parser
import RouteServer.Hdr.RouteHeader

/-!
# The bytes behind a header

A header that was parsed is written as the bytes it was parsed from, except where the
bytes say nothing: the version of the switch header is written out, flags without a
meaning and the padding become zero.

The other way round, zero bytes stand for a missing key and a missing address. A header
that holds a key or an address of zeros is written and not read back.
-/

namespace RouteServer.Hdr

open Rust Labels Bytes Keys

/-- A list is changed right after a part of the given length. -/
theorem modify_append {α : Type} (f : α → α) {front : List α} {place : Nat}
    (sized : front.length = place) (member : α) (back : List α) :
    (front ++ member :: back).modify place f = front ++ f member :: back := by
  induction front generalizing place with
  | nil =>
    subst sized
    rfl
  | cons first front inductionHypothesis =>
    subst sized
    rw [List.cons_append, List.length_cons, List.modify_succ_cons, inductionHypothesis rfl,
      List.cons_append]

namespace SwitchHeader

/-- The byte of version and label shift with the current version for a missing one. -/
def explicitVersion (versionAndLabelShift : UInt8) : UInt8 :=
  if versionAndLabelShift >>> 6 = 0 then currentVersion <<< 6 ||| versionAndLabelShift
  else versionAndLabelShift

/-- A byte is put together again from its upper seven bits and its last. -/
theorem congestion_unpacked (byte : UInt8) :
    byte >>> 1 <<< 1 ||| (byte &&& 1 == 1).toUInt8 = byte := by
  have all : ∀ byte : Fin 256, UInt8.ofNat byte >>> 1 <<< 1 |||
      (UInt8.ofNat byte &&& 1 == 1).toUInt8 = UInt8.ofNat byte := by decide +kernel
  simpa using all ⟨byte.toNat, byte.toNat_lt⟩

/-- A byte is put together again from its upper two bits and the other six, with the
current version for a missing one. -/
theorem version_unpacked (byte : UInt8) :
    (if byte >>> 6 = 0 then currentVersion else byte >>> 6) <<< 6 ||| byte &&& 0x3f =
      explicitVersion byte := by
  have all : ∀ byte : Fin 256,
      (if UInt8.ofNat byte >>> 6 = 0 then currentVersion else UInt8.ofNat byte >>> 6) <<< 6 |||
          UInt8.ofNat byte &&& 0x3f = explicitVersion (UInt8.ofNat byte) := by
    decide +kernel
  simpa using all ⟨byte.toNat, byte.toNat_lt⟩

/-- What a header is parsed from, and what it is written as.

Proof: the reads of the parser give the bytes of each field, and writing a field that was read
gives back these bytes. -/
theorem layout_of_parse {data : List UInt8} {header : SwitchHeader}
    (parsed : parse data = .ok header) :
    ∃ (front : List UInt8) (version : UInt8) (penalty : List UInt8),
      front.length = 9 ∧ penalty.length = 2 ∧ data = front ++ version :: penalty ∧
        header.bytes = front ++ explicitVersion version :: penalty := by
  simp only [parse, Outcome.bind_ok_iff, Prod.exists] at parsed
  obtain ⟨labelNum, congestion, version, penalty, reads, checks⟩ := parsed
  obtain ⟨-, done⟩ := read_exact_ok reads
  simp only [fields, Option.bind_eq_bind, Option.bind_eq_some_iff, Prod.exists, Option.pure_def,
    Option.some.injEq, Prod.mk.injEq] at done
  obtain ⟨labelRead, afterLabel, label, congestionRead, afterCongestion, first, versionRead,
    afterVersion, second, penaltyRead, afterPenalty, third, ⟨rfl, rfl, rfl, rfl⟩, rfl⟩ := done
  obtain ⟨rfl, labelFits⟩ := readBe_ok label
  cases readU8_ok first
  cases readU8_ok second
  obtain ⟨rfl, penaltyFits⟩ := readBe_ok third
  refine ⟨toBe 8 labelRead ++ [congestionRead], versionRead, toBe 2 penaltyRead, by simp,
    by simp, by simp, ?_⟩
  split at checks
  · cases checks
  · next built labelled =>
    split at checks
    · cases checks
    · cases checks
      have bits : built.bits = labelRead := by
        rw [RoutingLabel.tryNew] at labelled
        split at labelled
        · cases labelled
          exact Nat.mod_eq_of_lt labelFits
        · cases labelled
      have penaltyBack : (UInt16.ofNat penaltyRead).toNat = penaltyRead := by
        rw [UInt16.toNat_ofNat']
        exact Nat.mod_eq_of_lt penaltyFits
      simp only [bytes, writtenVersion, bits, penaltyBack, congestion_unpacked, version_unpacked,
        List.append_assoc, List.singleton_append]

end SwitchHeader

namespace RouteHeader

/-- The bits of the flags that mean something. -/
def knownFlags : UInt8 := incomingFrame ||| controlFrame

/-- The bytes of a header with an explicit version, known flags and zero padding. -/
def normalized (data : List UInt8) : List UInt8 :=
  ((((data.modify 41 SwitchHeader.explicitVersion).modify 48 (· &&& knownFlags)).set 49 0).set
    50 0).set 51 0

/-- Four places of a header are normalized: the version, the flags and what is not read behind them.
-/
theorem normalized_eq {front middle : List UInt8} (frontSized : front.length = 41)
    (middleSized : middle.length = 6) (version flags first second third : UInt8)
    (back : List UInt8) :
    normalized (front ++ version :: (middle ++ flags :: first :: second :: third :: back)) =
      front ++ SwitchHeader.explicitVersion version ::
        (middle ++ (flags &&& knownFlags) :: 0 :: 0 :: 0 :: back) := by
  have regrouped : ∀ (version flags first second third : UInt8),
      front ++ version :: (middle ++ flags :: first :: second :: third :: back) =
        (front ++ version :: middle) ++ flags :: first :: second :: third :: back := by simp
  have sized : ∀ version : UInt8, (front ++ version :: middle).length = 48 := by
    intro version
    simp [frontSized, middleSized]
  rw [normalized, modify_append _ frontSized, regrouped, modify_append _ (sized _), regrouped]
  simp [List.set_append_right, frontSized, middleSized]

/-- The flags of a header are the known ones of the byte they were parsed from. -/
theorem flags_unpacked (byte : UInt8) :
    ((if byte &&& controlFrame != 0 then controlFrame else 0) +
        if byte &&& incomingFrame != 0 then incomingFrame else 0) = byte &&& knownFlags := by
  have all : ∀ byte : Fin 256,
      ((if UInt8.ofNat byte &&& controlFrame != 0 then controlFrame else 0) +
          if UInt8.ofNat byte &&& incomingFrame != 0 then incomingFrame else 0) =
        UInt8.ofNat byte &&& knownFlags := by
    decide +kernel
  simpa using all ⟨byte.toNat, byte.toNat_lt⟩

/-- The address of a header is written as it was parsed. -/
theorem bytes_of_parseIp6 {ip6Bytes : List UInt8} {ip6 : Option Ip6}
    (parsed : parseIp6 ip6Bytes = .ok ip6) : ip6.elim zeroIp6Bytes Ip6.bytes = ip6Bytes := by
  rw [parseIp6] at parsed
  split at parsed
  · next zero =>
    cases parsed
    exact zero.symm
  · split at parsed
    · cases parsed
    · next built =>
      cases parsed
      rw [Ip6.tryFrom] at built
      split at built
      · cases built
        rfl
      · cases built

/-- A header that was parsed is written as the normalized bytes it was parsed from.

Proof: the reads of the parser give the bytes of each field. Every field is written back as it
was read, except for the version, the flags and the padding, which are normalized. -/
theorem serialize_of_parse {crypto : Crypto} {data : List UInt8} {header : RouteHeader}
    (parsed : parse crypto data = .ok header) :
    header.serialize crypto = .ok (normalized data) := by
  rw [serialize_writable (writable_of_parse parsed)]
  simp only [parse, Outcome.bind_ok_iff, Prod.exists] at parsed
  obtain ⟨_, _, _, _, _, reads, switchHeader, switchParsed, ip6, ip6Parsed, checks⟩ := parsed
  obtain ⟨-, done⟩ := read_exact_ok reads
  simp only [fields, Option.bind_eq_bind, Option.bind_eq_some_iff, Prod.exists, Option.pure_def,
    Option.some.injEq, Prod.mk.injEq] at done
  obtain ⟨pkBytes, _, key, _, _, header, versionRead, _, number, flags, _, flag, padding, _, pad,
    ip6Bytes, _, address, ⟨rfl, rfl, rfl, rfl, rfl⟩, rfl⟩ := done
  cases readArray32_ok key
  obtain ⟨rfl, -⟩ := readSlice_ok header
  obtain ⟨rfl, fits⟩ := readBe_ok number
  cases readU8_ok flag
  obtain ⟨rfl, padSized⟩ := readSlice_ok pad
  obtain ⟨rfl, -⟩ := readSlice_ok address
  obtain ⟨first, second, third, rfl⟩ := List.length_eq_three.mp padSized
  obtain ⟨front, byte, penalty, frontSized, penaltySized, rfl, written⟩ :=
    SwitchHeader.layout_of_parse switchParsed
  split at checks
  · cases checks
  · cases checks
    have publicKey : (if zeroPublicKeyBytes = pkBytes then none else some pkBytes).getD
        zeroPublicKeyBytes = pkBytes := by
      split
      · next zero => rw [Option.getD_none, zero]
      · rfl
    have version : (UInt32.ofNat versionRead).toNat = versionRead := by
      rw [UInt32.toNat_ofNat']
      exact Nat.mod_eq_of_lt fits
    have normal := @normalized_eq (pkBytes.bytes ++ front) (penalty ++ toBe 4 versionRead)
      (by simp [frontSized, pkBytes.sized]) (by simp [penaltySized]) byte flags first second third
      (ip6Bytes ++ [])
    simp only [List.append_assoc, List.cons_append, List.nil_append] at normal ⊢
    rw [normal, bytes]
    simp only [publicKey, version, written, RouteHeader.flags, flags_unpacked,
      bytes_of_parseIp6 ip6Parsed, List.append_assoc, List.cons_append, List.append_nil,
      List.replicate_succ, List.replicate_zero, List.nil_append]

/-- Writing a header writes its bytes, if it can be written at all. -/
theorem serialize_ok {crypto : Crypto} {header : RouteHeader} {written : List UInt8}
    (ok : header.serialize crypto = .ok written) :
    header.switchHeader.Writable ∧
      frameFault crypto header.isCtrl header.publicKey header.ip6 = none ∧
      header.bytes = written := by
  rw [serialize] at ok
  split at ok
  · cases ok
  · next frame =>
    obtain ⟨switchBytes, switchWritten, same⟩ := (Outcome.bind_ok_iff _ _ _).mp ok
    obtain ⟨writable, rfl⟩ := (SwitchHeader.serialize_ok_iff _ _).mp switchWritten
    cases same
    exact ⟨writable, frame, rfl⟩

/-- The key and the address of a header are told apart from missing ones. -/
def Distinct (header : RouteHeader) : Prop :=
  header.publicKey ≠ some zeroPublicKeyBytes ∧
    ∀ ip6, header.ip6 = some ip6 → ip6.bytes ≠ zeroIp6Bytes

/-- A header that is written is read back exactly when neither its key nor its address is
zero, and whatever is parsed is written as its normalized bytes.

Proof: what is written is a layout of fixed size, read back field by field. Its checks fail
exactly on a zero key or a zero address, which stand for none. -/
theorem round_trip_iff (crypto : Crypto) :
    (∀ (header : RouteHeader) (written : List UInt8), header.serialize crypto = .ok written →
        (parse crypto written = .ok header.readBack ↔ header.Distinct)) ∧
      ∀ (data : List UInt8) (header : RouteHeader), parse crypto data = .ok header →
        header.serialize crypto = .ok (normalized data) := by
  refine ⟨?_, fun data header parsed => serialize_of_parse parsed⟩
  intro header written ok
  obtain ⟨switchHeader, frame, rfl⟩ := serialize_ok ok
  constructor
  · intro parsed
    have writable : header.readBack.Writable crypto := writable_of_parse parsed
    exact ⟨writable.publicKey, writable.ip6⟩
  · rintro ⟨publicKey, ip6⟩
    exact parse_bytes ⟨switchHeader, frame, publicKey, ip6⟩

/-- A header of a data frame with the address of zeros, which is a valid one. -/
def zeroAddress : RouteHeader where
  publicKey := none
  ip6 := some ⟨zeroIp6Bytes, by decide⟩
  version := 21
  switchHeader := ⟨⟨0x12d, by decide, by decide⟩, 0, false, 1, 0, 0⟩
  isIncoming := true
  isCtrl := false

/-- A header with the address of zeros is written and refused by the parser. -/
theorem zero_address_refused :
    ∃ written, zeroAddress.serialize Ann.Sample.crypto = .ok written ∧
      parse Ann.Sample.crypto written =
        .err (.invalidInvariant "ip6 is not defined for non-control frame") :=
  ⟨zeroAddress.bytes, rfl, by decide +kernel⟩

end RouteHeader

end RouteServer.Hdr
