import RouteServer.Bytes.Framing

/-!
# The data header

Four bytes between the route header and the content of a frame that is no control
frame: four bits of version, a byte of padding, and the type of the content. The
types of control frames and of unrecognized content have no 16-bit code, so they
are not written.
-/

namespace RouteServer.Hdr

open Rust Bytes

/-- `ContentType`. -/
inductive ContentType where
  | ip6Hop | ip6Icmp | ip6Igmp | ip6Ipv4 | ip6Tcp | ip6Egp | ip6Pup | ip6Udp | ip6Idp | ip6Tp
  | ip6Dccp | ip6Ipv6 | ip6Rsvp | ip6Gre | ip6Esp | ip6Ah | ip6Icmpv6 | ip6Mtp | ip6Beetph
  | ip6Encap | ip6Pim | ip6Comp | ip6Sctp | ip6Udplite
  | cjdht | iptun
  | ctrl
  | other
deriving DecidableEq

namespace ContentType

/-- The discriminants of the types. -/
def toU32 : ContentType → UInt32
  | ip6Hop => 0 | ip6Icmp => 1 | ip6Igmp => 2 | ip6Ipv4 => 4 | ip6Tcp => 6 | ip6Egp => 8
  | ip6Pup => 12 | ip6Udp => 17 | ip6Idp => 22 | ip6Tp => 29 | ip6Dccp => 33 | ip6Ipv6 => 41
  | ip6Rsvp => 46 | ip6Gre => 47 | ip6Esp => 50 | ip6Ah => 51 | ip6Icmpv6 => 58 | ip6Mtp => 92
  | ip6Beetph => 94 | ip6Encap => 98 | ip6Pim => 103 | ip6Comp => 108 | ip6Sctp => 132
  | ip6Udplite => 136
  | cjdht => 256 | iptun => 257
  | ctrl => 0xffff + 1
  | other => 0xffff + 2

/-- All types, in the order of their discriminants. -/
def all : List ContentType :=
  [ip6Hop, ip6Icmp, ip6Igmp, ip6Ipv4, ip6Tcp, ip6Egp, ip6Pup, ip6Udp, ip6Idp, ip6Tp, ip6Dccp,
    ip6Ipv6, ip6Rsvp, ip6Gre, ip6Esp, ip6Ah, ip6Icmpv6, ip6Mtp, ip6Beetph, ip6Encap, ip6Pim,
    ip6Comp, ip6Sctp, ip6Udplite, cjdht, iptun, ctrl, other]

/-- `ContentType::from_primitive`: the type of a discriminant, or the default. -/
def fromPrimitive (code : UInt32) : ContentType :=
  (all.find? fun contentType => contentType.toU32 = code).getD other

/-- `ContentType::from_u16`. -/
def fromU16 (code : UInt16) : ContentType := fromPrimitive code.toUInt32

/-- `ContentType::try_to_u16`. -/
def tryToU16 (contentType : ContentType) : Option UInt16 :=
  if contentType.toU32.toNat < 2 ^ 16 then some contentType.toU32.toUInt16 else none

/-- A type has a 16-bit code, from which it is read, unless it is one of the last two. -/
theorem tryToU16_eq (contentType : ContentType) :
    (contentType = ctrl ∨ contentType = other) ∧ contentType.tryToU16 = none ∨
      ∃ code, contentType.tryToU16 = some code ∧ fromU16 code = contentType := by
  cases contentType <;>
    first
    | exact Or.inr ⟨_, rfl, rfl⟩
    | exact Or.inl ⟨by decide, rfl⟩

/-- No 16-bit code is read as the type of control frames. -/
theorem fromU16_ne_ctrl (code : UInt16) : fromU16 code ≠ ctrl := by
  intro same
  have bound : code.toUInt32.toNat < 2 ^ 16 := by
    rw [UInt16.toNat_toUInt32]
    exact code.toNat_lt
  rw [fromU16, fromPrimitive] at same
  cases found : all.find? fun contentType => contentType.toU32 = code.toUInt32 with
  | none =>
    rw [found] at same
    cases same
  | some contentType =>
    rw [found, Option.getD_some] at same
    have matched : contentType.toU32 = code.toUInt32 := by simpa using List.find?_some found
    rw [← matched, same] at bound
    exact absurd bound (by decide)

end ContentType

/-- `DataHeader`. -/
structure DataHeader where
  version : UInt8
  contentType : ContentType
deriving DecidableEq

namespace DataHeader

def size : Nat := 4

def currentVersion : UInt8 := 1

/-- The reads of `DataHeader::parse`. -/
def fields (r : List UInt8) : Option ((UInt8 × UInt16) × List UInt8) := do
  let (versionWithFlags, r) ← readU8 r
  let (_, r) ← readSlice 1 r
  let (contentTypeCode, r) ← readBe 2 r
  return ((versionWithFlags, UInt16.ofNat contentTypeCode), r)

/-- `DataHeader::parse`. -/
def parse (data : List UInt8) : Outcome ParseError DataHeader := do
  let (versionWithFlags, contentTypeCode) ← read (.exact size) fields data
  return { version := versionWithFlags >>> 4, contentType := .fromU16 contentTypeCode }

/-- `DataHeader::serialize`. -/
def serialize (header : DataHeader) : Outcome SerializeError (List UInt8) :=
  if header.version > 15 then
    .err (.invalidInvariant "version value can't take more than 4 bits")
  else
    let versionWithFlags :=
      if header.version = 0 then currentVersion <<< 4 else header.version <<< 4
    if header.contentType = .other then
      .err (.invalidData "content type is not recognized or not preserved")
    else match header.contentType.tryToU16 with
      | none => .err (.invalidData
          "content type can't be serialized into bytes slice with respected length")
      | some contentTypeCode => .ok (versionWithFlags :: 0 :: toBe 2 contentTypeCode.toNat)

/-- `DataHeader::default` with the content type given. -/
def ofType (contentType : ContentType) : DataHeader := { version := currentVersion, contentType }

/-- The default header of a type is written and read back, unless the type belongs to
control frames or is not recognized. -/
theorem serialize_ofType (contentType : ContentType) (ctrl : contentType ≠ .ctrl)
    (other : contentType ≠ .other) :
    ∃ bytes, (ofType contentType).serialize = .ok bytes ∧ bytes.length = size ∧
      parse bytes = .ok (ofType contentType) := by
  rcases ContentType.tryToU16_eq contentType with ⟨unwritten, -⟩ | ⟨code, written, readCode⟩
  · exact absurd unwritten (not_or.mpr ⟨ctrl, other⟩)
  · refine ⟨currentVersion <<< 4 :: 0 :: toBe 2 code.toNat, ?_, by simp [size], ?_⟩
    · have small : ¬currentVersion > 15 := by decide
      rw [serialize, ofType, if_neg small]
      simp only [if_neg other, written]
      rfl
    · have number : readBe 2 (toBe 2 code.toNat) = some (code.toNat, []) := by
        simpa using readBe_append code.toNat_lt []
      have padding : readSlice 1 (0 :: toBe 2 code.toNat) = some ([0], toBe 2 code.toNat) :=
        readSlice_append (List.length_singleton) _
      have reads : fields (currentVersion <<< 4 :: 0 :: toBe 2 code.toNat) =
          some ((currentVersion <<< 4, code), []) := by
        simp [fields, padding, number]
      rw [parse, read_exact (by simp [size]) reads]
      simp only [Outcome.ok_bind, Outcome.pure_def, readCode]
      rfl

/-- The header of a control frame is not written. -/
theorem serialize_ctrl (version : UInt8) (bytes : List UInt8) :
    serialize ⟨version, .ctrl⟩ ≠ .ok bytes := by
  rw [serialize]
  split
  · exact fun ok => nomatch ok
  · exact fun ok => nomatch ok

end DataHeader

end RouteServer.Hdr
