import RouteServer.Core.Keys
import RouteServer.Hdr.SwitchHeader

/-!
# The route header

Sixty-eight bytes in front of every message between the engine and the program: a
public key, the switch header, a protocol version, flags and an address. Zero bytes
stand for a missing key or address. Control frames have neither, other frames have
an address, and a key must hash to the address next to it. Reading and writing check
the same rules.
-/

namespace RouteServer.Hdr

open Rust Labels Bytes Keys

/-- `RouteHeader`. -/
structure RouteHeader where
  publicKey : Option PublicKey
  ip6 : Option Ip6
  version : UInt32
  switchHeader : SwitchHeader
  isIncoming : Bool
  isCtrl : Bool
deriving DecidableEq

namespace RouteHeader

def size : Nat := 68

def zeroPublicKeyBytes : PublicKey := ⟨List.replicate 32 0, by simp⟩

def zeroIp6Bytes : List UInt8 := List.replicate 16 0

def incomingFrame : UInt8 := 1

def controlFrame : UInt8 := 2

/-- Why a header is refused, by reading and by writing. -/
inductive Fault where
  | invalidInvariant (text : String)
  | invalidData (text : String)

def Fault.parseError : Fault → ParseError
  | invalidInvariant text => .invalidInvariant text
  | invalidData text => .invalidData text

def Fault.serializeError : Fault → SerializeError
  | invalidInvariant text => .invalidInvariant text
  | invalidData text => .invalidData text

/-- The checks on the kind of the frame, its key and its address. -/
def frameFault (crypto : Crypto) (isCtrl : Bool) (publicKey : Option PublicKey)
    (ip6 : Option Ip6) : Option Fault :=
  if isCtrl ∧ publicKey.isSome then
    some (.invalidInvariant "public key can not be defined in control frame")
  else if isCtrl ∧ ip6.isSome then some (.invalidInvariant "ip6 is defined for control frame")
  else if isCtrl = false ∧ ip6.isNone then
    some (.invalidInvariant "ip6 is not defined for non-control frame")
  else match publicKey, ip6 with
    | some publicKey, some ip6 =>
      match Ip6.ofPublicKey crypto publicKey with
      | none => some (.invalidData "can't create ip6 from public key")
      | some ip6FromKey =>
        if ip6FromKey ≠ ip6 then
          some (.invalidData "ip6 derived from public key is not equal to ip6 from header bytes")
        else none
    | _, _ => none

/-- The reads of `RouteHeader::parse`. -/
def fields (r : List UInt8) :
    Option ((PublicKey × List UInt8 × UInt32 × UInt8 × List UInt8) × List UInt8) := do
  let (pkBytes, r) ← readArray32 r
  let (headerBytes, r) ← readSlice SwitchHeader.size r
  let (version, r) ← readBe 4 r
  let (flags, r) ← readU8 r
  let (_, r) ← readSlice 3 r
  let (ip6Bytes, r) ← readSlice 16 r
  return ((pkBytes, headerBytes, UInt32.ofNat version, flags, ip6Bytes), r)

/-- The address in a header, if its bytes are not zero. -/
def parseIp6 (ip6Bytes : List UInt8) : Outcome ParseError (Option Ip6) :=
  if ip6Bytes = zeroIp6Bytes then .ok none
  else match Ip6.tryFrom ip6Bytes with
    | none => .err (.invalidData "can't create ip6 from received bytes")
    | some ip6 => .ok (some ip6)

/-- `RouteHeader::parse`. -/
def parse (crypto : Crypto) (data : List UInt8) : Outcome ParseError RouteHeader := do
  let (pkBytes, headerBytes, version, flags, ip6Bytes) ← read (.exact size) fields data
  let publicKey := if zeroPublicKeyBytes = pkBytes then none else some pkBytes
  let switchHeader ← SwitchHeader.parse headerBytes
  let isCtrl := flags &&& controlFrame != 0
  let isIncoming := flags &&& incomingFrame != 0
  let ip6FromBytes ← parseIp6 ip6Bytes
  match frameFault crypto isCtrl publicKey ip6FromBytes with
  | some fault => .err fault.parseError
  | none => .ok { publicKey, ip6 := ip6FromBytes, version, switchHeader, isIncoming, isCtrl }

/-- The flags that are written. -/
def flags (header : RouteHeader) : UInt8 :=
  (if header.isCtrl then controlFrame else 0) + if header.isIncoming then incomingFrame else 0

/-- `RouteHeader::serialize`. -/
def serialize (crypto : Crypto) (header : RouteHeader) : Outcome SerializeError (List UInt8) :=
  match frameFault crypto header.isCtrl header.publicKey header.ip6 with
  | some fault => .err fault.serializeError
  | none => do
    let publicKeyBytes := (header.publicKey.getD zeroPublicKeyBytes).bytes
    let switchHeaderBytes ← header.switchHeader.serialize
    let ip6Bytes := header.ip6.elim zeroIp6Bytes Ip6.bytes
    return publicKeyBytes ++ (switchHeaderBytes ++ (toBe 4 header.version.toNat ++
      header.flags :: (List.replicate 3 0 ++ ip6Bytes)))

/-- A header as it is read back. -/
def readBack (header : RouteHeader) : RouteHeader :=
  { header with switchHeader := header.switchHeader.readBack }

/-- What can be written and told apart from a missing key and a missing address. -/
structure Writable (crypto : Crypto) (header : RouteHeader) : Prop where
  switchHeader : header.switchHeader.Writable
  frame : frameFault crypto header.isCtrl header.publicKey header.ip6 = none
  publicKey : header.publicKey ≠ some zeroPublicKeyBytes
  ip6 : ∀ ip6, header.ip6 = some ip6 → ip6.bytes ≠ zeroIp6Bytes

/-- The bytes of a header that can be written. -/
def bytes (header : RouteHeader) : List UInt8 :=
  (header.publicKey.getD zeroPublicKeyBytes).bytes ++ (header.switchHeader.bytes ++
    (toBe 4 header.version.toNat ++ header.flags ::
      (List.replicate 3 0 ++ header.ip6.elim zeroIp6Bytes Ip6.bytes)))

/-- An address takes sixteen bytes, as zeros where there is none. -/
theorem ip6Bytes_length (ip6 : Option Ip6) : (ip6.elim zeroIp6Bytes Ip6.bytes).length = 16 := by
  cases ip6 with
  | none => simp [zeroIp6Bytes]
  | some ip6 =>
    have valid : isIp6 ip6.bytes = true := ip6.valid
    simp only [isIp6, decide_eq_true_eq] at valid
    exact valid.1

/-- A header has a fixed size. -/
theorem bytes_length (header : RouteHeader) : header.bytes.length = size := by
  have key : (header.publicKey.getD zeroPublicKeyBytes).bytes.length = 32 := Rust.Bytes.sized _
  simp only [bytes, List.length_append, List.length_cons, key, SwitchHeader.bytes_length,
    toBe_length, List.length_replicate, ip6Bytes_length]
  rfl

/-- Where the checks of the writer hold it writes the bytes of the header. -/
theorem serialize_writable {crypto : Crypto} {header : RouteHeader}
    (writable : header.Writable crypto) : header.serialize crypto = .ok header.bytes := by
  have switchHeader := (SwitchHeader.serialize_ok_iff _ _).mpr ⟨writable.switchHeader, rfl⟩
  rw [serialize, writable.frame]
  simp only [switchHeader]
  rfl

/-- Both flags are read back from their byte. -/
theorem flags_packed (header : RouteHeader) :
    (header.flags &&& controlFrame != 0) = header.isCtrl ∧
      (header.flags &&& incomingFrame != 0) = header.isIncoming := by
  have all : ∀ isCtrl isIncoming : Bool,
      (((if isCtrl then controlFrame else 0) + if isIncoming then incomingFrame else 0) &&&
          controlFrame != 0) = isCtrl ∧
        (((if isCtrl then controlFrame else 0) + if isIncoming then incomingFrame else 0) &&&
          incomingFrame != 0) = isIncoming := by decide
  exact all header.isCtrl header.isIncoming

/-- The address of a header is read back, since it is not zero. -/
theorem parseIp6_written {ip6 : Option Ip6}
    (nonzero : ∀ present, ip6 = some present → present.bytes ≠ zeroIp6Bytes) :
    parseIp6 (ip6.elim zeroIp6Bytes Ip6.bytes) = .ok ip6 := by
  cases ip6 with
  | none => rfl
  | some ip6 =>
    rw [parseIp6, Option.elim_some, if_neg (nonzero ip6 rfl), Ip6.tryFrom, dif_pos ip6.valid]

/-- The bytes of a header are read back. -/
theorem parse_bytes {crypto : Crypto} {header : RouteHeader} (writable : header.Writable crypto) :
    parse crypto header.bytes = .ok header.readBack := by
  have version (rest : List UInt8) : readBe 4 (toBe 4 header.version.toNat ++ rest) =
      some (header.version.toNat, rest) := readBe_append header.version.toNat_lt rest
  have ip6 : readSlice 16 (header.ip6.elim zeroIp6Bytes Ip6.bytes) =
      some (header.ip6.elim zeroIp6Bytes Ip6.bytes, []) := by
    simpa using readSlice_append (ip6Bytes_length header.ip6) []
  have padding (rest : List UInt8) : readSlice 3 (List.replicate 3 0 ++ rest) =
      some (List.replicate 3 0, rest) := readSlice_append List.length_replicate rest
  have reads : fields header.bytes = some ((header.publicKey.getD zeroPublicKeyBytes,
      header.switchHeader.bytes, header.version, header.flags,
      header.ip6.elim zeroIp6Bytes Ip6.bytes), []) := by
    simp only [fields, bytes, readArray32_append,
      readSlice_append (SwitchHeader.bytes_length header.switchHeader), version, readU8_cons,
      padding, ip6, Option.bind_eq_bind, Option.bind_some, Option.pure_def, UInt32.ofNat_toNat]
  have publicKey : (if zeroPublicKeyBytes = header.publicKey.getD zeroPublicKeyBytes then none
      else some (header.publicKey.getD zeroPublicKeyBytes)) = header.publicKey := by
    cases key : header.publicKey with
    | none => simp
    | some present =>
      have nonzero : zeroPublicKeyBytes ≠ present := by
        rintro rfl
        exact writable.publicKey key
      simp [nonzero]
  rw [parse, read_exact (bytes_length header) reads]
  simp only [Outcome.ok_bind, SwitchHeader.parse_bytes writable.switchHeader,
    parseIp6_written writable.ip6, publicKey, flags_packed header, writable.frame]
  rfl

/-- What has been read can be written.

Proof: the checks of the parser are those of the writer; the branches that fail them are closed
one by one. -/
theorem writable_of_parse {crypto : Crypto} {data : List UInt8} {header : RouteHeader}
    (parsed : parse crypto data = .ok header) : header.Writable crypto := by
  simp only [parse, Outcome.bind_ok_iff, Prod.exists] at parsed
  obtain ⟨pkBytes, headerBytes, version, flags, ip6Bytes, -, switchHeader, switchParsed, ip6,
    ip6Parsed, checks⟩ := parsed
  split at checks
  · cases checks
  · next frame =>
    cases checks
    refine ⟨SwitchHeader.writable_of_parse switchParsed, frame, ?_, ?_⟩
    · dsimp only
      split
      · simp
      · next nonzero =>
        intro same
        exact nonzero (Option.some.inj same).symm
    · rintro present rfl zero
      rw [parseIp6] at ip6Parsed
      split at ip6Parsed
      · cases ip6Parsed
      · next nonzero =>
        rw [Ip6.tryFrom] at ip6Parsed
        split at ip6Parsed
        · cases ip6Parsed
        · next built =>
          split at built
          · cases built
            cases ip6Parsed
            exact nonzero zero
          · cases built

end RouteHeader

end RouteServer.Hdr
