import RouteServer.Bytes.Framing
import RouteServer.Core.Keys

/-!
# The body of pings and pongs

A body starts with the magic number of its kind and a version, which is never zero.
Key pings and key pongs carry a public key before the content.

The reader takes the thirty-two bytes of a key whenever that many are left, and asks
for the kind of the ping only afterwards. So the content of a plain ping is read back
unless it is that long; then its first thirty-two bytes are lost.
-/

namespace RouteServer.Ctrl

open Rust Keys Bytes

/-- `CtrlMessageType`. -/
inductive CtrlMessageType where
  | error
  | ping
  | pong
  | keyPing
  | keyPong
  | getSuperNodeQuery
  | getSuperNodeResponse
deriving DecidableEq

/-- The types whose body has a key. -/
def CtrlMessageType.isKeyed : CtrlMessageType → Bool
  | keyPing | keyPong => true
  | _ => false

/-- `PingData`. -/
structure PingData where
  version : UInt32
  key : Option PublicKey
  content : List UInt8
deriving DecidableEq

namespace PingData

def minSize : Nat := 8

/-- `PingData::ping_to_magic`. -/
def pingToMagic {ε : Type} : CtrlMessageType → Outcome ε UInt32
  | .ping => .ok 0x09f91102
  | .pong => .ok 0x9d74e35b
  | .keyPing => .ok 0x01234567
  | .keyPong => .ok 0x89abcdef
  | _ => .panicked

/-- The reads of `PingData::parse`. Failing to read a key leaves the reader as it was. -/
def fields (r : List UInt8) :
    Option ((UInt32 × UInt32 × Option PublicKey × List UInt8) × List UInt8) := do
  let (encodedMagic, r) ← readBe 4 r
  let (version, r) ← readBe 4 r
  let (keyBytes, content) := match readArray32 r with
    | some (keyBytes, r) => (some keyBytes, r)
    | none => (none, r)
  return ((UInt32.ofNat encodedMagic, UInt32.ofNat version, keyBytes, content), [])

/-- `PingData::parse`. -/
def parse (bytes : List UInt8) (pingType : CtrlMessageType) : Outcome ParseError PingData := do
  let (encodedMagic, version, pkBytes, content) ← read (.notLessThan minSize) fields bytes
  let originalMagic ← pingToMagic pingType
  if encodedMagic ≠ originalMagic then .err (.invalidData "invalid encoded connection magic")
  else if pingType.isKeyed then
    match pkBytes with
    | some key => .ok { version, key := some key, content }
    | none => .err .invalidPacketSize
  else .ok { version, key := none, content }

/-- `PingData::serialize`. -/
def serialize (data : PingData) (pingType : CtrlMessageType) :
    Outcome SerializeError (List UInt8) :=
  if data.version = 0 then .err (.invalidData "version should be greater than 0")
  else if pingType.isKeyed ∧ data.key = none then
    .err (.invalidInvariant "key should be specified for key ping/pong messages")
  else do
    let pingMagic ← pingToMagic pingType
    let key := match data.key with
      | some key => key.bytes
      | none => []
    return toBe 4 pingMagic.toNat ++ toBe 4 data.version.toNat ++ key ++ data.content

/-- The content that is read back of a body without a key. -/
def contentRead (content : List UInt8) : List UInt8 :=
  if 32 ≤ content.length then content.drop 32 else content

/-- The reads after the magic number and the version. -/
theorem fields_append (magic version : UInt32) (rest : List UInt8) :
    fields (toBe 4 magic.toNat ++ toBe 4 version.toNat ++ rest) =
      match readArray32 rest with
      | some (key, content) => some ((magic, version, some key, content), [])
      | none => some ((magic, version, none, rest), []) := by
  have number (value : UInt32) (after : List UInt8) :
      readBe 4 (toBe 4 value.toNat ++ after) = some (value.toNat, after) :=
    readBe_append value.toNat_lt after
  cases found : readArray32 rest <;> simp [fields, number, found]

/-- A body as it is read back. -/
def readBack (data : PingData) (pingType : CtrlMessageType) : PingData :=
  if pingType.isKeyed then data else { data with content := contentRead data.content }

/-- Whether a body has a key exactly when its type asks for one. -/
def KeyMatches (data : PingData) (pingType : CtrlMessageType) : Prop :=
  data.key.isSome = pingType.isKeyed

/-- What has been written is read back, but for the beginning of a long content
without a key before it.

Proof: by whether there is a key. With one the fields stand where the parser looks for them;
without one the parser takes the first thirty-two bytes of a long content for a key. -/
theorem parse_serialize {data : PingData} {pingType : CtrlMessageType} {bytes : List UInt8}
    (matching : data.KeyMatches pingType) (written : data.serialize pingType = .ok bytes) :
    parse bytes pingType = .ok (data.readBack pingType) := by
  obtain ⟨version, key, content⟩ := data
  rw [serialize] at written
  split at written
  · cases written
  · split at written
    · cases written
    · obtain ⟨magic, known, joined⟩ := (Outcome.bind_ok_iff _ _ _).mp written
      have magicRead : pingToMagic pingType = (.ok magic : Outcome ParseError UInt32) := by
        cases pingType <;> cases known <;> rfl
      have enough (rest : List UInt8) :
          minSize ≤ (toBe 4 magic.toNat ++ toBe 4 version.toNat ++ rest).length := by
        simp only [minSize, List.length_append, toBe_length]
        omega
      cases key with
      | some key =>
        have keyed : pingType.isKeyed = true := matching.symm
        cases joined
        have reads : fields (toBe 4 magic.toNat ++ toBe 4 version.toNat ++ (key.bytes ++ content)) =
            some ((magic, version, some key, content), []) := by
          rw [fields_append, readArray32_append]
        rw [List.append_assoc _ key.bytes, parse, read_notLessThan (enough _) reads]
        simp [magicRead, keyed, readBack]
      | none =>
        have keyless : pingType.isKeyed = false := matching.symm
        cases joined
        rw [List.append_nil, parse]
        by_cases long : 32 ≤ content.length
        · have reads : fields (toBe 4 magic.toNat ++ toBe 4 version.toNat ++ content) =
              some ((magic, version, some ⟨content.take 32, List.length_take_of_le long⟩,
                content.drop 32), []) := by
            rw [fields_append, readArray32, dif_pos long]
          rw [read_notLessThan (enough _) reads]
          simp [magicRead, keyless, readBack, contentRead, long]
        · have reads : fields (toBe 4 magic.toNat ++ toBe 4 version.toNat ++ content) =
              some ((magic, version, none, content), []) := by
            rw [fields_append, readArray32, dif_neg long]
          rw [read_notLessThan (enough _) reads]
          simp [magicRead, keyless, readBack, contentRead, long]

/-- A body is read back as it was exactly when it has a key or a short content. -/
theorem readBack_eq_iff (data : PingData) (pingType : CtrlMessageType) :
    data.readBack pingType = data ↔ pingType.isKeyed ∨ data.content.length < 32 := by
  obtain ⟨version, key, content⟩ := data
  cases keyed : pingType.isKeyed with
  | true => simp [readBack, keyed]
  | false =>
    simp only [readBack, keyed, contentRead, Bool.false_eq_true, if_false, false_or,
      PingData.mk.injEq, true_and]
    split
    · next long =>
      constructor
      · intro same
        have lengths : (content.drop 32).length = content.length := congrArg List.length same
        rw [List.length_drop] at lengths
        omega
      · intro short
        omega
    · next short => simpa using short

end PingData

end RouteServer.Ctrl
