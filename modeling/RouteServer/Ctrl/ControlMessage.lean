import RouteServer.Ctrl.Checksum
import RouteServer.Ctrl.ErrorData
import RouteServer.Ctrl.PingData

/-!
# Control messages

A message is its checksum, its type and its body. Writing and reading compute the
checksum over the same bytes, so it always verifies. What is read back is what the
body reads back: everything, but for the beginning of a long content of a plain ping
or pong.
-/

namespace RouteServer.Ctrl

open Rust Bytes Keys

/-- `CtrlMessageData`. -/
inductive CtrlMessageData where
  | pingData (data : PingData)
  | errorData (data : ErrorData)
  | superNodeQueryData
deriving DecidableEq

/-- `CtrlMessage`. -/
structure CtrlMessage where
  msgType : CtrlMessageType
  msgData : CtrlMessageData
deriving DecidableEq

/-- `CtrlMessageType::to_u16`. -/
def CtrlMessageType.toU16 : CtrlMessageType → UInt16
  | error => 2
  | ping => 3
  | pong => 4
  | keyPing => 5
  | keyPong => 6
  | getSuperNodeQuery => 7
  | getSuperNodeResponse => 8

/-- `CtrlMessageType::from_u16`. -/
def CtrlMessageType.fromU16 (code : UInt16) : Option CtrlMessageType :=
  if code = 2 then some error
  else if code = 3 then some ping
  else if code = 4 then some pong
  else if code = 5 then some keyPing
  else if code = 6 then some keyPong
  else if code = 7 then some getSuperNodeQuery
  else if code = 8 then some getSuperNodeResponse
  else none

/-- A type is read back from its code. -/
@[simp] theorem CtrlMessageType.fromU16_toU16 (msgType : CtrlMessageType) :
    fromU16 msgType.toU16 = some msgType := by
  cases msgType <;> rfl

namespace CtrlMessage

def headerSize : Nat := 4

/-- The reads of `CtrlMessage::parse`: the checksum, the bytes it is about, and from
these the type and the body. -/
def fields (r : List UInt8) :
    Option ((UInt16 × List UInt8 × UInt16 × List UInt8) × List UInt8) := do
  let (receivedChecksum, afterChecksumData) ← readBe 2 r
  let (typeCode, rawData) ← readBe 2 afterChecksumData
  return ((UInt16.ofNat receivedChecksum, afterChecksumData, UInt16.ofNat typeCode, rawData), [])

/-- The body of a message by its type. -/
def parseBody (msgType : CtrlMessageType) (rawData : List UInt8) :
    Outcome ParseError CtrlMessageData :=
  match msgType with
  | .error => do
    let data ← ErrorData.parse rawData
    return .errorData data
  | .getSuperNodeQuery | .getSuperNodeResponse => .ok .superNodeQueryData
  | .ping | .pong | .keyPing | .keyPong => do
    let data ← PingData.parse rawData msgType
    return .pingData data

/-- `CtrlMessage::parse`. -/
def parse (bytes : List UInt8) : Outcome ParseError CtrlMessage := do
  let (receivedChecksum, data, typeCode, rawData) ← read (.notLessThan headerSize) fields bytes
  let computedChecksum := cksumRaw data
  let invertedChecksum := computedChecksum <<< 8 ||| computedChecksum >>> 8
  if receivedChecksum ≠ computedChecksum ∧ receivedChecksum ≠ invertedChecksum then
    .err (.invalidChecksum receivedChecksum computedChecksum)
  else match CtrlMessageType.fromU16 typeCode with
    | none => .err (.invalidData "unknown ctrl packet")
    | some msgType => do
      let msgData ← parseBody msgType rawData
      return { msgType, msgData }

/-- The body of a message, if it has the kind its type asks for. -/
def serializeBody (message : CtrlMessage) : Outcome SerializeError (List UInt8) :=
  match message.msgType with
  | .error =>
    match message.msgData with
    | .errorData data => data.serialize
    | _ => .err (.invalidInvariant "message with error header, but ping data body")
  | .getSuperNodeQuery | .getSuperNodeResponse =>
    .err (.invalidData "can't serialize GetsNode messages")
  | pingType =>
    match message.msgData with
    | .pingData data => data.serialize pingType
    | _ => .err (.invalidInvariant "message with ping header, but error data body")

/-- `CtrlMessage::serialize`. -/
def serialize (message : CtrlMessage) : Outcome SerializeError (List UInt8) := do
  let rawData ← message.serializeBody
  let checksumData := toBe 2 message.msgType.toU16.toNat ++ rawData
  return toBe 2 (cksumRaw checksumData).toNat ++ checksumData

/-- Pings carry a key exactly when their type asks for one. -/
def KeyMatches (message : CtrlMessage) : Prop :=
  ∀ data, message.msgData = .pingData data → data.KeyMatches message.msgType

/-- A message as it is due to be read back: an error about a switch header without a
version is about one with the current version. -/
def readBack (message : CtrlMessage) : CtrlMessage :=
  match message.msgData with
  | .errorData data => { message with msgData := .errorData data.readBack }
  | _ => message

/-- A plain ping or pong whose content is as long as a key. -/
def HasLongContent (message : CtrlMessage) : Prop :=
  (message.msgType = .ping ∨ message.msgType = .pong) ∧
    ∃ data, message.msgData = .pingData data ∧ 32 ≤ data.content.length

/-- The checksum of a written message verifies, so reading goes on with its body. -/
theorem parse_written (msgType : CtrlMessageType) (rawData : List UInt8) :
    parse (toBe 2 (cksumRaw (toBe 2 msgType.toU16.toNat ++ rawData)).toNat ++
        (toBe 2 msgType.toU16.toNat ++ rawData)) =
      (parseBody msgType rawData >>= fun msgData => .ok { msgType, msgData }) := by
  have number (value : UInt16) (rest : List UInt8) :
      readBe 2 (toBe 2 value.toNat ++ rest) = some (value.toNat, rest) :=
    readBe_append value.toNat_lt rest
  have reads (checksum : UInt16) : fields (toBe 2 checksum.toNat ++
      (toBe 2 msgType.toU16.toNat ++ rawData)) =
      some ((checksum, toBe 2 msgType.toU16.toNat ++ rawData, msgType.toU16, rawData), []) := by
    simp [fields, number]
  have enough (checksum : UInt16) : headerSize ≤ (toBe 2 checksum.toNat ++
      (toBe 2 msgType.toU16.toNat ++ rawData)).length := by
    simp only [headerSize, List.length_append, toBe_length]
    omega
  rw [parse, read_notLessThan (enough _) (reads _)]
  simp only [Outcome.ok_bind, ne_eq, not_true_eq_false, false_and, if_false,
    CtrlMessageType.fromU16_toU16, Outcome.pure_def]

/-- A message is written when its body is, and then its body is read back by its type. -/
theorem parse_serialize {message : CtrlMessage} {bytes : List UInt8}
    (written : message.serialize = .ok bytes) :
    ∃ rawData, message.serializeBody = .ok rawData ∧
      parse bytes = (parseBody message.msgType rawData >>= fun msgData =>
        .ok { msgType := message.msgType, msgData }) := by
  obtain ⟨rawData, body, joined⟩ := (Outcome.bind_ok_iff _ _ _).mp written
  cases joined
  exact ⟨rawData, body, parse_written _ _⟩

/-- What is read back of a written message: its body by its own kind.

Proof: by the kind of the data and the type of the message, of which only the matching ones are
written. -/
theorem parse_of_serialize {message : CtrlMessage} {bytes : List UInt8}
    (matching : message.KeyMatches) (written : message.serialize = .ok bytes) :
    (∃ data, message = ⟨.error, .errorData data⟩ ∧
        parse bytes = .ok ⟨.error, .errorData data.readBack⟩) ∨
      ∃ data, message = ⟨message.msgType, .pingData data⟩ ∧
        (message.msgType.isKeyed ↔ ¬(message.msgType = .ping ∨ message.msgType = .pong)) ∧
        parse bytes = .ok ⟨message.msgType, .pingData (data.readBack message.msgType)⟩ := by
  obtain ⟨rawData, body, reads⟩ := parse_serialize written
  obtain ⟨msgType, msgData⟩ := message
  rw [reads]
  cases msgData with
  | errorData data =>
    cases msgType with
    | error =>
      refine Or.inl ⟨data, rfl, ?_⟩
      simp only [parseBody, ErrorData.parse_serialize body]
      rfl
    | _ => cases body
  | superNodeQueryData => cases msgType <;> cases body
  | pingData data =>
    have pinged (isPing : parseBody msgType rawData =
        (PingData.parse rawData msgType >>= fun data => .ok (.pingData data)))
        (written : data.serialize msgType = .ok rawData) :
        (parseBody msgType rawData >>= fun msgData => .ok { msgType, msgData }) =
          .ok (⟨msgType, .pingData (data.readBack msgType)⟩ : CtrlMessage) := by
      rw [isPing, PingData.parse_serialize (matching data rfl) written]
      rfl
    cases msgType with
    | error => cases body
    | getSuperNodeQuery => cases body
    | getSuperNodeResponse => cases body
    | _ => exact Or.inr ⟨data, rfl, by simp [CtrlMessageType.isKeyed], pinged rfl body⟩

/-- A written message is read back, up to the version of a switch header, exactly
when it is no plain ping or pong with a content of thirty-two bytes or more.

Proof: a written message parses as itself or, if it is a ping, as itself with its content cut off,
which changes it exactly from thirty-two bytes on. -/
theorem read_back_iff (message : CtrlMessage) (bytes : List UInt8)
    (matching : message.KeyMatches) (written : message.serialize = .ok bytes) :
    parse bytes = .ok message.readBack ↔ ¬message.HasLongContent := by
  rcases parse_of_serialize matching written with ⟨data, same, reads⟩ | ⟨data, same, ping, reads⟩
  · rw [reads, same]
    simp [readBack, HasLongContent]
  · obtain ⟨msgType, msgData⟩ := message
    cases same
    have longContent : HasLongContent ⟨msgType, .pingData data⟩ ↔
        (msgType = .ping ∨ msgType = .pong) ∧ 32 ≤ data.content.length := by
      simp [HasLongContent]
    have unchanged : parse bytes = .ok (readBack ⟨msgType, .pingData data⟩) ↔
        data.readBack msgType = data := by
      simp [reads, readBack]
    rw [unchanged, PingData.readBack_eq_iff, ping, longContent, Decidable.not_and_iff_not_or_not,
      Nat.not_le]

/-- A ping with the content given. -/
def pingWith (content : List UInt8) : CtrlMessage :=
  ⟨.ping, .pingData ⟨18, none, content⟩⟩

/-- A ping of any content has no key, as its type says. -/
theorem pingWith_matches (content : List UInt8) : (pingWith content).KeyMatches := by
  intro data same
  cases same
  rfl

/-- A ping with twelve bytes of content is written, and read back as it was. -/
theorem short_ping_read_back :
    ∃ bytes, (pingWith (List.replicate 12 7)).serialize = .ok bytes ∧
      (parse bytes = .ok (pingWith (List.replicate 12 7)).readBack ↔
        ¬(pingWith (List.replicate 12 7)).HasLongContent) :=
  ⟨_, rfl, read_back_iff _ _ (pingWith_matches _) rfl⟩

/-- A ping with thirty-two bytes of content is read back without any. -/
theorem long_ping_loses_content :
    (pingWith (List.replicate 32 7)).KeyMatches ∧
      ∃ bytes, (pingWith (List.replicate 32 7)).serialize = .ok bytes ∧
        parse bytes = .ok (pingWith []) ∧
        parse bytes ≠ .ok (pingWith (List.replicate 32 7)).readBack := by
  have lost : ∀ bytes, (pingWith (List.replicate 32 7)).serialize = .ok bytes →
      parse bytes = .ok (pingWith []) := by
    intro bytes written
    rcases parse_of_serialize (pingWith_matches _) written with ⟨_, same, -⟩ | ⟨_, same, -, reads⟩
    · cases same
    · cases same
      exact reads
  refine ⟨pingWith_matches _, _, rfl, lost _ rfl, ?_⟩
  rw [lost _ rfl]
  decide

end CtrlMessage

end RouteServer.Ctrl
