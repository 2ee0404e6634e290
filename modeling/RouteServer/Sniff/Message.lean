import RouteServer.Ann.Parser
import RouteServer.Bencode.Aligned
import RouteServer.Ctrl.ControlMessage
import RouteServer.Hdr.DataHeader
import RouteServer.Hdr.RouteHeader

/-!
# Messages of the sniffer

A datagram is a route header, a data header unless the frame is a control frame, and
a content: a dictionary, a control message, raw bytes or nothing. Sending puts the
same parts together, with a data header for every frame.

So no control frame is sent: its type has no code in a data header. Other messages
are received again as they were sent, but for an empty dictionary.
-/

namespace RouteServer.Sniff

open Rust Bytes Keys Hdr Ctrl
open Bencode hiding ParseError

/-- `Content`. -/
inductive Content where
  | empty
  | bytes (contentBytes : List UInt8)
  | benc (contentBenc : List (Bstr × Object))
  | ctrl (content : CtrlMessage)

/-- `Message`. -/
structure Message where
  routeHeader : RouteHeader
  contentType : ContentType
  content : Content
  rawBytes : Option (List UInt8)

/-- `Parser::<32, true>`. -/
def limits : Limits := ⟨32, true⟩

/-- The content of `Sniffer::decode_message`, by its type and the kind of the frame. -/
def decodeContent (contentType : ContentType) (data : List UInt8) (isCtrl : Bool) :
    Outcome ParseError Content :=
  if data = [] then .ok .empty
  else if contentType = .cjdht ∧ isCtrl = false then
    match parse limits data with
    | .ok (.dict entries, _) => .ok (.benc entries)
    | .ok _ => .err (.invalidData "bencoded content not a Dict")
    | .err _ => .err (.invalidData "failed to decode bencoded content")
    | .panicked => .panicked
  else if isCtrl then do
    let content ← CtrlMessage.parse data
    return .ctrl content
  else .ok (.bytes data)

/-- The type of a content and its bytes. Control frames have no data header. -/
def decodeDataHeader (isCtrl : Bool) (bytes : List UInt8) :
    Outcome ParseError (ContentType × List UInt8) :=
  if isCtrl then .ok (.ctrl, bytes)
  else if bytes.length < DataHeader.size then .err .invalidPacketSize
  else do
    let header ← DataHeader.parse (bytes.take DataHeader.size)
    return (header.contentType, bytes.drop DataHeader.size)

/-- `Sniffer::decode_message`. -/
def decodeMessage (crypto : Crypto) (bytes : List UInt8) : Outcome ParseError Message :=
  if bytes.length < RouteHeader.size then .err .invalidPacketSize
  else do
    let routeHeader ← RouteHeader.parse crypto (bytes.take RouteHeader.size)
    let (contentType, data) ← decodeDataHeader routeHeader.isCtrl (bytes.drop RouteHeader.size)
    let content ← decodeContent contentType data routeHeader.isCtrl
    return { routeHeader, contentType, content, rawBytes := some bytes }

/-- The content bytes of `Sniffer::send`. -/
def contentBytes (message : Message) : Outcome SerializeError (Option (List UInt8)) :=
  match message.content with
  | .benc contentBenc =>
    if message.contentType = .cjdht then .ok (some (serialize [] (.dict contentBenc) 4))
    else .ok none
  | .ctrl content =>
    if message.routeHeader.isCtrl then do
      let bytes ← content.serialize
      return some bytes
    else .ok none
  | .bytes contentBytes => .ok (some contentBytes)
  | .empty => .ok none

/-- The buffer that `Sniffer::send` builds. -/
def sendBuffer (crypto : Crypto) (message : Message) : Outcome SerializeError (List UInt8) := do
  let routeHeaderBytes ← message.routeHeader.serialize crypto
  let dataHeaderBytes ← (DataHeader.ofType message.contentType).serialize
  let content ← contentBytes message
  return routeHeaderBytes ++ (dataHeaderBytes ++ content.getD [])

/-- A message is sent, and received again as it was up to the version of the switch
header. -/
def Resends (crypto : Crypto) (message : Message) : Prop :=
  ∃ buffer again, sendBuffer crypto message = .ok buffer ∧
    decodeMessage crypto buffer = .ok again ∧
    again.routeHeader = message.routeHeader.readBack ∧
    again.contentType = message.contentType ∧ again.content = message.content

/-- A route header in front of a datagram is read back. -/
theorem decodeMessage_append {crypto : Crypto} {header : RouteHeader}
    (writable : header.Writable crypto) (rest : List UInt8) :
    decodeMessage crypto (header.bytes ++ rest) = (do
      let (contentType, data) ← decodeDataHeader header.isCtrl rest
      let content ← decodeContent contentType data header.isCtrl
      return { routeHeader := header.readBack, contentType, content,
               rawBytes := some (header.bytes ++ rest) }) := by
  have sized := RouteHeader.bytes_length header
  have enough : ¬(header.bytes ++ rest).length < RouteHeader.size := by
    rw [List.length_append, sized]
    omega
  rw [decodeMessage, if_neg enough, List.take_left' sized, List.drop_left' sized,
    RouteHeader.parse_bytes writable]
  rfl

/-- No control frame is sent. -/
theorem sendBuffer_ctrl (crypto : Crypto) {message : Message}
    (ctrl : message.contentType = .ctrl) (buffer : List UInt8) :
    sendBuffer crypto message ≠ .ok buffer := by
  simp only [sendBuffer, ne_eq, Outcome.bind_ok_iff, not_exists, not_and]
  intro _ _ bytes header
  rw [ctrl] at header
  exact absurd header (DataHeader.serialize_ctrl _ _)

/-- What a received message is made of: a route header that can be written, the type
of control frames for these alone, and a content decoded by them. -/
theorem decodeMessage_ok {crypto : Crypto} {datagram : List UInt8} {message : Message}
    (decoded : decodeMessage crypto datagram = .ok message) :
    message.routeHeader.Writable crypto ∧
      (message.contentType = .ctrl ↔ message.routeHeader.isCtrl = true) ∧
      ∃ data, decodeContent message.contentType data message.routeHeader.isCtrl =
        .ok message.content := by
  rw [decodeMessage] at decoded
  split at decoded
  · cases decoded
  · obtain ⟨header, headerParsed, afterHeader⟩ := (Outcome.bind_ok_iff _ _ _).mp decoded
    obtain ⟨⟨contentType, data⟩, typed, afterType⟩ := (Outcome.bind_ok_iff _ _ _).mp afterHeader
    obtain ⟨content, contentDecoded, built⟩ := (Outcome.bind_ok_iff _ _ _).mp afterType
    cases built
    refine ⟨RouteHeader.writable_of_parse headerParsed, ?_, data, contentDecoded⟩
    rw [decodeDataHeader] at typed
    split at typed
    · next isCtrl =>
      cases typed
      simp [isCtrl]
    · next notCtrl =>
      split at typed
      · cases typed
      · obtain ⟨dataHeader, dataParsed, taken⟩ := (Outcome.bind_ok_iff _ _ _).mp typed
        cases taken
        obtain ⟨⟨_, code⟩, -, headerBuilt⟩ := (Outcome.bind_ok_iff _ _ _).mp dataParsed
        cases headerBuilt
        simp [notCtrl, ContentType.fromU16_ne_ctrl]

/-- The content of a frame that is no control frame. -/
theorem decodeContent_ok {contentType : ContentType} {data : List UInt8} {content : Content}
    (decoded : decodeContent contentType data false = .ok content) :
    content = .empty ∨
      (contentType = .cjdht ∧ ∃ entries, content = .benc entries ∧
        Parsed limits 0 (.dict entries)) ∨
      contentType ≠ .cjdht ∧ ∃ bytes, content = .bytes bytes ∧ bytes ≠ [] := by
  rw [decodeContent] at decoded
  split at decoded
  · cases decoded
    exact Or.inl rfl
  · next nonempty =>
    split at decoded
    · next dictionary =>
      split at decoded
      · next entries _ read =>
        cases decoded
        exact Or.inr (Or.inl ⟨dictionary.1, entries, rfl, parsed_of_parse read⟩)
      · cases decoded
      · cases decoded
      · cases decoded
    · next other =>
      cases decoded
      exact Or.inr (Or.inr ⟨fun same => other ⟨same, rfl⟩, data, rfl, nonempty⟩)

/-- The content of a received frame that is no control frame is sent, and received
again exactly when it is no empty dictionary. -/
theorem decodeContent_sent {message : Message} {data : List UInt8}
    (decoded : decodeContent message.contentType data false = .ok message.content) :
    ∃ sent, contentBytes message = .ok sent ∧
      (decodeContent message.contentType (sent.getD []) false = .ok message.content ↔
        message.content ≠ .benc []) := by
  rcases decodeContent_ok decoded with empty | ⟨dictionary, entries, benc, parsed⟩ |
    ⟨other, bytes, raw, nonempty⟩
  · refine ⟨none, by rw [contentBytes, empty], ?_⟩
    simp [empty, decodeContent]
  · refine ⟨some (serialize [] (.dict entries) 4), by simp [contentBytes, benc, dictionary], ?_⟩
    have written : serialize [] (.dict entries) 4 ≠ [] := by simp [serialize, writeValue]
    rw [decodeContent, Option.getD_some, if_neg written, if_pos ⟨dictionary, rfl⟩, benc]
    by_cases none : entries = []
    · rw [none, limits, parse_aligned_empty]
      simp
    · rw [parse_aligned rfl none parsed]
      simpa using none
  · refine ⟨some bytes, by rw [contentBytes, raw], ?_⟩
    simp [raw, decodeContent, nonempty, other]

/-- A received frame of a recognized type that is no control frame is sent and received
again exactly when its content is no empty dictionary.

Proof: the headers that were read are written and read again. The content is written as it was
read, except that an empty dictionary is taken for no content at all. -/
theorem resends_data_iff {crypto : Crypto} {message : Message} {data : List UInt8}
    (writable : message.routeHeader.Writable crypto) (isCtrl : message.routeHeader.isCtrl = false)
    (notCtrl : message.contentType ≠ .ctrl) (recognized : message.contentType ≠ .other)
    (decoded : decodeContent message.contentType data false = .ok message.content) :
    Resends crypto message ↔ message.content ≠ .benc [] := by
  obtain ⟨dataHeader, headerWritten, sized, headerRead⟩ :=
    DataHeader.serialize_ofType message.contentType notCtrl recognized
  obtain ⟨content, contentWritten, contentRead⟩ := decodeContent_sent decoded
  have buffer : sendBuffer crypto message =
      .ok (message.routeHeader.bytes ++ (dataHeader ++ content.getD [])) := by
    rw [sendBuffer, RouteHeader.serialize_writable writable]
    simp only [Outcome.ok_bind, headerWritten, contentWritten]
    rfl
  have typed : decodeDataHeader false (dataHeader ++ content.getD []) =
      .ok (message.contentType, content.getD []) := by
    have enough : ¬(dataHeader ++ content.getD []).length < DataHeader.size := by
      rw [List.length_append, sized]
      omega
    rw [decodeDataHeader, if_neg (by decide), if_neg enough, List.take_left' sized,
      List.drop_left' sized, headerRead]
    rfl
  have received := decodeMessage_append writable (dataHeader ++ content.getD [])
  rw [isCtrl, typed, Outcome.ok_bind] at received
  dsimp only at received
  rw [← contentRead]
  constructor
  · rintro ⟨sent, again, written, read, -, -, same⟩
    rw [buffer] at written
    cases written
    rw [received] at read
    obtain ⟨found, contentDecoded, built⟩ := (Outcome.bind_ok_iff _ _ _).mp read
    cases built
    exact same ▸ contentDecoded
  · intro contentDecoded
    rw [contentDecoded] at received
    exact ⟨_, _, buffer, received, rfl, rfl, rfl⟩

/-- A received message of a recognized type is sent and received again as it was
exactly when it is no control frame and its content is no empty dictionary.

Proof: control frames are refused by the sender, since their type has no code of sixteen bits.
Other content is sent as it was received, and an empty dictionary is written as padding that is
refused. -/
theorem resends_iff (crypto : Crypto) (datagram : List UInt8) (message : Message)
    (decoded : decodeMessage crypto datagram = .ok message)
    (recognized : message.contentType ≠ .other) :
    Resends crypto message ↔
      message.routeHeader.isCtrl = false ∧ message.content ≠ .benc [] := by
  obtain ⟨writable, ctrlType, data, contentDecoded⟩ := decodeMessage_ok decoded
  cases isCtrl : message.routeHeader.isCtrl with
  | true =>
    simp only [Bool.true_eq_false, false_and, iff_false]
    rintro ⟨buffer, again, sent, -⟩
    exact sendBuffer_ctrl crypto (ctrlType.mpr isCtrl) buffer sent
  | false =>
    rw [isCtrl] at contentDecoded
    have notCtrl : message.contentType ≠ .ctrl := by simp [ctrlType, isCtrl]
    rw [resends_data_iff writable isCtrl notCtrl recognized contentDecoded, eq_self, true_and]

/-- A route header without a key, of a control frame or of another frame. -/
def plainHeader (isCtrl : Bool) : RouteHeader where
  publicKey := none
  ip6 := if isCtrl then none else some ⟨0xfc :: List.replicate 15 1, by decide⟩
  version := 21
  switchHeader := ⟨⟨0x17, by decide, by decide⟩, 0, false, 1, 0, 0⟩
  isIncoming := true
  isCtrl := isCtrl

/-- A header without an address passes the checks of its writer. -/
theorem plainHeader_writable (crypto : Crypto) (isCtrl : Bool) :
    (plainHeader isCtrl).Writable crypto := by
  cases isCtrl with
  | true => exact ⟨⟨Or.inr rfl, by decide, by decide⟩, rfl, by decide, by decide⟩
  | false => exact ⟨⟨Or.inr rfl, by decide, by decide⟩, rfl, by decide, by decide⟩

/-- The message of a datagram behind a route header without a key. -/
theorem decodeMessage_plain (crypto : Crypto) {isCtrl : Bool} {rest data : List UInt8}
    {contentType : ContentType} {content : Content}
    (typed : decodeDataHeader isCtrl rest = .ok (contentType, data))
    (decoded : decodeContent contentType data isCtrl = .ok content) :
    decodeMessage crypto ((plainHeader isCtrl).bytes ++ rest) =
      .ok { routeHeader := (plainHeader isCtrl).readBack, contentType, content,
            rawBytes := some ((plainHeader isCtrl).bytes ++ rest) } := by
  have sameKind : (plainHeader isCtrl).isCtrl = isCtrl := rfl
  rw [decodeMessage_append (plainHeader_writable crypto isCtrl), sameKind, typed,
    Outcome.ok_bind]
  dsimp only
  rw [decoded]
  rfl

/-- A UDP packet of two bytes is sent and received again. -/
theorem udp_packet_resent :
    ∃ message, decodeMessage Ann.Sample.crypto
        ((plainHeader false).bytes ++ [16, 0, 0, 17, 1, 2]) = .ok message ∧
      (Resends Ann.Sample.crypto message ↔
        message.routeHeader.isCtrl = false ∧ message.content ≠ .benc []) := by
  have typed : decodeDataHeader false [16, 0, 0, 17, 1, 2] = .ok (.ip6Udp, [1, 2]) := rfl
  have decoded : decodeContent .ip6Udp [1, 2] false = .ok (.bytes [1, 2]) := rfl
  have received := decodeMessage_plain Ann.Sample.crypto typed decoded
  exact ⟨_, received, resends_iff _ _ _ received (by decide)⟩

/-- A control frame with a ping, and a frame with an empty dictionary, are received
and cannot be sent and received again.

Proof: two frames, each of which is decoded step by step; what is received is then refused when
it is sent or read again. -/
theorem ping_frame_not_sent :
    (∃ message ping, decodeMessage Ann.Sample.crypto ((plainHeader true).bytes ++ ping) =
        .ok message ∧
      message.content = .ctrl (CtrlMessage.pingWith []) ∧ message.contentType = .ctrl ∧
      ¬Resends Ann.Sample.crypto message) ∧
    ∃ message, decodeMessage Ann.Sample.crypto
        ((plainHeader false).bytes ++ [16, 0, 1, 0, letterD, letterE]) = .ok message ∧
      message.content = .benc [] ∧ message.contentType = .cjdht ∧
      ¬Resends Ann.Sample.crypto message := by
  constructor
  · obtain ⟨ping, written, nonempty⟩ :
        ∃ bytes, (CtrlMessage.pingWith []).serialize = .ok bytes ∧ bytes ≠ [] :=
      ⟨_, rfl, by decide⟩
    have readBack : CtrlMessage.parse ping = .ok (CtrlMessage.pingWith []) := by
      rcases CtrlMessage.parse_of_serialize (CtrlMessage.pingWith_matches []) written with
        ⟨_, same, -⟩ | ⟨_, same, -, read⟩
      · cases same
      · cases same
        exact read
    have typed : decodeDataHeader true ping = .ok (.ctrl, ping) := rfl
    have decoded : decodeContent .ctrl ping true = .ok (.ctrl (CtrlMessage.pingWith [])) := by
      rw [decodeContent, if_neg nonempty, if_neg (by decide), if_pos rfl, readBack]
      rfl
    refine ⟨_, ping, decodeMessage_plain _ typed decoded, rfl, rfl, ?_⟩
    rintro ⟨buffer, _, sent, -⟩
    exact sendBuffer_ctrl _ rfl buffer sent
  · have typed : decodeDataHeader false [16, 0, 1, 0, letterD, letterE] =
        .ok (.cjdht, [letterD, letterE]) := rfl
    have parsed : parse limits [letterD, letterE] = .ok (.dict [], []) := by
      rw [parse, readGeneric_cons _ _ _ _ (Nat.zero_le _), if_neg (by decide), if_pos rfl]
      dsimp only
      rw [readDict_cons, if_pos rfl]
      rfl
    have decoded : decodeContent .cjdht [letterD, letterE] false = .ok (.benc []) := by
      rw [decodeContent, if_neg (by decide), if_pos ⟨rfl, rfl⟩, parsed]
    have received := decodeMessage_plain Ann.Sample.crypto typed decoded
    refine ⟨_, received, rfl, rfl, ?_⟩
    rw [resends_data_iff (plainHeader_writable _ false) rfl (by decide) (by decide) decoded]
    exact fun differs => differs rfl

end RouteServer.Sniff
