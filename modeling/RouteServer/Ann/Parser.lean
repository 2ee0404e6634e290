import RouteServer.Ann.Model
import RouteServer.Core.SchemeCodec

/-!
# The announcement parser

A packet is a header of 120 bytes followed by entities, each behind its own length.
It is accepted when its signature verifies and every part parses; entities of an
unknown type and single-byte pads are passed over. The one part whose parsing can
panic is the encoding scheme.
-/

namespace RouteServer.Ann

open Rust Keys Labels SchemeCodec

/-- `EntityParserError`. -/
inductive EntityParserError where
  | invalidSize
  | insufficientData
  | badData (reason : String)
deriving DecidableEq

/-- `ParserError`. -/
inductive ParserError where
  | cannotParseHeader (reason : String)
  | cannotParseAuthData (reason : String)
  | cannotParseEntity (source : EntityParserError)
deriving DecidableEq

/-- `PacketError`. -/
inductive PacketError where
  | cannotInstantiatePacket
  | invalidPacketSignature
  | cannotParsePacket (source : ParserError)
deriving DecidableEq

/-- `HEADER_SIZE`, from the sizes of its parts. -/
abbrev signSize : Nat := 64
abbrev signKeySize : Nat := 32
abbrev ipSize : Nat := 16
abbrev headerSize : Nat := signSize + signKeySize + ipSize + 8

/-- `AnnouncementPacket`, with the size its constructor checks. -/
structure AnnouncementPacket where
  bytes : List UInt8
  complete : headerSize ≤ bytes.length

/-- A slice of a packet within its header. -/
def AnnouncementPacket.slice (packet : AnnouncementPacket) (offset size : Nat)
    (within : offset + size ≤ headerSize) : Bytes size :=
  ⟨(packet.bytes.drop offset).take size, by
    have complete : headerSize ≤ packet.bytes.length := packet.complete
    rw [List.length_take, List.length_drop]
    omega⟩

/-- `AnnouncementPacket::try_new`. -/
def AnnouncementPacket.tryNew (annData : List UInt8) : Outcome PacketError AnnouncementPacket :=
  if complete : headerSize ≤ annData.length then .ok ⟨annData, complete⟩
  else .err .cannotInstantiatePacket

/-- `get_pub_key_bytes`. -/
def AnnouncementPacket.pubKeyBytes (packet : AnnouncementPacket) : PublicKey :=
  packet.slice signSize signKeySize (by decide)

/-- `AnnouncementPacket::check`. -/
def AnnouncementPacket.check (crypto : Crypto) (packet : AnnouncementPacket) :
    Outcome PacketError Unit :=
  let signature := packet.slice 0 signSize (by decide)
  if crypto.isSignature signature = false then .panicked
  else if crypto.verifyDetached signature (packet.bytes.drop signSize) packet.pubKeyBytes then
    .ok ()
  else .err .invalidPacketSignature

/-- `parse_header`. The version is in the low three bits of the timestamp field and
the reset flag in the fourth. -/
def parseHeader (packet : AnnouncementPacket) : Outcome ParserError AnnouncementHeader :=
  let snodeBytes := packet.slice (signSize + signKeySize) ipSize (by decide)
  let timestamp :=
    bigEndian (packet.slice (signSize + signKeySize + ipSize) 8 (by decide)).bytes
  match Ip6.tryFrom snodeBytes.bytes with
  | none => .err (.cannotParseHeader "failed ip6 creation from received data")
  | some snodeIp => .ok {
      signature := hexEncode (packet.slice 0 signSize (by decide)).bytes
      pubSigningKey := hexEncode packet.pubKeyBytes.bytes
      snodeIp := snodeIp
      version := UInt8.ofNat (timestamp % 8)
      isReset := timestamp / 8 % 2 = 1
      timestamp := UInt64.ofNat (timestamp / 16) }

/-- `parse_sender_auth_data`. -/
def parseSenderAuthData (crypto : Crypto) (pubKeyBytes : PublicKey) :
    Outcome ParserError (PublicKey × Ip6) :=
  match crypto.pkToCurve25519 pubKeyBytes with
  | none => .err (.cannotParseAuthData "conversion from x25519 to curve25519 failed")
  | some nodeEncryptionKey =>
    match Ip6.ofPublicKey crypto nodeEncryptionKey with
    | none => .err (.cannotParseAuthData "failed ip6 creation from received data")
    | some nodeIp6 => .ok (nodeEncryptionKey, nodeIp6)

/-- `parse_encoding_scheme`. -/
def parseEncodingScheme (data : List UInt8) : Outcome EntityParserError Entity :=
  if data.length < 2 then .err .invalidSize
  else do
    let scheme ← (deserializeScheme data).mapErr
      (fun _ => EntityParserError.badData "encoding scheme bytes can't be deserialized")
    return .encodingScheme (hexEncode data) scheme

/-- `parse_version`. -/
def parseVersion (data : List UInt8) : Outcome EntityParserError Entity :=
  if data.length = 2 then .ok (.nodeProtocolVersion (UInt16.ofNat (bigEndian data)))
  else .err .invalidSize

/-- A slice of entity data as a number. -/
def numberAt (data : List UInt8) (offset size : Nat) : Nat :=
  bigEndian ((data.drop offset).take size)

/-- `parse_peer`. -/
def parsePeer (data : List UInt8) : Outcome EntityParserError Entity :=
  if data.length = 30 then
    match Ip6.tryFrom ((data.drop 10).take 16) with
    | none => .err (.badData "failed ip6 creation from peer bytes")
    | some ipv6 => .ok (.peer {
        ipv6 := ipv6
        label := RoutingLabel.tryNew (numberAt data 26 4 % 2 ^ 32) (Nat.mod_lt _ (by decide))
        mtu := UInt32.ofNat (numberAt data 2 2 * 8)
        peerNum := UInt16.ofNat (numberAt data 4 2)
        unused := UInt32.ofNat (numberAt data 6 4)
        encodingFormNumber := UInt8.ofNat (numberAt data 0 1)
        flags := UInt8.ofNat (numberAt data 1 1) })
  else .err .invalidSize

/-- `read_var_int` under the message of its caller. -/
def readSample (width : Nat) (reason : String) (reader : List UInt8) :
    Outcome EntityParserError (Nat × List UInt8) :=
  match readVarInt width reader with
  | .ok read => .ok read
  | .error _ => .err (.badData reason)

/-- The slots of a link state, each array on its own. -/
structure Slots where
  lagSlots : Vector (Option UInt16) linkStateSlots
  dropSlots : Vector (Option UInt16) linkStateSlots
  kbRecvSlots : Vector (Option UInt32) linkStateSlots

/-- One iteration of the loop of `parse_link_state`. -/
def readSlot (slots : Slots) (i : Nat) (reader : List UInt8) :
    Outcome EntityParserError (Slots × List UInt8) := do
  let (lag, reader) ← readSample 16 "can't create log_slots sample from received bytes" reader
  let (drop, reader) ← readSample 16 "can't create drop_slots sample from received bytes" reader
  let (kbRecv, reader) ← readSample 32 "cant create kb_recv_slots sample from received bytes" reader
  return ({
    lagSlots := slots.lagSlots.setIfInBounds i (some (UInt16.ofNat lag))
    dropSlots := slots.dropSlots.setIfInBounds i (some (UInt16.ofNat drop))
    kbRecvSlots := slots.kbRecvSlots.setIfInBounds i (some (UInt32.ofNat kbRecv)) }, reader)

/-- A number takes at least one byte. -/
theorem readSample_length {width value : Nat} {reason : String} {reader rest : List UInt8}
    (read : readSample width reason reader = .ok (value, rest)) : rest.length < reader.length := by
  rw [readSample] at read
  split at read
  · next found =>
    cases read
    exact readVarInt_length found
  · cases read

/-- A slot takes at least one byte. -/
theorem readSlot_length {slots next : Slots} {i : Nat} {reader rest : List UInt8}
    (read : readSlot slots i reader = .ok (next, rest)) : rest.length < reader.length := by
  simp only [readSlot, Outcome.bind_ok_iff, Prod.exists] at read
  obtain ⟨_, afterLag, lag, _, afterDrop, drop, _, afterKb, kb, same⟩ := read
  cases same
  exact (readSample_length kb).trans ((readSample_length drop).trans (readSample_length lag))

/-- The loop of `parse_link_state`: samples fill the slots in a circle. -/
def readSlots (slots : Slots) (i : Nat) (reader : List UInt8) : Outcome EntityParserError Slots :=
  if reader.isEmpty then .ok slots
  else match _read : readSlot slots i reader with
    | .ok (slots, rest) => readSlots slots ((i + 1) % linkStateSlots) rest
    | .err fault => .err fault
    | .panicked => .panicked
termination_by reader.length
decreasing_by exact readSlot_length _read

/-- `parse_link_state`. -/
def parseLinkState (data : List UInt8) : Outcome EntityParserError Entity :=
  match data with
  | [] => .err .insufficientData
  | padsAmount :: rest =>
    match readSlice padsAmount.toNat rest with
    | none => .err .insufficientData
    | some (pads, reader) =>
      if (pads.filter (· = 0)).length ≠ padsAmount.toNat then .err (.badData "non zero pad")
      else do
        let (nodeId, reader) ← readSample 16 "can't create node id from received bytes" reader
        let (start, reader) ← readSample 8 "can't create slots idx from received bytes" reader
        if start ≥ linkStateSlots then .err (.badData "slots index out of bounds")
        else if reader.isEmpty then .err (.badData "empty slots")
        else do
          let empty : Slots := ⟨.replicate _ none, .replicate _ none, .replicate _ none⟩
          let slots ← readSlots empty start reader
          return .linkState {
            nodeId := UInt16.ofNat nodeId
            startingPoint := UInt8.ofNat start
            lagSlots := slots.lagSlots
            dropSlots := slots.dropSlots
            kbRecvSlots := slots.kbRecvSlots }

/-- `parse_entity`. -/
def parseEntity (entityData : List UInt8) : Outcome EntityParserError (Option Entity) :=
  match entityData with
  | [] => .panicked
  | entityType :: parsingData =>
    if entityType = 0 then some <$> parseEncodingScheme parsingData
    else if entityType = 1 then some <$> parsePeer parsingData
    else if entityType = 2 then some <$> parseVersion parsingData
    else if entityType = 3 then some <$> parseLinkState parsingData
    else .ok none

/-- `parse_entities_impl`, with the entities parsed so far. -/
def parseEntitiesImpl (parsedEntities : List Entity) :
    List UInt8 → Outcome EntityParserError (List Entity)
  | [] => .ok parsedEntities
  | entityLength :: rest =>
    if entityLength = 0 then .err (.badData "zero length entity")
    else if entityLength = 1 then parseEntitiesImpl parsedEntities rest
    else if entityLength.toNat - 1 ≤ rest.length then do
      let entity ← parseEntity (rest.take (entityLength.toNat - 1))
      parseEntitiesImpl (parsedEntities ++ entity.toList) (rest.drop (entityLength.toNat - 1))
    else .err (.badData "encoded entity len > entities data remainder size")
termination_by reader => reader.length
decreasing_by
  · simp
  · simp only [List.length_drop, List.length_cons]
    omega

/-- `parse`. -/
def AnnouncementPacket.parse (crypto : Crypto) (packet : AnnouncementPacket) :
    Outcome ParserError Announcement := do
  let header ← parseHeader packet
  let (nodePubKey, nodeIp) ← parseSenderAuthData crypto packet.pubKeyBytes
  let entities ← (parseEntitiesImpl [] (packet.bytes.drop headerSize)).mapErr
    ParserError.cannotParseEntity
  return {
    header := header
    nodePubKey := nodePubKey
    nodeIp := nodeIp
    entities := entities
    hash := crypto.sha512 packet.bytes
    binary := packet.bytes }

/-- What a packet is taken for: its announcement, if it is complete, signed and
parses. -/
def readAnnouncement (crypto : Crypto) (announce : List UInt8) :
    Outcome PacketError Announcement := do
  let packet ← AnnouncementPacket.tryNew announce
  packet.check crypto
  (packet.parse crypto).mapErr PacketError.cannotParsePacket

/-- An announcement holds the packet it was read from, and the hash of it. -/
theorem readAnnouncement_binary {crypto : Crypto} {announce : List UInt8} {ann : Announcement}
    (read : readAnnouncement crypto announce = .ok ann) :
    ann.binary = announce ∧ ann.hash = crypto.sha512 announce := by
  simp only [readAnnouncement, Outcome.bind_ok_iff, Outcome.mapErr_ok_iff] at read
  obtain ⟨packet, new, _, _, ok⟩ := read
  have same : packet.bytes = announce := by
    rw [AnnouncementPacket.tryNew] at new
    split at new
    · cases new
      rfl
    · cases new
  simp only [AnnouncementPacket.parse, Outcome.bind_ok_iff, Prod.exists] at ok
  obtain ⟨header, _, nodePubKey, nodeIp, _, entities, _, built⟩ := ok
  cases built
  exact ⟨same, congrArg crypto.sha512 same⟩

/-! ## Sample packets -/

namespace Sample

/-- The digits of a number to the base of bytes, the last ones of the given count. -/
def bytesOf : Nat → Nat → List UInt8
  | 0, _ => []
  | count + 1, value => bytesOf count (value / 256) ++ [UInt8.ofNat (value % 256)]

/-- As many bytes are made as were asked for. -/
theorem length_bytesOf (count value : Nat) : (bytesOf count value).length = count := by
  induction count generalizing value with
  | zero => rfl
  | succ count inductionHypothesis =>
    rw [bytesOf, List.length_append, inductionHypothesis, List.length_singleton]

/-- A hash or a signature, by its two halves. -/
def halves (first second : Nat) : Bytes 64 :=
  ⟨bytesOf 32 first ++ bytesOf 32 second, by
    rw [List.length_append, length_bytesOf, length_bytesOf]⟩

/-- The key under which a node signs. -/
def signingKey : List UInt8 :=
  bytesOf 32 0x8c967db58933a11f8b27077c285610b56fbeea732b3bebc8c986326eaeebf4ab

/-- The same key as an encryption key. -/
def encryptionKey : PublicKey :=
  ⟨bytesOf 32 0x7ba46be67caca3d47d5a0c00fd2e256fb3e5be9e23aa4fd405a8b5c8c7cd8f26,
    length_bytesOf 32 _⟩

/-- The address of the node. -/
def nodeIp : Ip6 := ⟨bytesOf 16 0xfc3dfff8e00441d76169d0a0a844569b, by decide +kernel⟩

/-- A packet of the node, by its signature, the field of its timestamp and the bytes of
its entities. -/
def packet (signature : Bytes 64) (stamp : Nat) (entities : List UInt8) : List UInt8 :=
  signature.bytes ++ signingKey ++ bytesOf 16 0xfc00000000000000000000000000dead ++
    bytesOf 8 stamp ++ entities

/-- A reset that states an encoding scheme and no version. -/
def resetWithoutVersion : List UInt8 :=
  packet (halves
      0xfb8cdbd8e809ccdc583e186f631d328effc7a983d9a47e7f4c38ff7934e080aa
      0x253e59f3bc79b7eceb1af61faf487be32f317cb3bae418973bea9d9d28d42200)
    0x174876e80009
    (bytesOf 7 0x07006114458100)

/-- A reset with scheme and version, and a peer at `fc00::1` under the number 1. -/
def resetWithPeer : List UInt8 :=
  packet (halves
      0x8b7b8cb1b90f766acddf56432b3e6218eeb56b5e2dcf128eb3d9ae380d6e3ca7
      0x906500a33d02f87baf034a0d53647cccab986b9e734476060a00b098873b150f)
    0x174876e80009
    (bytesOf 11 0x0700611445810004020014 ++
      bytesOf 32 0x2001000000bb000100000000fc00000000000000000000000000000100000013)

/-- A second later: a peer at `fc00::2` under the number 1. -/
def newPeer : List UInt8 :=
  packet (halves
      0x9c17d717d733bdf004e68abbf5b09d5990552ab73f9a33b7290c49080f930003
      0xed9cfbb75673030b744dd0017c9ee767b43714c83cc3da3fac6c6ffddd83d209)
    0x174876e83e81
    (bytesOf 32 0x2001000000bb000100000000fc00000000000000000000000000000200000013)

/-- Another second later: no entity at all. -/
def keepAlive : List UInt8 :=
  packet (halves
      0x02b5b719e9005c8a9d06d68c50437e72ec18d13fb448b1a076998c5e4dbd6d55
      0xc97579fd4f95832e705f7fa28ce53cae08ecac2544a090f6197901769ce5180e)
    0x174876e87d01
    []

/-- The hash of the encryption key. -/
def keyHash : Digest :=
  halves
    0x55c1324edade8bf3cb464068512606fcf5ed309854467d6a9a775bf8f42ab6b5
    0xd9d4cafa8f5d92217c9dcd35bb2e0b58ad2b6c332ea9bd4872f9f66a5192193f

/-- The hash over the announcements of the node after the reset with a peer. -/
def resetState : Digest :=
  halves
    0x39dd835f8f8241cd6bb8405393d48217a0585feb12c08454711051c60a8270b8
    0x53f190c78ac04981af8d02955b061054ec9810592a858f39dc36cf9382975cb6

/-- The hash after the new peer. -/
def newPeerState : Digest :=
  halves
    0xf2bff81232819e416ffefe1a1eb67fab4a141ac35229517a854e67ef93a8a28b
    0xc6703f8b0693b44769100631588824bb1678dbedf543183d09a4061e74397871

/-- The hashes of the packets, and of what else is hashed when they are handled. -/
def hashes : List (List UInt8 × Digest) := [
  (encryptionKey.bytes, keyHash),
  (keyHash.bytes, halves
    0xfc3dfff8e00441d76169d0a0a844569be78972a903931eeccf17e49a160d0815
    0xdeb690af5f93ce33a69e6b8c676c8a8431d83db9b1aa5be5855190f22cfb3827),
  (resetWithoutVersion, halves
    0x469713d7b6246b3bdc143776f0919e291ba0b42e7767830cb0e91426f3657f54
    0x137dc20a5c0aaa4f42144b2142afd4d94d202de16da1b22746d1e81f84a16b5d),
  (resetWithPeer, halves
    0x76d060df35fd6c868cad0247d08370d6ce5506f513bd7b47a0fd07c0ec12b8a3
    0xfbd15013a2bcf6547342640fab77ce8268ea495fde42e93e1e533057fa744764),
  (newPeer, halves
    0x40b1178b84a5d48ac2eadfcf417c09bd35b7e888652baba5c10630c475304ffe
    0x103824c2952292b52ababdaf4254f199c38bbcf59d446eab2a4d4bcd0c39ab65),
  (keepAlive, halves
    0x7b22749a6dfb021da78ef4b526ebc16f82cd9cb29a5ab9d24bf675211357ecda
    0x461734aaa3cc15d192c1f5ba9faef6812880208cbbe08bb92dbd9fe384f77253),
  (List.replicate 64 0 ++ resetWithPeer, resetState),
  (resetState.bytes ++ newPeer, newPeerState),
  (newPeerState.bytes ++ newPeer, halves
    0xea3419dd05a24fba0255e25c0fe4de10eb85ef00aed9fdf6c4435a89570ded8f
    0x1781c400d693a01f76bd0ab2e3b9497af68bd04a1ffab47aab039fa3da36ec28),
  (newPeerState.bytes ++ keepAlive, halves
    0x79668f4b82cb8b698499e383492e94368bb97919cbc2391d8975dcd4c249b965
    0xdaebd0bda390cfcd95dfadcfacecaa3bed4ecfd4e4efb424c064d8b13db60b9a)]

/-- The cryptographic library, as far as the packets need it. -/
def crypto : Crypto where
  sha512 := fun bytes => match hashes.find? (fun entry => entry.1 = bytes) with
    | some entry => entry.2
    | none => halves 0 0
  isSignature := fun signature => (signature.bytes.getLast?.getD 0).toNat < 32
  verifyDetached := fun signature signed key => key.bytes = signingKey ∧
    signature.bytes ++ signed ∈ [resetWithoutVersion, resetWithPeer, newPeer, keepAlive]
  pkToCurve25519 := fun key => if key.bytes = signingKey then some encryptionKey else none

example : (readAnnouncement crypto newPeer).toOption.map Announcement.nodeIp = some nodeIp := by
  decide +kernel

end Sample

end RouteServer.Ann
