import RouteServer.Bytes.Tlv

/-!
# Peers and keys in a DNS record

A record of a seed lists peers, the key of a supernode and a peer identifier, each as an
item of a type, a length and a value. It is written into a writer that prepends, so every
value is written last field first and the peers in reverse. What is read back item by
item is the same record with its peers in the same order. The length of an item is one
byte, and the identifier alone could be too long for it, so the writer limits it.

Flow information and scope of an address are not written. Addresses are the octets they
consist of.
-/

namespace RouteServer.Bytes

open Rust

/-- `SocketAddr`. -/
inductive SocketAddr where
  | v4 (ip : Rust.Bytes 4) (port : UInt16)
  | v6 (ip : Rust.Bytes 16) (port : UInt16) (flowinfo scopeId : UInt32)
deriving DecidableEq

/-- `is_ipv6`. -/
def isIpv6 : SocketAddr → Bool
  | .v4 _ _ => false
  | .v6 _ _ _ _ => true

namespace SocketAddr

/-- `port`. -/
def port : SocketAddr → UInt16
  | v4 _ port => port
  | v6 _ port _ _ => port

/-- `set_port`. -/
def setPort (port : UInt16) : SocketAddr → SocketAddr
  | v4 ip _ => v4 ip port
  | v6 ip _ flowinfo scopeId => v6 ip port flowinfo scopeId

/-- Flow information and scope are zero. -/
def Plain : SocketAddr → Prop
  | v4 _ _ => True
  | v6 _ _ flowinfo scopeId => flowinfo = 0 ∧ scopeId = 0

end SocketAddr

/-- Types of items. -/
def snode : UInt8 := 0x01
def udp4Peer : UInt8 := 0x02
def udp6Peer : UInt8 := 0x03
def peerId : UInt8 := 0x04

/-- `PeerID`. -/
structure PeerID where
  id : List UInt8
deriving DecidableEq

/-- `CjdnsPeer`. -/
structure CjdnsPeer where
  address : SocketAddr
  pubkey : Rust.Bytes 32
  login : UInt16
  password : Rust.Bytes 8
  version : UInt32
deriving DecidableEq

/-- `CjdnsTxtRecord`. -/
structure CjdnsTxtRecord where
  peers : List CjdnsPeer := []
  snodePubkey : Option (Rust.Bytes 32) := none
  peerId : Option PeerID := none
  unknownRecords : List (UInt8 × List UInt8) := []
deriving DecidableEq

/-- `Read::read_exact` into an array of a fixed size. -/
def readExact (size : Nat) (r : List UInt8) : Except Report (Rust.Bytes size × List UInt8) :=
  if enough : size ≤ r.length then
    .ok (⟨r.take size, List.length_take_of_le enough⟩, r.drop size)
  else .error (.io .unexpectedEof)

/-- `read_var_int` under the `?` of its callers. -/
def readNumber (width : Nat) (r : List UInt8) : Except Report (Nat × List UInt8) :=
  (readVarInt width r).mapError .varInt

section

variable {σ : Type} [RWrite σ]

/-- The length of what has been written since a length was taken, its own byte and the type,
in front of which they are written. -/
def writeHead (len0 : Nat) (code : UInt8) (w : σ) : Outcome IoError σ := do
  let written ← Outcome.checkedSub (RWrite.len w) len0
  let w ← writeU8 w (UInt8.ofNat (written + 2))
  writeU8 w code

/-- `PeerID::encode`. -/
def PeerID.encode (self : PeerID) (w : σ) : Outcome Report σ :=
  if self.id.length > 64 then .err (.message "Invalid PeerID, max length 64")
  else Outcome.mapErr .io do
    let len0 := RWrite.len w
    let w ← writeAll w self.id
    writeHead len0 Bytes.peerId w

/-- The octets of the address, and the type of an item for it. -/
def writeAddress (address : SocketAddr) (w : σ) : Outcome IoError (σ × UInt8) :=
  match address with
  | .v4 ip _ => do
    let w ← writeAll w ip.bytes
    return (w, udp4Peer)
  | .v6 ip _ _ _ => do
    let w ← writeAll w ip.bytes
    return (w, udp6Peer)

/-- `CjdnsPeer::encode`. -/
def CjdnsPeer.encode (self : CjdnsPeer) (w : σ) : Outcome Report σ :=
  Outcome.mapErr .io do
    let len0 := RWrite.len w
    let w ← writeVarInt self.version.toNat w
    let w ← writeAll w self.pubkey.bytes
    let w ← writeAll w self.password.bytes
    let w ← writeVarInt self.login.toNat w
    let w ← writeBe 2 w self.address.port.toNat
    let (w, code) ← writeAddress self.address w
    writeHead len0 code w

end

/-- `PeerID::decode`. -/
def PeerID.decode (r : List UInt8) : PeerID := ⟨r⟩

/-- The address without its port, by the type of the item. -/
def readAddress (code : UInt8) (r : List UInt8) : Except Report (SocketAddr × List UInt8) :=
  if code = udp4Peer then do
    let (x, r) ← readExact 4 r
    return (.v4 x 0, r)
  else if code = udp6Peer then do
    let (x, r) ← readExact 16 r
    return (.v6 x 0 0 0, r)
  else .error (.message ("Unexpected code: " ++ toString code.toNat))

/-- `CjdnsPeer::decode`. -/
def CjdnsPeer.decode (code : UInt8) (r : List UInt8) : Except Report CjdnsPeer := do
  let (sa, r) ← readAddress code r
  let (port, r) ← readExact 2 r
  let (login, r) ← readNumber 16 r
  let (password, r) ← readExact 8 r
  let (pubkey, r) ← readExact 32 r
  let (version, _) ← readNumber 32 r
  return {
    address := sa.setPort (UInt16.ofNat (bigEndian port.bytes))
    login := UInt16.ofNat login
    password, pubkey
    version := UInt32.ofNat version }

namespace CjdnsTxtRecord

/-- `parse_snode`. -/
def parseSnode (self : CjdnsTxtRecord) (data : List UInt8) : Except Report CjdnsTxtRecord := do
  let (snode, _) ← readExact 32 data
  return { self with snodePubkey := some snode }

/-- `parse_peerid`. -/
def parsePeerid (self : CjdnsTxtRecord) (data : List UInt8) : CjdnsTxtRecord :=
  { self with peerId := some (PeerID.decode data) }

/-- `from_tlv`. -/
def fromTlv (self : CjdnsTxtRecord) (item : UInt8 × List UInt8) :
    Except Report CjdnsTxtRecord :=
  let (t, data) := item
  if t = Bytes.peerId then .ok (self.parsePeerid data)
  else if t = snode then self.parseSnode data
  else if t = udp4Peer ∨ t = udp6Peer then do
    let peer ← CjdnsPeer.decode t data
    return { self with peers := self.peers ++ [peer] }
  else .ok { self with unknownRecords := self.unknownRecords ++ [(t, data)] }

/-- `decode_bin`. -/
def decodeBin (bytes : List UInt8) : Except Report CjdnsTxtRecord := do
  let items ← parseTlv bytes
  items.foldlM fromTlv {}

section

variable {σ : Type} [RWrite σ]

/-- `write_snode`. -/
def writeSnode (self : CjdnsTxtRecord) (w : σ) : Outcome Report σ :=
  match self.snodePubkey with
  | some key => Outcome.mapErr .io do
    let w ← writeAll w key.bytes
    writeAll w [snode, UInt8.ofNat (key.bytes.length + 2)]
  | none => .ok w

/-- `write_peerid`. -/
def writePeerid (self : CjdnsTxtRecord) (w : σ) : Outcome Report σ :=
  match self.peerId with
  | some pid => pid.encode w
  | none => .ok w

/-- The loop over the peers. -/
def writePeers : List CjdnsPeer → σ → Outcome Report σ
  | [], w => .ok w
  | p :: rest, w => do
    let w ← p.encode w
    writePeers rest w

/-- `encode_bin`. -/
def encodeBin (self : CjdnsTxtRecord) (w : σ) : Outcome Report σ := do
  let w ← writePeers self.peers.reverse w
  let w ← self.writeSnode w
  self.writePeerid w

end

end CjdnsTxtRecord

/-- The item for a peer identifier. -/
def PeerID.item (self : PeerID) : UInt8 × List UInt8 := (peerId, self.id)

/-- The item for a key. -/
def snodeItem (key : Rust.Bytes 32) : UInt8 × List UInt8 := (snode, key.bytes)

/-- The octets of an address. -/
def SocketAddr.octets : SocketAddr → List UInt8
  | v4 ip _ => ip.bytes
  | v6 ip _ _ _ => ip.bytes

/-- The type of an item for an address. -/
def SocketAddr.code : SocketAddr → UInt8
  | v4 _ _ => udp4Peer
  | v6 _ _ _ _ => udp6Peer

/-- An address has the code of its family. -/
theorem SocketAddr.code_cases (address : SocketAddr) :
    address.code = udp4Peer ∨ address.code = udp6Peer := by
  cases address with
  | v4 ip port => exact .inl rfl
  | v6 ip port flowinfo scopeId => exact .inr rfl

/-- The item for a peer. -/
def CjdnsPeer.item (self : CjdnsPeer) : UInt8 × List UInt8 :=
  (self.address.code, self.address.octets ++ toBe 2 self.address.port.toNat ++
    varInt self.login.toNat ++ self.password.bytes ++ self.pubkey.bytes ++
      varInt self.version.toNat)

/-- The items of a record, in the order in which they are read. -/
def CjdnsTxtRecord.items (self : CjdnsTxtRecord) : List (UInt8 × List UInt8) :=
  self.peerId.toList.map PeerID.item ++ self.snodePubkey.toList.map snodeItem ++
    self.peers.map CjdnsPeer.item

section

variable {σ : Type} [RWrite σ] {holds : σ → List UInt8 → Prop} {w : σ} {bytes : List UInt8}

/-- The head of an item is written in front of its value. -/
theorem Prepends.writeHead (prepends : Prepends holds) {value : List UInt8}
    (held : holds w (value ++ bytes)) (code : UInt8) :
    ∃ next, writeHead bytes.length code w = .ok next ∧
      holds next (wire (code, value) ++ bytes) := by
  obtain ⟨middle, length, holdsLength⟩ :=
    prepends.writeAll held [UInt8.ofNat (value.length + 2)]
  obtain ⟨next, type, holdsAll⟩ := prepends.writeAll holdsLength [code]
  refine ⟨next, ?_, holdsAll⟩
  have written : (Outcome.checkedSub (RWrite.len w) bytes.length : Outcome IoError Nat) =
      .ok value.length := by
    rw [prepends.len held, List.length_append, Outcome.checkedSub_of_le (Nat.le_add_left _ _),
      Nat.add_sub_cancel]
  rw [Bytes.writeHead, written]
  simp only [Outcome.ok_bind, writeU8, length]
  exact type

/-- An identifier is written as its record, if it is short enough. -/
theorem Prepends.peerId_encode (prepends : Prepends holds) (held : holds w bytes)
    {self : PeerID} (short : self.id.length ≤ 64) :
    ∃ next, self.encode w = .ok next ∧ holds next (wire self.item ++ bytes) := by
  obtain ⟨middle, written, holdsId⟩ := prepends.writeAll held self.id
  obtain ⟨next, headed, holdsAll⟩ := prepends.writeHead holdsId peerId
  refine ⟨next, ?_, holdsAll⟩
  rw [PeerID.encode, if_neg (Nat.not_lt.mpr short)]
  simp only [written, Outcome.ok_bind, prepends.len held, headed, Outcome.mapErr]

/-- An address is written as its octets, from the last to the first. -/
theorem Prepends.writeAddress (prepends : Prepends holds) (held : holds w bytes)
    (address : SocketAddr) :
    ∃ next, writeAddress address w = .ok (next, address.code) ∧
      holds next (address.octets ++ bytes) := by
  cases address with
  | v4 ip port =>
    obtain ⟨next, written, after⟩ := prepends.writeAll held ip.bytes
    exact ⟨next, by rw [Bytes.writeAddress, written]; rfl, after⟩
  | v6 ip port flowinfo scopeId =>
    obtain ⟨next, written, after⟩ := prepends.writeAll held ip.bytes
    exact ⟨next, by rw [Bytes.writeAddress, written]; rfl, after⟩

/-- A peer is written as its item, the last field first. -/
theorem Prepends.peer_encode (prepends : Prepends holds) (held : holds w bytes)
    (self : CjdnsPeer) :
    ∃ next, self.encode w = .ok next ∧ holds next (wire self.item ++ bytes) := by
  obtain ⟨w₁, version, held₁⟩ := prepends.writeVarInt held self.version.toNat
  obtain ⟨w₂, pubkey, held₂⟩ := prepends.writeAll held₁ self.pubkey.bytes
  obtain ⟨w₃, password, held₃⟩ := prepends.writeAll held₂ self.password.bytes
  obtain ⟨w₄, login, held₄⟩ := prepends.writeVarInt held₃ self.login.toNat
  obtain ⟨w₅, port, held₅⟩ := prepends.writeAll held₄ (toBe 2 self.address.port.toNat)
  obtain ⟨w₆, address, held₆⟩ := prepends.writeAddress held₅ self.address
  simp only [← List.append_assoc] at held₆
  obtain ⟨next, headed, holdsAll⟩ := prepends.writeHead held₆ self.address.code
  refine ⟨next, ?_, holdsAll⟩
  rw [CjdnsPeer.encode]
  simp only [version, pubkey, password, login, writeBe, port, address, Outcome.ok_bind,
    prepends.len held, headed, Outcome.mapErr]

/-- Credentials are written from the last to the first, by induction on them, so they end up in
order. -/
theorem Prepends.writePeers (prepends : Prepends holds) (held : holds w bytes)
    (peers : List CjdnsPeer) :
    ∃ next, CjdnsTxtRecord.writePeers peers w = .ok next ∧
      holds next ((peers.reverse.map CjdnsPeer.item).flatMap wire ++ bytes) := by
  induction peers generalizing w bytes with
  | nil => exact ⟨w, rfl, held⟩
  | cons peer rest inductionHypothesis =>
    obtain ⟨middle, first, heldFirst⟩ := prepends.peer_encode held peer
    obtain ⟨next, others, heldAll⟩ := inductionHypothesis heldFirst
    refine ⟨next, by rw [CjdnsTxtRecord.writePeers, first]; exact others, ?_⟩
    simpa using heldAll

/-- The key of the supernode is a record of its own, if there is one. -/
theorem Prepends.writeSnode (prepends : Prepends holds) (held : holds w bytes)
    (self : CjdnsTxtRecord) :
    ∃ next, self.writeSnode w = .ok next ∧
      holds next ((self.snodePubkey.toList.map snodeItem).flatMap wire ++ bytes) := by
  rw [CjdnsTxtRecord.writeSnode]
  cases self.snodePubkey with
  | none => exact ⟨w, rfl, held⟩
  | some key =>
    obtain ⟨middle, written, heldKey⟩ := prepends.writeAll held key.bytes
    obtain ⟨next, headed, heldAll⟩ :=
      prepends.writeAll heldKey [snode, UInt8.ofNat (key.bytes.length + 2)]
    refine ⟨next, ?_, by simpa [wire, snodeItem] using heldAll⟩
    simp only [written, Outcome.ok_bind, headed, Outcome.mapErr]

/-- The identifier is a record of its own, if there is one. -/
theorem Prepends.writePeerid (prepends : Prepends holds) (held : holds w bytes)
    {self : CjdnsTxtRecord} (short : ∀ pid ∈ self.peerId, pid.id.length ≤ 64) :
    ∃ next, self.writePeerid w = .ok next ∧
      holds next ((self.peerId.toList.map PeerID.item).flatMap wire ++ bytes) := by
  rw [CjdnsTxtRecord.writePeerid]
  cases own : self.peerId with
  | none => exact ⟨w, rfl, held⟩
  | some pid =>
    obtain ⟨next, written, heldAll⟩ := prepends.peerId_encode held (short pid own)
    exact ⟨next, written, by simpa using heldAll⟩

/-- A record is written as its items. -/
theorem Prepends.encodeBin (prepends : Prepends holds) (held : holds w bytes)
    {self : CjdnsTxtRecord} (short : ∀ pid ∈ self.peerId, pid.id.length ≤ 64) :
    ∃ next, self.encodeBin w = .ok next ∧ holds next (self.items.flatMap wire ++ bytes) := by
  obtain ⟨w₁, peers, held₁⟩ := prepends.writePeers held self.peers.reverse
  obtain ⟨w₂, key, held₂⟩ := prepends.writeSnode held₁ self
  obtain ⟨next, pid, heldAll⟩ := prepends.writePeerid held₂ short
  refine ⟨next, ?_, ?_⟩
  · rw [CjdnsTxtRecord.encodeBin, peers]
    simp only [Outcome.ok_bind, key, pid]
  · rw [List.reverse_reverse] at heldAll
    simpa only [CjdnsTxtRecord.items, List.flatMap_append, List.append_assoc] using heldAll

/-- A record whose peer identifier is too long is refused. -/
theorem Prepends.encodeBin_long (prepends : Prepends holds) (held : holds w bytes)
    {self : CjdnsTxtRecord} {pid : PeerID} (own : self.peerId = some pid)
    (long : 64 < pid.id.length) :
    self.encodeBin w = .err (.message "Invalid PeerID, max length 64") := by
  obtain ⟨w₁, peers, held₁⟩ := prepends.writePeers held self.peers.reverse
  obtain ⟨w₂, key, _⟩ := prepends.writeSnode held₁ self
  rw [CjdnsTxtRecord.encodeBin, peers]
  simp only [Outcome.ok_bind, key, CjdnsTxtRecord.writePeerid, own, PeerID.encode, if_pos long]

end

/-- As many bytes as are asked for are read and the others left. -/
theorem readExact_append {size : Nat} (array : Rust.Bytes size) (rest : List UInt8) :
    readExact size (array.bytes ++ rest) = .ok (array, rest) := by
  obtain ⟨bytes, sized⟩ := array
  rw [readExact, dif_pos (by simp [sized])]
  simp [List.take_left' sized, List.drop_left' sized]

/-- A number that fits is read back from its encoding. -/
theorem readNumber_append (width : Nat) {t : Nat} (long : t < 2 ^ 64) (small : t < 2 ^ width)
    (rest : List UInt8) : readNumber width (varInt t ++ rest) = .ok (t, rest) := by
  rw [readNumber, readVarInt_varInt long small]
  rfl

/-- The octets of an address are read back, without its port. -/
theorem readAddress_append {address : SocketAddr} (plain : address.Plain) (rest : List UInt8) :
    readAddress address.code (address.octets ++ rest) = .ok (address.setPort 0, rest) := by
  cases address with
  | v4 ip port =>
    rw [readAddress, show SocketAddr.code (.v4 ip port) = udp4Peer from rfl, if_pos rfl,
      SocketAddr.octets, readExact_append]
    rfl
  | v6 ip port flowinfo scopeId =>
    obtain ⟨rfl, rfl⟩ := plain
    rw [readAddress, show SocketAddr.code (.v6 ip port 0 0) = udp6Peer from rfl,
      if_neg (show udp6Peer ≠ udp4Peer by decide), if_pos rfl, SocketAddr.octets,
      readExact_append]
    rfl

/-- The port of an address can be taken off and put back. -/
theorem setPort_own (address : SocketAddr) :
    (address.setPort 0).setPort address.port = address := by
  cases address <;> rfl

/-- A peer is read back from its item. -/
theorem CjdnsPeer.decode_item {peer : CjdnsPeer} (plain : peer.address.Plain) :
    decode peer.item.1 peer.item.2 = .ok peer := by
  have port : peer.address.port.toNat < 256 ^ 2 := peer.address.port.toNat_lt
  have portRead : ∀ rest, readExact 2 (toBe 2 peer.address.port.toNat ++ rest) =
      .ok (⟨toBe 2 peer.address.port.toNat, toBe_length 2 _⟩, rest) := readExact_append ⟨_, _⟩
  have login := peer.login.toNat_lt
  have loginRead := readNumber_append 16 (Nat.lt_trans login (by decide)) login
  have version := peer.version.toNat_lt
  -- the version is the last field
  have versionRead := readNumber_append 32 (Nat.lt_trans version (by decide)) version []
  rw [List.append_nil] at versionRead
  simp only [decode, item, List.append_assoc]
  rw [readAddress_append plain]
  simp only [Bind.bind, Except.bind, portRead, loginRead, readExact_append, versionRead,
    Pure.pure, Except.pure, bigEndian_toBe port, UInt16.ofNat_toNat, UInt32.ofNat_toNat,
    setPort_own]

/-- A number of variable length has at most nine bytes. -/
theorem varInt_length_le (t : Nat) : (varInt t).length ≤ 9 := by
  rw [varInt]
  split
  · simp
  · split
    · simp
    · split <;> simp

/-- Credentials take less than the length byte of a record can say. -/
theorem CjdnsPeer.item_short (peer : CjdnsPeer) : Short peer.item := by
  have octets : peer.address.octets.length ≤ 16 := by
    cases peer.address with
    | v4 ip port => exact Nat.le_trans (Nat.le_of_eq ip.sized) (by decide)
    | v6 ip port flowinfo scopeId => exact Nat.le_of_eq ip.sized
  have login := varInt_length_le peer.login.toNat
  have version := varInt_length_le peer.version.toNat
  simp only [Short, item, List.length_append, toBe_length, peer.password.sized,
    peer.pubkey.sized]
  omega

/-- The items of a record fit their length bytes. -/
theorem CjdnsTxtRecord.items_short {self : CjdnsTxtRecord}
    (short : ∀ pid ∈ self.peerId, pid.id.length ≤ 64) : ∀ item ∈ self.items, Short item := by
  intro item listed
  rw [items, List.mem_append, List.mem_append] at listed
  obtain (listed | listed) | listed := listed
  · obtain ⟨pid, own, rfl⟩ := List.mem_map.mp listed
    have bound := short pid (Option.mem_toList.mp own)
    exact Nat.lt_of_le_of_lt (Nat.add_le_add_right bound 2) (by decide)
  · obtain ⟨key, _, rfl⟩ := List.mem_map.mp listed
    rw [Short, snodeItem, key.sized]
    decide
  · obtain ⟨peer, _, rfl⟩ := List.mem_map.mp listed
    exact peer.item_short

/-- Peers are read back in their order, behind those already read. -/
theorem CjdnsTxtRecord.foldlM_peers {peers : List CjdnsPeer}
    (plain : ∀ peer ∈ peers, peer.address.Plain) (self : CjdnsTxtRecord) :
    (peers.map CjdnsPeer.item).foldlM fromTlv self =
      .ok { self with peers := self.peers ++ peers } := by
  induction peers generalizing self with
  | nil =>
    rw [List.append_nil]
    rfl
  | cons peer rest inductionHypothesis =>
    obtain ⟨first, others⟩ := List.forall_mem_cons.mp plain
    have read : fromTlv self peer.item = .ok { self with peers := self.peers ++ [peer] } := by
      have code : peer.item.1 = udp4Peer ∨ peer.item.1 = udp6Peer := peer.address.code_cases
      have noOther : ∀ t, t ≠ udp4Peer → t ≠ udp6Peer → peer.item.1 ≠ t := by
        rintro _ notV4 notV6 rfl
        exact code.elim notV4 notV6
      rw [fromTlv, peer.decode_item first, if_neg (noOther Bytes.peerId (by decide) (by decide)),
        if_neg (noOther snode (by decide) (by decide)), if_pos code]
      rfl
    rw [List.map_cons, List.foldlM_cons, read]
    refine (inductionHypothesis others _).trans ?_
    rw [List.append_assoc, List.singleton_append]

/-- A record is read back from its items. -/
theorem CjdnsTxtRecord.foldlM_items {self : CjdnsTxtRecord} (known : self.unknownRecords = [])
    (plain : ∀ peer ∈ self.peers, peer.address.Plain) :
    self.items.foldlM fromTlv {} = .ok self := by
  obtain ⟨peers, key, pid, unknown⟩ := self
  cases known
  have pidRead : (pid.toList.map PeerID.item).foldlM fromTlv {} =
      .ok ({ peerId := pid } : CjdnsTxtRecord) := by
    cases pid <;> rfl
  have keyRead : (key.toList.map snodeItem).foldlM fromTlv { peerId := pid } =
      .ok ({ snodePubkey := key, peerId := pid } : CjdnsTxtRecord) := by
    cases key with
    | none => rfl
    | some key =>
      have read := readExact_append key []
      rw [List.append_nil] at read
      simp only [Option.toList_some, List.map_cons, List.map_nil, snodeItem, List.foldlM_cons,
        fromTlv, parseSnode, read]
      rfl
  rw [items, List.foldlM_append, List.foldlM_append, pidRead]
  refine (congrArg (· >>= _) keyRead).trans ?_
  exact foldlM_peers plain _

/-- What a record writes into an empty message is decoded as the same record. -/
theorem CjdnsTxtRecord.encodeBin_read_back {self : CjdnsTxtRecord} {message : Message}
    (holds : message.Holds []) (known : self.unknownRecords = [])
    (short : ∀ pid ∈ self.peerId, pid.id.length ≤ 64)
    (plain : ∀ peer ∈ self.peers, peer.address.Plain) :
    ∃ written, self.encodeBin message = .ok written ∧ decodeBin written.asVec = .ok self := by
  obtain ⟨written, encoded, heldAll⟩ := message_prepends.encodeBin holds short
  refine ⟨written, encoded, ?_⟩
  rw [heldAll.asVec, List.append_nil, CjdnsTxtRecord.decodeBin,
    parseTlv_flatMap (self.items_short short)]
  exact self.foldlM_items known plain

/-- Addresses are read without flow information and scope. -/
theorem readAddress_plain {code : UInt8} {r rest : List UInt8} {address : SocketAddr}
    (read : readAddress code r = .ok (address, rest)) : address.Plain := by
  rw [readAddress] at read
  split_ifs at read
  · obtain ⟨⟨octets, _⟩, _, done⟩ := (except_bind_ok_iff _ _ _).mp read
    cases done
    trivial
  · obtain ⟨⟨octets, _⟩, _, done⟩ := (except_bind_ok_iff _ _ _).mp read
    cases done
    exact ⟨rfl, rfl⟩

/-- The port has no part in whether an address is plain. -/
theorem SocketAddr.Plain.setPort {address : SocketAddr} (plain : address.Plain) (port : UInt16) :
    (address.setPort port).Plain := by
  cases address with
  | v4 ip own => trivial
  | v6 ip own flowinfo scopeId => exact plain

/-- Credentials that were read have a plain address, since neither scope nor flow is written. -/
theorem CjdnsPeer.decode_plain {code : UInt8} {r : List UInt8} {peer : CjdnsPeer}
    (read : decode code r = .ok peer) : peer.address.Plain := by
  rw [decode] at read
  obtain ⟨⟨address, _⟩, addressRead, read⟩ := (except_bind_ok_iff _ _ _).mp read
  obtain ⟨⟨port, _⟩, _, read⟩ := (except_bind_ok_iff _ _ _).mp read
  obtain ⟨⟨login, _⟩, _, read⟩ := (except_bind_ok_iff _ _ _).mp read
  obtain ⟨⟨password, _⟩, _, read⟩ := (except_bind_ok_iff _ _ _).mp read
  obtain ⟨⟨pubkey, _⟩, _, read⟩ := (except_bind_ok_iff _ _ _).mp read
  obtain ⟨⟨version, _⟩, _, done⟩ := (except_bind_ok_iff _ _ _).mp read
  cases done
  exact (readAddress_plain addressRead).setPort _

/-- One more record adds at most credentials with a plain address. -/
theorem CjdnsTxtRecord.fromTlv_plain {self next : CjdnsTxtRecord} {item : UInt8 × List UInt8}
    (read : self.fromTlv item = .ok next) (plain : ∀ peer ∈ self.peers, peer.address.Plain) :
    ∀ peer ∈ next.peers, peer.address.Plain := by
  obtain ⟨t, data⟩ := item
  simp only [fromTlv] at read
  split_ifs at read
  · cases read
    exact plain
  · obtain ⟨⟨key, _⟩, _, done⟩ := (except_bind_ok_iff _ _ _).mp read
    cases done
    exact plain
  · obtain ⟨last, lastRead, done⟩ := (except_bind_ok_iff _ _ _).mp read
    cases done
    intro peer member
    rcases List.mem_append.mp member with earlier | new
    · exact plain peer earlier
    · rw [List.mem_singleton.mp new]
      exact CjdnsPeer.decode_plain lastRead
  · cases read
    exact plain

/-- All addresses that are decoded are without flow information and scope. -/
theorem CjdnsTxtRecord.decodeBin_plain {bytes : List UInt8} {record : CjdnsTxtRecord}
    (read : decodeBin bytes = .ok record) : ∀ peer ∈ record.peers, peer.address.Plain := by
  have loop : ∀ (items : List (UInt8 × List UInt8)) (self : CjdnsTxtRecord),
      items.foldlM fromTlv self = .ok record → (∀ peer ∈ self.peers, peer.address.Plain) →
      ∀ peer ∈ record.peers, peer.address.Plain := by
    intro items
    induction items with
    | nil =>
      intro self done plain
      cases done
      exact plain
    | cons item rest inductionHypothesis =>
      intro self done plain
      rw [List.foldlM_cons] at done
      obtain ⟨next, first, others⟩ := (except_bind_ok_iff _ _ _).mp done
      exact inductionHypothesis next others (fromTlv_plain first plain)
  obtain ⟨items, _, done⟩ := (except_bind_ok_iff _ _ _).mp read
  exact loop items {} done (by simp)

/-- What a record without unknown items writes into an empty message, however that message
came to be empty, is decoded as the same record, provided that its peer identifier has at
most 64 bytes and its addresses neither flow information nor a scope. A longer peer
identifier is refused, whatever the message holds.

Proof: the message is empty because the calls before refine the list. The writer then puts the
items in front, from the last to the first, and the reader takes them off in order. -/
theorem encodeBin_decodes (chunkSz : Nat) (calls : List Message.Call)
    (given : List Message.Answer) (message : Message)
    (made : Machine.answers (ε := IoError) Message.call calls (Message.withChunkSize chunkSz) =
      .ok (given, message)) (record : CjdnsTxtRecord) :
    (message.asVec = [] → record.unknownRecords = [] →
      (∀ pid ∈ record.peerId, pid.id.length ≤ 64) →
      (∀ peer ∈ record.peers, peer.address.Plain) →
      ∃ written, record.encodeBin message = .ok written ∧
        CjdnsTxtRecord.decodeBin written.asVec = .ok record) ∧
    ∀ pid ∈ record.peerId, 64 < pid.id.length →
      record.encodeBin message = .err (.message "Invalid PeerID, max length 64") := by
  obtain ⟨last, answered, holds⟩ := Machine.answers_refine Message.call_refines calls
    (Message.holds_withChunkSize chunkSz)
  rw [made] at answered
  cases answered
  constructor
  · intro empty known short plain
    rw [← holds.asVec, empty] at holds
    exact record.encodeBin_read_back holds known short plain
  · intro pid own long
    exact message_prepends.encodeBin_long holds own long

namespace Sample

/-- A peer at an address of sixteen octets. -/
def peerV6 : CjdnsPeer where
  address := .v6 ⟨List.replicate 16 1, by decide⟩ 64512 0 0
  pubkey := ⟨List.replicate 32 2, by decide⟩
  login := 300
  password := ⟨List.replicate 8 3, by decide⟩
  version := 70000

/-- A peer at an address of four octets. -/
def peerV4 : CjdnsPeer where
  address := .v4 ⟨[192, 0, 2, 1], by decide⟩ 443
  pubkey := ⟨List.replicate 32 4, by decide⟩
  login := 5
  password := ⟨List.replicate 8 6, by decide⟩
  version := 22

/-- A record with an identifier of the given length. -/
def seed (length : Nat) : CjdnsTxtRecord where
  peers := [peerV6, peerV4]
  snodePubkey := some ⟨List.replicate 32 7, by decide⟩
  peerId := some ⟨List.replicate length 8⟩

end Sample

/-- A seed with the longest identifier is written and read back, and one character more is refused.
-/
theorem seed_decodes :
    (∃ written, (Sample.seed 64).encodeBin (Message.withChunkSize 512) = .ok written ∧
      CjdnsTxtRecord.decodeBin written.asVec = .ok (Sample.seed 64)) ∧
    (Sample.seed 65).encodeBin (Message.withChunkSize 512) =
      .err (.message "Invalid PeerID, max length 64") := by
  refine ⟨(encodeBin_decodes 512 [] [] (Message.withChunkSize 512) rfl (Sample.seed 64)).1
    rfl rfl ?_ ?_, (encodeBin_decodes 512 [] [] (Message.withChunkSize 512) rfl
      (Sample.seed 65)).2 ⟨List.replicate 65 8⟩ rfl (by decide)⟩
  · rintro _ ⟨⟩
    decide
  · rintro _ (_ | ⟨_, _ | ⟨_, ⟨⟩⟩⟩)
    · exact ⟨rfl, rfl⟩
    · trivial

end RouteServer.Bytes
