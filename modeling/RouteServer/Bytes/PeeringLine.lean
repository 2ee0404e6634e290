import RouteServer.Bytes.SocketText
import RouteServer.Core.PublicKeyText
import RouteServer.Rust.Base64

/-!
# Credentials and seeds as text

Credentials are handed to people and programs as a peering line, all of whose fields but the
version are text. A record of a seed is the text of its bytes in base 64. The text of a seed
must fit two strings of a DNS record.
-/

namespace RouteServer.Bytes

open Rust Keys

/-- `AuthorizedPassword`. -/
structure AuthorizedPassword where
  password : Text
  user : Text
deriving DecidableEq

/-- `PeeringLine`. -/
structure PeeringLine where
  address : Text
  publicKey : Text
  login : Text
  password : Text
  version : UInt32
deriving DecidableEq

namespace CjdnsPeer

/-- `mk_pass`. -/
def mkPass (self : CjdnsPeer) : Text := "AP_PASS: ".toList ++ Base64.encode self.password.bytes

/-- `mk_login`. -/
def mkLogin (self : CjdnsPeer) : Text := "AP_LOGIN: ".toList ++ Nat.toDigits 10 self.login.toNat

/-- `peering_line`. -/
def peeringLine (base32 : Base32Encoding) (self : CjdnsPeer) : PeeringLine where
  address := self.address.toText
  publicKey := Keys.toText base32 self.pubkey
  login := self.mkLogin
  password := self.mkPass
  version := self.version

/-- `authorized_password`. -/
def authorizedPassword (self : CjdnsPeer) : AuthorizedPassword where
  password := self.mkPass
  user := self.mkLogin

end CjdnsPeer

namespace CjdnsTxtRecord

/-- `encode`. -/
def encode (self : CjdnsTxtRecord) : Outcome Report Text := do
  let data ← self.encodeBin (Message.withChunkSize 512)
  return "cjdns0=".toList ++ Base64.encode data.asVec

/-- `decode`. -/
def decode (s : Text) : Except Report CjdnsTxtRecord :=
  match stripPrefix "cjdns0=".toList s with
  | none => .error (.message "Missing cjdns0= prefix")
  | some s =>
    match Base64.decode s with
    | none => .error (.message "Could not decode base64")
    | some bytes => decodeBin bytes

section

variable {self : CjdnsTxtRecord}

/-- A record is encoded as the text of its items. -/
theorem encode_items (short : ∀ pid ∈ self.peerId, pid.id.length ≤ 64) :
    self.encode = .ok ("cjdns0=".toList ++ Base64.encode (self.items.flatMap wire)) := by
  obtain ⟨written, encoded, held⟩ :=
    message_prepends.encodeBin (Message.holds_withChunkSize 512) short
  rw [encode, encoded, Outcome.ok_bind, held.asVec, List.append_nil]
  rfl

/-- The text of a record is decoded as the record. -/
theorem decode_encode (known : self.unknownRecords = [])
    (short : ∀ pid ∈ self.peerId, pid.id.length ≤ 64)
    (plain : ∀ peer ∈ self.peers, peer.address.Plain) :
    ∃ s, self.encode = .ok s ∧ decode s = .ok self := by
  refine ⟨_, encode_items short, ?_⟩
  rw [decode, stripPrefix_append]
  simp only [Base64.decode_encode, decodeBin, parseTlv_flatMap (self.items_short short)]
  exact self.foldlM_items known plain

/-- The item for a peer has at most seventy-eight bytes. -/
theorem length_wire_peer (peer : CjdnsPeer) : (wire peer.item).length ≤ 78 := by
  have octets : peer.address.octets.length ≤ 16 := by
    cases peer.address with
    | v4 ip port => exact Nat.le_trans (Nat.le_of_eq ip.sized) (by decide)
    | v6 ip port flowinfo scopeId => exact Nat.le_of_eq ip.sized
  have login := varInt_length_le peer.login.toNat
  have version := varInt_length_le peer.version.toNat
  simp only [wire, CjdnsPeer.item, List.length_cons, List.length_append, toBe_length,
    peer.password.sized, peer.pubkey.sized]
  omega

/-- Credentials take at most 78 bytes each. -/
theorem length_wire_peers (peers : List CjdnsPeer) :
    ((peers.map CjdnsPeer.item).flatMap wire).length ≤ 78 * peers.length := by
  induction peers with
  | nil => exact Nat.le_refl 0
  | cons peer peers inductionHypothesis =>
    have first := length_wire_peer peer
    simp only [List.map_cons, List.flatMap_cons, List.length_append, List.length_cons]
    omega

/-- A key takes 34 bytes with its head. -/
theorem length_wire_snode (key : Option (Rust.Bytes 32)) :
    ((key.toList.map snodeItem).flatMap wire).length ≤ 34 := by
  cases key with
  | none => exact Nat.zero_le 34
  | some key =>
    simp only [Option.toList_some, List.map_cons, List.map_nil, List.flatMap_cons,
      List.flatMap_nil, List.append_nil, wire, snodeItem, List.length_cons, key.sized]
    exact Nat.le_refl 34

/-- The text of three peers and a key fits two strings. -/
theorem length_encode (few : self.peers.length ≤ 3) (noPid : self.peerId = none) {s : Text}
    (encoded : self.encode = .ok s) : s.length ≤ 510 := by
  have short : ∀ pid ∈ self.peerId, pid.id.length ≤ 64 := by
    rw [noPid]
    rintro pid ⟨⟩
  have peers := length_wire_peers self.peers
  have key := length_wire_snode self.snodePubkey
  rw [encode_items short] at encoded
  cases encoded
  have start : "cjdns0=".toList.length = 7 := rfl
  rw [List.length_append, Base64.length_encode, start, items, noPid]
  simp only [Option.toList_none, List.map_nil, List.nil_append, List.flatMap_append,
    List.length_append]
  omega

/-- The text of a record is of ASCII characters. -/
theorem ascii_encode (short : ∀ pid ∈ self.peerId, pid.id.length ≤ 64) {s : Text}
    (encoded : self.encode = .ok s) : ∀ c ∈ s, c.utf8Size = 1 := by
  have start : ("cjdns0=".toList).all (fun c => c.utf8Size == 1) = true := by decide
  have symbols : Base64.symbols.all (fun c => c.utf8Size == 1) = true := by decide
  rw [encode_items short] at encoded
  cases encoded
  intro c listed
  rcases List.mem_append.mp listed with front | behind
  · exact eq_of_beq (List.all_eq_true.mp start c front)
  · exact eq_of_beq (List.all_eq_true.mp symbols c (Base64.mem_symbols behind))

end

end CjdnsTxtRecord

end RouteServer.Bytes
