import RouteServer.Bytes.DnsSeed
import RouteServer.Core.Keys
import RouteServer.Machine.Runs
import RouteServer.Rust.FirstMatch
import RouteServer.Rust.Numerals

/-!
# Credentials for peering

Nodes post the credentials under which others may peer with them, and get the
credentials of some other nodes in return. Testers ask for all of them and report which
ones work; nameservers get those that were found to work.

A post is handled one credential after the other, and ends with the first one that cannot
be handled; what was recorded until then stays. The peers are behind a lock that is held
while one credential is handled. The clock is read, and what is known of connections is
asked for, in every call; random numbers are drawn where surplus selections are removed.
-/

namespace RouteServer.Seeder

open Rust Bytes Keys

/-- `NUM_PEERS_TO_RESPOND`. -/
def numPeersToRespond : Nat := 6

/-- `SeederConfig`. -/
structure SeederConfig where
  testerPasswds : List Text
  nameserverPasswds : List Text
  maxConnectionCount : Nat
  sharePeersWithNameserver : Nat

/-- `SeederPeer`. -/
structure SeederPeer where
  ip : Ip6
  peerId : PeerID
  creds : CjdnsPeer
  ring : UInt32
  checkError : Option Text
  isPrivate : Bool
  lastCheckSec : Nat
  lastReportSec : Nat
deriving DecidableEq

/-- `SeederMut`. -/
structure SeederMut where
  peers : List SeederPeer := []
  topRing : UInt32 := 0
deriving DecidableEq

/-- `peer_info`: the number of peers of a node, and whether a given node is one of them. -/
abbrev PeerInfoProvider := Ip6 → Option Ip6 → Nat × Bool

/-- An error report. -/
inductive Report where
  | wire (fault : Bytes.Report)
  | key (fault : KeyCreationError)
  | message (text : String)
deriving DecidableEq

/-- A lower-case hexadecimal digit. -/
def isLowerHex (character : Char) : Bool :=
  ('0' ≤ character && character ≤ '9') || ('a' ≤ character && character ≤ 'f')

/-- Whether `IP6_RE` matches: eight groups of four digits, the first beginning with `fc`. -/
def isIp6Text (value : Text) : Bool :=
  value.length == 39 && value.take 2 == ['f', 'c'] &&
    value.zipIdx.all fun (character, index) =>
      if index % 5 = 4 then character == ':' else isLowerHex character

/-- `CJDNS_IP6::try_from` on text. The digits that were checked are always decoded. -/
def ip6FromText (value : Text) : Option Ip6 :=
  if isIp6Text value then (hexDecode (value.filter (· != ':'))).bind Ip6.tryFrom else none

/-- `starts_with(b"PUB_")`: the identifier is one to be handed out. -/
def isPublicId (peerId : PeerID) : Bool := [80, 85, 66, 95].isPrefixOf peerId.id

/-- `is_appropriate`. -/
def isAppropriate (config : SeederConfig) (peer : Ip6) (asker : Option Ip6)
    (pip : PeerInfoProvider) : Bool :=
  if asker = some peer then false
  else
    let (count, isPeerOf) := pip peer asker
    !isPeerOf && count < config.maxConnectionCount

/-- What a credential changes in the entry it was posted under before. The credentials are
compared with themselves. -/
def SeederPeer.update (peerId : PeerID) (creds : CjdnsPeer) (nowS : Nat) (ent : SeederPeer) :
    SeederPeer :=
  let ent :=
    if ent.peerId ≠ peerId ∨ creds ≠ creds then
      { ent with peerId, creds, checkError := none, lastCheckSec := 0 }
    else ent
  { ent with lastReportSec := nowS }

/-- An entry for a credential that has none. -/
def SeederPeer.new (sender : Ip6) (peerId : PeerID) (creds : CjdnsPeer) (ring : UInt32)
    (nowS : Nat) : SeederPeer where
  ip := sender
  peerId := peerId
  creds := creds
  ring := ring
  checkError := none
  isPrivate := !isPublicId peerId
  lastCheckSec := 0
  lastReportSec := nowS

/-- The entry under which a credential is looked up. -/
def SeederPeer.isOf (sender : Ip6) (creds : CjdnsPeer) (p : SeederPeer) : Bool :=
  p.ip == sender && p.creds == creds

/-- The first half of `handle_cred`: find the relevant peer and update it, or insert one.
The ring of the peer is returned. -/
def updateOrInsert (sender : Ip6) (peerId : PeerID) (creds : CjdnsPeer) (nowS : Nat)
    (m : SeederMut) : UInt32 × SeederMut :=
  match m.peers.find? (SeederPeer.isOf sender creds) with
  | some ent =>
    (ent.ring, { m with
      peers := updateFirst (SeederPeer.isOf sender creds)
        (SeederPeer.update peerId creds nowS) m.peers })
  | none =>
    (m.topRing, { m with
      peers := m.peers ++ [SeederPeer.new sender peerId creds m.topRing nowS] })

/-- Whether a peer is in the range of an attempt. The sum overflows for the last ring only, where a
release build goes on with ring zero. -/
def inRange (attempt : Nat) (ring : UInt32) (peer : SeederPeer) : Outcome Report Bool :=
  if attempt = 3 then .ok true
  else if attempt = 2 ∧ peer.ring ≥ ring then .ok true
  else if attempt = 1 ∧ peer.ring = ring then .ok true
  else if attempt = 0 then do
    let above ← Outcome.checkedAdd 32 peer.ring.toNat 1
    return above == ring.toNat
  else .ok false

/-- How the loop over the peers ends: the whole selection is done, or this attempt is,
with the number of peers added so far. -/
inductive Scan where
  | returned (out : List CjdnsPeer)
  | continued (addedPeers : Nat) (out : List CjdnsPeer)

/-- What a selection asks of a peer that is in range. -/
structure Asked where
  config : SeederConfig
  sender : Ip6
  wantsIpv6 : Bool
  pip : PeerInfoProvider

/-- A peer in range is added if it is not private, is reached by the same protocol, has
not been selected yet and is appropriate. -/
def Asked.accepts (asked : Asked) (out : List CjdnsPeer) (peer : SeederPeer) : Bool :=
  !peer.isPrivate && isIpv6 peer.creds.address == asked.wantsIpv6 &&
    !out.contains peer.creds &&
    isAppropriate asked.config peer.ip (some asked.sender) asked.pip

/-- The loop over the peers in one attempt. -/
def scanPeers (asked : Asked) (ring : UInt32) (attempt : Nat) :
    List SeederPeer → Nat → List CjdnsPeer → Outcome Report Scan
  | [], addedPeers, out => .ok (.continued addedPeers out)
  | peer :: rest, addedPeers, out =>
    if addedPeers ≥ numPeersToRespond then .ok (.returned out)
    else if attempt = 4 then .ok (.returned out)
    else do
      let tried ← inRange attempt ring peer
      if tried && asked.accepts out peer then
        -- In attempt 0, we're only adding a single node.
        if attempt = 0 then .ok (.continued (addedPeers + 1) (out ++ [peer.creds]))
        else scanPeers asked ring attempt rest (addedPeers + 1) (out ++ [peer.creds])
      else scanPeers asked ring attempt rest addedPeers out

/-- The second half of `handle_cred`, from a given attempt on. -/
def selectPeers (asked : Asked) (ring : UInt32) (peers : List SeederPeer) (attempt : Nat)
    (addedPeers : Nat) (out : List CjdnsPeer) : Outcome Report (List CjdnsPeer) :=
  if attempt > 4 then .ok out
  else do
    match ← scanPeers asked ring attempt peers addedPeers out with
    | .returned out => .ok out
    | .continued addedPeers out => selectPeers asked ring peers (attempt + 1) addedPeers out
termination_by 5 - attempt

/-- `handle_cred`: the selections and the state afterwards. -/
def handleCred (crypto : Crypto) (config : SeederConfig) (sender : Ip6) (peerId : PeerID)
    (creds : CjdnsPeer) (pip : PeerInfoProvider) (nowS : Nat) (out : List CjdnsPeer)
    (m : SeederMut) : Outcome Report (List CjdnsPeer) × SeederMut :=
  match Ip6.ofPublicKey crypto creds.pubkey with
  | none => (.err (.key .resultingIp6OutOfValidRange), m)
  | some ip6 =>
    if ip6 ≠ sender then
      (.err (.message "IPv6 of peer data does not match sender"), m)
    else
      let (ring, m) := updateOrInsert sender peerId creds nowS m
      let asked := { config, sender, wantsIpv6 := isIpv6 creds.address, pip }
      (selectPeers asked ring m.peers (if out.isEmpty then 0 else 1) 0 out, m)

/-- The loop of `post_credentials` over the credentials. The clock is read for each. -/
def handleCreds (crypto : Crypto) (config : SeederConfig) (sender : Ip6) (peerId : PeerID)
    (pip : PeerInfoProvider) :
    (Nat → Nat) → List CjdnsPeer → List CjdnsPeer → SeederMut →
      Outcome Report (List CjdnsPeer) × SeederMut
  | _, [], selections, m => (.ok selections, m)
  | clock, peer :: rest, selections, m =>
    match handleCred crypto config sender peerId peer pip (clock 0) selections m with
    | (.ok selections, m) =>
      handleCreds crypto config sender peerId pip (fun reading => clock (reading + 1)) rest
        selections m
    | (.err fault, m) => (.err fault, m)
    | (.panicked, m) => (.panicked, m)

/-- `gen_range`, by what is drawn. -/
def genRange (drawn low high : Nat) : Nat := low + drawn % (high - low)

/-- The loop of `post_credentials` that removes surplus selections, never the first. -/
def removeSurplus (draws : Nat → Nat) (selections : List CjdnsPeer) : List CjdnsPeer :=
  if long : selections.length > numPeersToRespond then
    let loser := genRange (draws 0) 1 selections.length
    have _less : (selections.eraseIdx loser).length < selections.length := by
      have inside : loser < selections.length := by
        have bound : draws 0 % (selections.length - 1) < selections.length - 1 :=
          Nat.mod_lt _ (by rw [numPeersToRespond] at long; omega)
        simp only [loser, genRange]
        omega
      rw [List.length_eraseIdx_of_lt inside]
      omega
    removeSurplus (fun drawn => draws (drawn + 1)) (selections.eraseIdx loser)
  else selections
termination_by selections.length

/-- What a post takes from its surroundings. -/
structure Surroundings where
  pip : PeerInfoProvider
  clock : Nat → Nat
  draws : Nat → Nat

/-- `post_credentials`: the answer and the state afterwards. -/
def postCredentials (crypto : Crypto) (config : SeederConfig) (sender : Ip6)
    (binCreds : List UInt8) (around : Surroundings) (m : SeederMut) :
    Outcome Report (List UInt8) × SeederMut :=
  match CjdnsTxtRecord.decodeBin binCreds with
  | .error fault => (.err (.wire fault), m)
  | .ok record =>
    match record.peerId with
    | none => (.err (.message "Credential post missing peer ID"), m)
    | some peerId =>
      match handleCreds crypto config sender peerId around.pip around.clock record.peers [] m with
      | (.ok selections, m) =>
        let answer : CjdnsTxtRecord := { peers := removeSurplus around.draws selections }
        ((answer.encodeBin Message.new).mapErr .wire >>= fun msg => .ok msg.asVec, m)
      | (.err fault, m) => (.err fault, m)
      | (.panicked, m) => (.panicked, m)

/-- `to_string` on an identifier. -/
def idText (peerId : PeerID) : Text :=
  match fromUtf8 peerId.id with
  | some text => text
  | none => "hex(".toList ++ hexEncode peerId.id ++ ")".toList

/-- `SeederListPeer`. The peering line is a rendering of the credentials. -/
structure SeederListPeer where
  lastCheckSec : Nat
  lastReportSec : Nat
  ring : UInt32
  checkError : Option Text
  peer : CjdnsPeer
  id : Text
deriving DecidableEq

/-- `from` a peer. -/
def SeederListPeer.ofPeer (x : SeederPeer) : SeederListPeer where
  lastCheckSec := x.lastCheckSec
  lastReportSec := x.lastReportSec
  ring := x.ring
  checkError := x.checkError
  peer := x.creds
  id := idText x.peerId

/-- The loop of `list_peers`. The number of peers is compared after one was added. -/
def shareLoop (config : SeederConfig) (pip : PeerInfoProvider) :
    List SeederPeer → List SeederListPeer → List SeederListPeer
  | [], out => out
  | p :: rest, out =>
    if isAppropriate config p.ip none pip then
      let out := out ++ [SeederListPeer.ofPeer p]
      if out.length ≥ config.sharePeersWithNameserver then out
      else shareLoop config pip rest out
    else shareLoop config pip rest out

/-- The filter of `list_peers`: peers that were lately found to work. -/
def isShared (lastCheckCutoff : Nat) (p : SeederPeer) : Bool :=
  !p.isPrivate && p.checkError.isNone && decide (p.lastCheckSec > lastCheckCutoff)

/-- `list_peers`. The highest rings come first. -/
def listPeers (config : SeederConfig) (passwd : Text) (pip : PeerInfoProvider) (nowSec : Nat)
    (m : SeederMut) : Outcome Report (List SeederListPeer) :=
  if config.testerPasswds.contains passwd then .ok (m.peers.map SeederListPeer.ofPeer)
  else if !config.nameserverPasswds.contains passwd then .err (.message "Unknown password")
  else do
    let lastCheckCutoff ← Outcome.checkedSub nowSec (60 * 60)
    let okPeers := m.peers.filter (isShared lastCheckCutoff)
    let byRing := okPeers.mergeSort fun left right =>
      2 ^ 32 - 1 - left.ring.toNat ≤ 2 ^ 32 - 1 - right.ring.toNat
    return shareLoop config pip byRing []

/-- `SeederTestResNode`. -/
structure SeederTestResNode where
  addr : SocketAddr
  ip6 : Text
  error : Option Text

/-- `SeederTestRes`. -/
structure SeederTestRes where
  passwd : Text
  nodes : List SeederTestResNode

/-- The entry a check result is about. -/
def SeederPeer.isAt (ip6 : Ip6) (addr : SocketAddr) (sp : SeederPeer) : Bool :=
  sp.creds.address == addr && sp.ip == ip6

/-- What a check result changes in an entry. -/
def SeederPeer.checked (error : Option Text) (nowS : Nat) (sp : SeederPeer) : SeederPeer :=
  { sp with checkError := error, lastCheckSec := nowS }

/-- One result of `testres`. -/
def testResult (nowS : Nat) (ip6 : Ip6) (addr : SocketAddr) (error : Option Text)
    (m : SeederMut) : SeederMut :=
  { m with peers := updateFirst (SeederPeer.isAt ip6 addr) (SeederPeer.checked error nowS) m.peers }

/-- The loop of `testres`. -/
def testResults (nowS : Nat) : List SeederTestResNode → SeederMut →
    Outcome Report Unit × SeederMut
  | [], m => (.ok (), m)
  | p :: rest, m =>
    match ip6FromText p.ip6 with
    | none => (.err (.key .badString), m)
    | some ip6 => testResults nowS rest (testResult nowS ip6 p.addr p.error m)

/-- `testres`. -/
def testres (config : SeederConfig) (res : SeederTestRes) (nowS : Nat) (m : SeederMut) :
    Outcome Report Unit × SeederMut :=
  if !config.testerPasswds.contains res.passwd then (.err (.message "Unknown password"), m)
  else testResults nowS res.nodes m

/-- A call that can change the peers. -/
inductive Call where
  | post (sender : Ip6) (binCreds : List UInt8) (around : Surroundings)
  | testres (res : SeederTestRes) (nowS : Nat)

/-- `Seeder` as a machine. Every call is possible, and changes the state however it ends. -/
def seeder (crypto : Crypto) (config : SeederConfig) : Machine.System SeederMut Call where
  initial := {}
  step m call :=
    match call with
    | .post sender binCreds around =>
      some (postCredentials crypto config sender binCreds around m).2
    | .testres res nowS => some (Seeder.testres config res nowS m).2

end RouteServer.Seeder
