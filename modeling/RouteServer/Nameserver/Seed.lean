import RouteServer.Nameserver.Credentials
import RouteServer.Seeder.Listing

/-!
# Seeds

A nameserver keeps the peers that the supernode listed last. A seed is a record of three of
them, drawn anew for every request, and is refused once the peers are older than five minutes.
It is given as one string of a DNS record or as two.
-/

namespace RouteServer.Nameserver

open Rust Bytes Keys Seeder

/-- `SeederMut`. -/
structure SeederMut where
  peers : List ListedPeer := []
  lastUpdate : Nat := 0

/-- `update_peers`, from the answer of the supernode on. -/
def updatePeers (peers : List ListedPeer) (nowSec : Nat) : Outcome Bytes.Report SeederMut :=
  if peers.isEmpty then .err (.message "Getting peers from snode: Empty list")
  else .ok { peers, lastUpdate := nowSec }

/-- `choose`, by what is drawn. -/
def choose (drawn : Nat) (peers : List ListedPeer) : Option ListedPeer :=
  peers[drawn % peers.length]?

/-- What is decoded of one listed peer, if anything. -/
def decodeListed (base32 : Base32Encoding) (peer : ListedPeer) :
    Outcome Bytes.Report (List CjdnsPeer) :=
  match parseListPeer base32 peer.peer with
  | .ok peer => .ok [peer]
  | .err _ => .ok []
  | .panicked => .panicked

/-- The loop of `get_seed_txt` that draws some peers. -/
def drawPeers (base32 : Base32Encoding) (peers : List ListedPeer) :
    Nat → (Nat → Nat) → Outcome Bytes.Report (List CjdnsPeer)
  | 0, _ => .ok []
  | count + 1, draws => do
    let drawn ← match choose (draws 0) peers with
      | some peer => decodeListed base32 peer
      | none => .ok []
    let others ← drawPeers base32 peers count (fun i => draws (i + 1))
    return drawn ++ others

/-- `get_seed_txt`. -/
def getSeedTxt (base32 : Base32Encoding) (snodeKey : Option PublicKey) (draws : Nat → Nat)
    (nowSec : Nat) (m : SeederMut) : Outcome Bytes.Report Text := do
  let age ← Outcome.checkedSub nowSec m.lastUpdate
  if age > 300 then .err (.message "Peers are too old")
  else do
    let decodedPeers ← drawPeers base32 m.peers 3 draws
    CjdnsTxtRecord.encode { snodePubkey := snodeKey, peers := decodedPeers }

/-- The strings of a DNS record for a seed. -/
def seedStrings (seed : Text) : Outcome Bytes.Report (List Text) :=
  if byteLength seed ≤ 255 then .ok [seed]
  else do
    let front ← (sliceTo 255 seed).expect
    return [front, seed.drop front.length]

/-- A listed peer shows credentials that can be put into a record. -/
def Shows (base32 : Base32Encoding) (peer : ListedPeer) (creds : CjdnsPeer) : Prop :=
  creds.address.Plain ∧ peer.peer = creds.peeringLine base32

section

variable {base32 : Base32Encoding}

/-- From a listing the credentials are read back that it shows. -/
theorem Shows.decodeListed (canonical : base32.Canonical) {peer : ListedPeer} {creds : CjdnsPeer}
    (shows : Shows base32 peer creds) : decodeListed base32 peer = .ok [creds] := by
  have printed := SocketAddr.printed_of_plain shows.1
  rw [Nameserver.decodeListed, shows.2, parseListPeer_peeringLine canonical, printed]

/-- A listed peer shows no more than one set of credentials. -/
theorem Shows.unique (canonical : base32.Canonical) {peer : ListedPeer} {creds other : CjdnsPeer}
    (shows : Shows base32 peer creds) (otherShows : Shows base32 peer other) : creds = other := by
  have decoded := shows.decodeListed canonical
  rw [otherShows.decodeListed canonical] at decoded
  cases decoded
  rfl

/-- Of peers that show their credentials as many are drawn as are asked for, if there are any. -/
theorem drawPeers_shown (canonical : base32.Canonical) {peers : List ListedPeer}
    (shown : ∀ peer ∈ peers, ∃ creds, Shows base32 peer creds) (count : Nat)
    (draws : Nat → Nat) :
    ∃ decoded, drawPeers base32 peers count draws = .ok decoded ∧
      (peers ≠ [] → decoded.length = count) ∧ decoded.length ≤ count ∧
      ∀ creds ∈ decoded, ∃ peer ∈ peers, Shows base32 peer creds := by
  induction count generalizing draws with
  | zero => exact ⟨[], rfl, fun _ => rfl, Nat.le_refl 0, fun _ listed => by cases listed⟩
  | succ count inductionHypothesis =>
    obtain ⟨others, drawn, full, few, fromPeers⟩ := inductionHypothesis (fun i => draws (i + 1))
    rw [drawPeers]
    cases chosen : choose (draws 0) peers with
    | none =>
      refine ⟨others, ?_, ?_, Nat.le_succ_of_le few, fromPeers⟩
      · simp only [Outcome.ok_bind, drawn, List.nil_append, Outcome.pure_def]
      · intro some
        have inside : draws 0 % peers.length < peers.length :=
          Nat.mod_lt _ (List.length_pos_iff.mpr some)
        rw [choose, List.getElem?_eq_getElem inside] at chosen
        cases chosen
    | some peer =>
      have listed : peer ∈ peers := List.mem_of_getElem? chosen
      obtain ⟨creds, shows⟩ := shown peer listed
      refine ⟨creds :: others, ?_, ?_, Nat.succ_le_succ few, ?_⟩
      · simp only [shows.decodeListed canonical, Outcome.ok_bind, drawn, Outcome.pure_def,
          List.singleton_append]
      · exact fun some => congrArg Nat.succ (full some)
      · refine List.forall_mem_cons.mpr ⟨⟨peer, listed, shows⟩, fromPeers⟩

/-- A seed is a record of the key and of credentials that the listed peers show.

Proof: the calls of the function one after the other: the age is checked, three peers are drawn,
and the record of them is encoded, which can be read again. -/
theorem getSeedTxt_ok (canonical : base32.Canonical) {m : SeederMut}
    (shown : ∀ peer ∈ m.peers, ∃ creds, Shows base32 peer creds) {snodeKey : Option PublicKey}
    {draws : Nat → Nat} {nowSec : Nat} {seed : Text}
    (served : getSeedTxt base32 snodeKey draws nowSec m = .ok seed) :
    m.lastUpdate ≤ nowSec ∧ nowSec ≤ m.lastUpdate + 300 ∧ ∃ record : CjdnsTxtRecord,
      CjdnsTxtRecord.decode seed = .ok record ∧ record.snodePubkey = snodeKey ∧
      record.peerId = none ∧ (record.peers.length = if m.peers.isEmpty then 0 else 3) ∧
      (∀ creds ∈ record.peers, ∃ peer ∈ m.peers, Shows base32 peer creds) ∧
      record.encode = .ok seed := by
  obtain ⟨age, subtracted, served⟩ := (Outcome.bind_ok_iff _ _ _).mp served
  obtain ⟨past, rfl⟩ := (Outcome.checkedSub_ok_iff _ _ _).mp subtracted
  split at served
  · cases served
  · next young =>
    obtain ⟨decoded, drawn, full, few, fromPeers⟩ := drawPeers_shown canonical shown 3 draws
    rw [drawn, Outcome.ok_bind] at served
    have plain : ∀ peer ∈ decoded, peer.address.Plain := by
      intro creds listed
      obtain ⟨peer, -, shows⟩ := fromPeers creds listed
      exact shows.1
    have noPid : ∀ pid ∈ (none : Option PeerID), pid.id.length ≤ 64 := by
      rintro pid ⟨⟩
    let record : CjdnsTxtRecord := { snodePubkey := snodeKey, peers := decoded }
    have known : record.unknownRecords = [] := rfl
    obtain ⟨text, encoded, read⟩ := CjdnsTxtRecord.decode_encode known noPid plain
    rw [served] at encoded
    cases encoded
    refine ⟨past, by omega, record, read, rfl, rfl, ?_, fromPeers, served⟩
    cases empty : m.peers with
    | nil =>
      have nothing : decoded = [] := by
        apply List.eq_nil_iff_forall_not_mem.mpr
        intro creds listed
        obtain ⟨peer, member, -⟩ := fromPeers creds listed
        rw [empty] at member
        cases member
      exact congrArg List.length nothing
    | cons peer others => exact full (by rw [empty]; exact List.cons_ne_nil _ _)

/-- The strings of a seed are one or two, short enough, and put together they are the seed: all of
its characters are of one byte, so the cut falls between two of them.

Proof: by whether the seed is longer than a string may be. If it is, it is cut once, and the
lengths are counted in bytes, which are characters here. -/
theorem seedStrings_ok {record : CjdnsTxtRecord} (few : record.peers.length ≤ 3)
    (noPid : record.peerId = none) {seed : Text} (encoded : record.encode = .ok seed) :
    ∃ strings, seedStrings seed = .ok strings ∧ strings.length ≤ 2 ∧ strings.flatten = seed ∧
      ∀ string ∈ strings, byteLength string ≤ 255 := by
  have short : ∀ pid ∈ record.peerId, pid.id.length ≤ 64 := by
    rw [noPid]
    rintro pid ⟨⟩
  have long := CjdnsTxtRecord.length_encode few noPid encoded
  have ascii := CjdnsTxtRecord.ascii_encode short encoded
  rw [seedStrings]
  split
  · next fits =>
    refine ⟨[seed], rfl, Nat.le_succ 1, List.flatten_singleton, ?_⟩
    intro string listed
    rw [List.mem_singleton.mp listed]
    exact fits
  · next exceeds =>
    have front : byteLength (seed.take 255) = (seed.take 255).length :=
      byteLength_of_ascii fun c listed => ascii c (List.mem_of_mem_take listed)
    have behind : byteLength (seed.drop 255) = (seed.drop 255).length :=
      byteLength_of_ascii fun c listed => ascii c (List.mem_of_mem_drop listed)
    have enough : 255 ≤ seed.length := by
      rw [byteLength_of_ascii ascii] at exceeds
      omega
    have sized : (seed.take 255).length = 255 := List.length_take_of_le enough
    have sliced : sliceTo 255 seed = .ok (seed.take 255) :=
      (sliceTo_ok_iff _ _ _).mpr ⟨seed.drop 255, (List.take_append_drop 255 seed).symm,
        front.trans sized⟩
    refine ⟨[seed.take 255, seed.drop 255], ?_, Nat.le_refl 2, ?_, ?_⟩
    · rw [sliced, Outcome.expect_ok, Outcome.ok_bind, sized]
      rfl
    · rw [List.flatten_cons, List.flatten_singleton, List.take_append_drop]
    · intro string listed
      simp only [List.mem_cons, List.not_mem_nil, or_false] at listed
      rcases listed with rfl | rfl
      · exact Nat.le_of_eq (front.trans sized)
      · rw [behind, List.length_drop]
        omega

end

end RouteServer.Nameserver
