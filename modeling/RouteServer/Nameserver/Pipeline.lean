import Mathlib.Logic.Function.Basic
import RouteServer.Nameserver.Seed
import RouteServer.Ptest.Tester

/-!
# From posted credentials to seeds

Nodes post credentials to a supernode, testers ask it for all of them and report what they found,
and nameservers ask it for those that were found to work. An answer and a report are under way
while others go on, so the supernode may have changed before they arrive, or they may be lost.
The supernode is locked while it handles one credential, one listing or one report.

Whatever the order of the steps, a seed is a record of credentials that were recorded when they
were listed to the nameserver, at most five minutes before. A tester had reported a success for
their node and address less than an hour before that, and had made a connection with credentials
that are recorded for them.
-/

namespace RouteServer.Nameserver

open Rust Bytes Keys Machine

/-- What the supernode, the testers and the nameservers are configured with. -/
structure Setup where
  crypto : Crypto
  base32 : Base32Encoding
  /-- The derived `Debug` of a status. -/
  shown : Ptest.Status → Text
  seeder : Seeder.SeederConfig
  ptest : Nat → Ptest.PtestConfig
  snodePass : Nat → Text
  snodeKey : Nat → Option PublicKey

/-- A nameserver: what it has stored, and an answer of the supernode that it has not. -/
structure Source where
  m : SeederMut := {}
  answer : Option (List Seeder.ListedPeer) := none

/-- The supernode with its testers and its nameservers. -/
structure Network where
  snode : Seeder.SeederMut := {}
  testers : Nat → Ptest.Tester := fun _ => {}
  sources : Nat → Source := fun _ => {}

/-- One step of the supernode, a tester or a nameserver. -/
inductive Event where
  /-- One credential of a post is handled, after some selections. -/
  | credential (sender : Ip6) (binCreds : List UInt8) (index : Nat)
      (pip : Seeder.PeerInfoProvider) (nowS : Nat) (out : List CjdnsPeer)
  /-- The supernode lists the peers to a tester. -/
  | fetch (i : Nat) (pip : Seeder.PeerInfoProvider) (nowSec : Nat)
  /-- A tester goes on by itself. -/
  | act (i : Nat) (action : Ptest.Action)
  /-- The report of a tester arrives. -/
  | report (i : Nat) (nowS : Nat)
  /-- The report of a tester is lost. -/
  | lose (i : Nat)
  /-- The supernode lists the peers to a nameserver. -/
  | ask (j : Nat) (pip : Seeder.PeerInfoProvider) (nowSec : Nat)
  /-- An answer of the supernode arrives. -/
  | update (j : Nat) (nowSec : Nat)

/-- The credential of a post at an index, and the identifier of the post. -/
def credentialAt (binCreds : List UInt8) (index : Nat) : Option (PeerID × CjdnsPeer) :=
  match CjdnsTxtRecord.decodeBin binCreds with
  | .ok record =>
    record.peerId.bind fun peerId => record.peers[index]?.map fun creds => (peerId, creds)
  | .error _ => none

namespace Network

def setTester (net : Network) (i : Nat) (tester : Ptest.Tester) : Network :=
  { net with testers := Function.update net.testers i tester }

def setSource (net : Network) (j : Nat) (source : Source) : Network :=
  { net with sources := Function.update net.sources j source }

/-- A step, if it is possible. -/
def step (setup : Setup) (net : Network) : Event → Option Network
  | .credential sender binCreds index pip nowS out =>
    (credentialAt binCreds index).map fun (peerId, creds) =>
      { net with snode := (Seeder.handleCred setup.crypto setup.seeder sender peerId creds pip nowS
          out net.snode).2 }
  | .fetch i pip nowSec =>
    match (net.testers i).main with
    | .idle =>
      match Seeder.listPeers setup.seeder (setup.ptest i).pass pip nowSec net.snode with
      | .ok peers => some (net.setTester i { net.testers i with
          main := .fetched (peers.map (Seeder.SeederListPeer.sent setup.base32)) })
      | _ => some net
    | _ => none
  | .act i action =>
    ((net.testers i).act setup.crypto setup.base32 setup.shown (setup.ptest i) action).map
      (net.setTester i)
  | .report i nowS =>
    match (net.testers i).main with
    | .posting nodes =>
      some { net.setTester i { net.testers i with main := .idle } with
        snode := (Seeder.testres setup.seeder { passwd := (setup.ptest i).pass, nodes } nowS
          net.snode).2 }
    | _ => none
  | .lose i =>
    match (net.testers i).main with
    | .posting _ => some (net.setTester i { net.testers i with main := .idle })
    | _ => none
  | .ask j pip nowSec =>
    match Seeder.listPeers setup.seeder (setup.snodePass j) pip nowSec net.snode with
    | .ok peers => some (net.setSource j { net.sources j with
        answer := some (peers.map (Seeder.SeederListPeer.sent setup.base32)) })
    | _ => some net
  | .update j nowSec =>
    match (net.sources j).answer with
    | some peers =>
      match updatePeers peers nowSec with
      | .ok m => some (net.setSource j { m })
      | _ => some (net.setSource j { net.sources j with answer := none })
    | none => none

end Network

/-- The supernode with its testers and its nameservers as a machine. -/
def network (setup : Setup) : System Network Event where
  initial := {}
  step := Network.step setup

section

variable (setup : Setup)

/-- Something was the case in a step of a run. -/
abbrev Before (what : List Event → Network → Event → Prop) : List Event → Prop :=
  (network setup).Happened {} what

/-- A test that an agent of a tester made with credentials was a success: in one of the attempts
it came to the end, over an established connection. -/
def Tested (i : Nat) (creds : CjdnsPeer) : List Event → Prop :=
  Before setup fun _ net event => ∃ id attempts peer, event = .act i (.finish id attempts) ∧
    (net.testers i).task id = some peer ∧ peer.peer = creds.peeringLine setup.base32 ∧
    Ptest.runTest (setup.ptest i).requireSnode id peer.peer attempts 1 = .ok ∧
    ∃ n last, 1 ≤ n ∧ n ≤ 4 ∧
      Ptest.test (setup.ptest i).requireSnode id peer.peer { replies := attempts n } =
        some (.ok .ok, last) ∧
      Ptest.Established (setup.ptest i).requireSnode id peer.peer last.exchanges

/-- A report with a success for a node and an address arrived from a tester that may report, after
it had tested credentials recorded for them. -/
def Checked (place : Ip6 × SocketAddr) (checkedAt : Nat) : List Event → Prop :=
  Before setup fun earlier net event => ∃ i nodes node, event = .report i checkedAt ∧
    setup.seeder.testerPasswds.contains (setup.ptest i).pass = true ∧
    (net.testers i).main = .posting nodes ∧ node ∈ nodes ∧
    node.ip6 = Seeder.ip6Text place.1 ∧ node.addr = place.2 ∧ node.error = none ∧
    ∃ q ∈ net.snode.peers, q.place = place ∧ Tested setup i q.creds earlier

/-- Recorded credentials were listed in an answer to a nameserver, after they were found to
work. -/
def Offered (j : Nat) (answer : List Seeder.ListedPeer) (creds : CjdnsPeer) :
    List Event → Prop :=
  Before setup fun earlier net event => ∃ pip listedAt peers p, event = .ask j pip listedAt ∧
    Seeder.listPeers setup.seeder (setup.snodePass j) pip listedAt net.snode = .ok peers ∧
    answer = peers.map (Seeder.SeederListPeer.sent setup.base32) ∧
    p ∈ net.snode.peers ∧ p.creds = creds ∧ Seeder.Found setup.seeder pip listedAt p ∧
    Checked setup p.place p.lastCheckSec earlier

/-- An answer that shows credentials arrived at a nameserver at some time. -/
def Supplied (j : Nat) (storedAt : Nat) (creds : CjdnsPeer) : List Event → Prop :=
  Before setup fun earlier net event => event = .update j storedAt ∧
    ∃ answer, (net.sources j).answer = some answer ∧
      (∃ peer ∈ answer, Shows setup.base32 peer creds) ∧ Offered setup j answer creds earlier

/-- What is known of the entries of the supernode. -/
structure Recorded (events : List Event) (m : Seeder.SeederMut) : Prop where
  plain : ∀ p ∈ m.peers, p.creds.address.Plain
  keys : ∀ p ∈ m.peers, Ip6.ofPublicKey setup.crypto p.creds.pubkey = some p.ip
  checked : ∀ p ∈ m.peers, p.checkError = none → p.lastCheckSec ≠ 0 →
    Checked setup p.place p.lastCheckSec events

/-- A listing shows recorded credentials. -/
def Listed (m : Seeder.SeederMut) (peer : Seeder.ListedPeer) : Prop :=
  ∃ q ∈ m.peers, Shows setup.base32 peer q.creds

/-- A listing shows recorded credentials that a tester tested. -/
def Passed (i : Nat) (events : List Event) (m : Seeder.SeederMut) (peer : Seeder.ListedPeer) :
    Prop :=
  ∃ q ∈ m.peers, Shows setup.base32 peer q.creds ∧ Tested setup i q.creds events

/-- A tester reports a success only for recorded credentials that it tested. -/
def Reported (i : Nat) (events : List Event) (m : Seeder.SeederMut)
    (node : Seeder.SeederTestResNode) : Prop :=
  node.error = none → ∃ q ∈ m.peers, node.addr = q.creds.address ∧
    node.ip6 = Seeder.ip6Text q.ip ∧ Tested setup i q.creds events

/-- A nameserver does not ask as a tester. -/
def NoTester (j : Nat) : Prop := setup.seeder.testerPasswds.contains (setup.snodePass j) = false

end

section

variable {setup : Setup} {events : List Event} {m m' : Seeder.SeederMut}

/-- Entries stay, with their credentials. -/
def Keeps (m m' : Seeder.SeederMut) : Prop :=
  ∀ q ∈ m.peers, ∃ q' ∈ m'.peers, q'.ip = q.ip ∧ q'.creds = q.creds

/-- Entries stay where nothing changes. -/
theorem keeps_self (m : Seeder.SeederMut) : Keeps m m := fun q member => ⟨q, member, rfl, rfl⟩

/-- A credential changes an entry or adds one, and the node and its credentials stay what they are
in every other. -/
theorem keeps_handleCred (crypto : Crypto) (config : Seeder.SeederConfig) (sender : Ip6)
    (peerId : PeerID) (creds : CjdnsPeer) (pip : Seeder.PeerInfoProvider) (nowS : Nat)
    (out : List CjdnsPeer) (m : Seeder.SeederMut) :
    Keeps m (Seeder.handleCred crypto config sender peerId creds pip nowS out m).2 := by
  rcases Seeder.handleCred_state crypto config sender peerId creds pip nowS out m with
    unchanged | ⟨-, recorded⟩
  · rw [unchanged]
    exact keeps_self m
  · rw [recorded]
    intro q member
    rcases Seeder.updateOrInsert_cases sender peerId creds nowS m with
      ⟨before, ent, after, split, ip, same, result⟩ | ⟨-, result⟩
    · rw [result]
      rw [split] at member
      have here : q = ent ∨ q ∈ before ++ after := by
        simp only [List.mem_append, List.mem_cons] at member ⊢
        tauto
      rcases here with rfl | other
      · refine ⟨q.update peerId creds nowS, by simp, Seeder.update_ip _ _ _ _, ?_⟩
        rw [Seeder.update_creds peerId nowS same, same]
      · refine ⟨q, ?_, rfl, rfl⟩
        simp only [List.mem_append, List.mem_cons] at other ⊢
        tauto
    · rw [result]
      exact ⟨q, List.mem_append_left _ member, rfl, rfl⟩

/-- A report changes only what is known of the checks. -/
theorem keeps_testres (config : Seeder.SeederConfig) (res : Seeder.SeederTestRes) (nowS : Nat)
    (m : Seeder.SeederMut) : Keeps m (Seeder.testres config res nowS m).2 := by
  intro q member
  have same := (Seeder.testres_identity config res nowS m).2.symm
  obtain ⟨q', inside, identity⟩ := Seeder.exists_identity same member
  obtain ⟨ip, -, creds, -, -⟩ := Seeder.identity_eq_iff.mp identity
  exact ⟨q', inside, ip, creds⟩

/-- A listing goes on showing what is recorded. -/
theorem Keeps.listed (keeps : Keeps m m') {peer : Seeder.ListedPeer}
    (listed : Listed setup m peer) : Listed setup m' peer := by
  obtain ⟨q, member, shows⟩ := listed
  obtain ⟨q', inside, -, creds⟩ := keeps q member
  exact ⟨q', inside, creds ▸ shows⟩

/-- A listing that passed goes on showing what was tested. -/
theorem Keeps.passed (keeps : Keeps m m') (event : Event) {i : Nat} {peer : Seeder.ListedPeer}
    (passed : Passed setup i events m peer) : Passed setup i (events ++ [event]) m' peer := by
  obtain ⟨q, member, shows, tested⟩ := passed
  obtain ⟨q', inside, -, creds⟩ := keeps q member
  exact ⟨q', inside, creds ▸ shows, creds ▸ tested.further [event]⟩

/-- A node to report goes on being one of those that were tested. -/
theorem Keeps.reported (keeps : Keeps m m') (event : Event) {i : Nat}
    {node : Seeder.SeederTestResNode} (reported : Reported setup i events m node) :
    Reported setup i (events ++ [event]) m' node := by
  intro success
  obtain ⟨q, member, addr, ip6, tested⟩ := reported success
  obtain ⟨q', inside, ip, creds⟩ := keeps q member
  exact ⟨q', inside, creds ▸ addr, ip ▸ ip6, creds ▸ tested.further [event]⟩

/-- What a tester works on stays what it was as the run goes on. -/
theorem Keeps.carries (keeps : Keeps m m') (event : Event) {i : Nat} {tester : Ptest.Tester}
    (carries : tester.Carries (Listed setup m) (Passed setup i events m)
      (Reported setup i events m)) :
    tester.Carries (Listed setup m') (Passed setup i (events ++ [event]) m')
      (Reported setup i (events ++ [event]) m') :=
  carries.mono (fun _ => keeps.listed) (fun _ => keeps.passed event) (fun _ => keeps.reported event)

/-- Entries of which nothing new is known are known as before. -/
theorem Recorded.further (recorded : Recorded setup events m) (event : Event)
    (plain : ∀ p ∈ m'.peers, p.creds.address.Plain)
    (keys : ∀ p ∈ m'.peers, Ip6.ofPublicKey setup.crypto p.creds.pubkey = some p.ip)
    (known : ∀ p' ∈ m'.peers, p'.checkError = none → p'.lastCheckSec ≠ 0 →
      (∃ p ∈ m.peers, Seeder.Knows p p') ∨
        Checked setup p'.place p'.lastCheckSec (events ++ [event])) :
    Recorded setup (events ++ [event]) m' where
  plain := plain
  keys := keys
  checked := by
    intro p' member works checked
    rcases known p' member works checked with ⟨p, old, knows⟩ | now
    · have earlier := recorded.checked p old (knows.checkError ▸ works)
        (knows.lastCheckSec ▸ checked)
      have place : p'.place = p.place := by
        rw [Seeder.SeederPeer.place, Seeder.SeederPeer.place, knows.ip, knows.creds]
      rw [place, knows.lastCheckSec]
      exact earlier.further [event]
    · exact now

/-- A credential of a post has a plain address, since it was decoded. -/
theorem credentialAt_plain {binCreds : List UInt8} {index : Nat} {peerId : PeerID}
    {creds : CjdnsPeer} (found : credentialAt binCreds index = some (peerId, creds)) :
    creds.address.Plain := by
  rw [credentialAt] at found
  split at found
  · next record decoded =>
    obtain ⟨pid, -, found⟩ := Option.bind_eq_some_iff.mp found
    obtain ⟨each, listed, same⟩ := Option.map_eq_some_iff.mp found
    cases same
    exact CjdnsTxtRecord.decodeBin_plain decoded creds (List.mem_of_getElem? listed)
  · cases found

/-- A credential of a post is recorded as it was read, under the address of its key.

Proof: a peer that is there afterwards was there before, or is the entry that was updated or
added, which has the address and the credentials of the post. -/
theorem Recorded.credential (recorded : Recorded setup events m) (event : Event) {sender : Ip6}
    {peerId : PeerID} {creds : CjdnsPeer} (plain : creds.address.Plain)
    (pip : Seeder.PeerInfoProvider) (nowS : Nat) (out : List CjdnsPeer) :
    Recorded setup (events ++ [event])
      (Seeder.handleCred setup.crypto setup.seeder sender peerId creds pip nowS out m).2 := by
  rcases Seeder.handleCred_state setup.crypto setup.seeder sender peerId creds pip nowS out m with
    unchanged | ⟨own, changed⟩
  · rw [unchanged]
    exact recorded.further event recorded.plain recorded.keys
      fun p member _ _ => Or.inl ⟨p, member, Seeder.knows_self p⟩
  · rw [changed]
    have origin : ∀ p' ∈ (Seeder.updateOrInsert sender peerId creds nowS m).2.peers,
        (p'.ip = sender ∧ p'.creds = creds) ∨ p' ∈ m.peers := by
      intro p' member
      rcases Seeder.updateOrInsert_cases sender peerId creds nowS m with
        ⟨before, ent, after, split, ip, same, result⟩ | ⟨-, result⟩
      · rw [result] at member
        rw [split]
        have here : p' = ent.update peerId creds nowS ∨ p' ∈ before ++ after := by
          simp only [List.mem_append, List.mem_cons] at member ⊢
          tauto
        rcases here with rfl | other
        · refine Or.inl ⟨(Seeder.update_ip _ _ _ _).trans ip, Seeder.update_creds _ _ same⟩
        · refine Or.inr ?_
          simp only [List.mem_append, List.mem_cons] at other ⊢
          tauto
      · rw [result] at member
        rcases List.mem_append.mp member with old | new
        · exact Or.inr old
        · rw [List.mem_singleton.mp new]
          exact Or.inl ⟨rfl, rfl⟩
    apply recorded.further event
    · intro p' member
      rcases origin p' member with ⟨-, same⟩ | old
      · rw [same]
        exact plain
      · exact recorded.plain p' old
    · intro p' member
      rcases origin p' member with ⟨ip, same⟩ | old
      · rw [same, ip, own]
      · exact recorded.keys p' old
    · intro p' member _ checked
      rcases Seeder.updateOrInsert_knows member with unknown | known
      · exact absurd unknown checked
      · exact Or.inl known

/-- The results of a report are known of the entries that they name.

Proof: a report changes no peer's identity, and a result known afterwards was known before or
comes from a node of the report, for which the tester had passed its test. -/
theorem Recorded.report (recorded : Recorded setup events m) {i nowS : Nat} {net : Network}
    (ran : (network setup).run {} events = some net) (here : net.snode = m)
    {nodes : List Seeder.SeederTestResNode} (posting : (net.testers i).main = .posting nodes)
    (reported : ∀ node ∈ nodes, Reported setup i events m node) :
    Recorded setup (events ++ [.report i nowS])
      (Seeder.testres setup.seeder { passwd := (setup.ptest i).pass, nodes } nowS m).2 := by
  have identities := (Seeder.testres_identity setup.seeder
    { passwd := (setup.ptest i).pass, nodes } nowS m).2
  apply recorded.further
  · intro p' member
    obtain ⟨p, old, identity⟩ := Seeder.exists_identity identities member
    rw [← (Seeder.identity_eq_iff.mp identity).2.2.1]
    exact recorded.plain p old
  · intro p' member
    obtain ⟨p, old, identity⟩ := Seeder.exists_identity identities member
    obtain ⟨ip, -, creds, -, -⟩ := Seeder.identity_eq_iff.mp identity
    rw [← ip, ← creds]
    exact recorded.keys p old
  · intro p' member works _
    rw [Seeder.testres] at member
    split at member
    · exact Or.inl ⟨p', member, Seeder.knows_self p'⟩
    · next may =>
      rcases Seeder.testResults_known member with known | ⟨node, listed, named, addr, error, time⟩
      · exact Or.inl known
      · have success : node.error = none := error ▸ works
        obtain ⟨q, inPeers, same, text, tested⟩ := reported node listed success
        rw [text] at named
        have ip := Seeder.ip6FromText_ip6Text named
        have allowed : setup.seeder.testerPasswds.contains (setup.ptest i).pass = true := by
          simpa using may
        refine Or.inr (System.happened_now ran ⟨i, nodes, node, ?_, allowed, posting, listed, ?_,
          addr, success, q, ?_, ?_, tested⟩)
        · rw [time]
        · rw [text]
          exact congrArg Seeder.ip6Text ip.symm
        · rw [here]
          exact inPeers
        · rw [Seeder.SeederPeer.place, Seeder.SeederPeer.place, ip, ← addr, same]

/-- Only a success that was reported of a listing is reported of its node.

Proof: a node is made without an error only if the test of the listing passed, and its address
is that of the key in the listing. -/
theorem reported_of_passed (canonical : setup.base32.Canonical) (recorded : Recorded setup events m)
    {i : Nat} {slp : Seeder.ListedPeer} {stat : Ptest.Status} {node : Seeder.SeederTestResNode}
    (passed : stat = .ok → Passed setup i events m slp)
    (made : Ptest.resultNode setup.crypto setup.base32 setup.shown slp stat = .ok node) :
    Reported setup i events m node := by
  intro success
  obtain ⟨pk, parsed, made⟩ := (Outcome.bind_ok_iff _ _ _).mp made
  split at made
  · cases made
  · next ip6 key =>
    split at made
    · cases made
    · next addr address =>
      cases made
      have fine : stat = .ok := by
        dsimp only at success
        split at success
        · cases success
        · next same => exact not_not.mp same
      obtain ⟨q, member, ⟨plain, line⟩, tested⟩ := passed fine
      have sameAddr : addr = q.creds.address := by
        rw [line, CjdnsPeer.peeringLine, SocketAddr.parse_toText,
          SocketAddr.printed_of_plain plain] at address
        exact (Option.some.inj address).symm
      have own : tryFromStr setup.base32 slp.peer.publicKey = .ok q.creds.pubkey := by
        have read := parseKey_toText canonical "" q.creds.pubkey
        rw [line]
        exact (Outcome.mapErr_ok_iff _ _ _).mp read
      rw [own] at parsed
      cases parsed
      have sameIp := recorded.keys q member
      rw [key] at sameIp
      cases sameIp
      exact ⟨q, member, sameAddr, rfl, tested⟩

/-- What holds of one nameserver. -/
structure SourceHolds (setup : Setup) (events : List Event) (j : Nat) (source : Source) : Prop where
  answer : ∀ answer, source.answer = some answer → ∀ peer ∈ answer,
    ∃ creds, Shows setup.base32 peer creds ∧ Offered setup j answer creds events
  stored : ∀ peer ∈ source.m.peers, ∃ creds, Shows setup.base32 peer creds ∧
    Supplied setup j source.m.lastUpdate creds events

/-- What is known of a nameserver stays so as the run goes on. -/
theorem SourceHolds.further {j : Nat} {source : Source}
    (holds : SourceHolds setup events j source) (event : Event) :
    SourceHolds setup (events ++ [event]) j source where
  answer answer given peer listed := by
    obtain ⟨creds, shows, offered⟩ := holds.answer answer given peer listed
    exact ⟨creds, shows, offered.further [event]⟩
  stored peer listed := by
    obtain ⟨creds, shows, supplied⟩ := holds.stored peer listed
    exact ⟨creds, shows, supplied.further [event]⟩

/-- What holds in a run of the supernode, the testers and the nameservers. -/
structure Holds (setup : Setup) (events : List Event) (net : Network) : Prop where
  snode : Recorded setup events net.snode
  testers : ∀ i, (net.testers i).Carries (Listed setup net.snode)
    (Passed setup i events net.snode) (Reported setup i events net.snode)
  sources : ∀ j, NoTester setup j → SourceHolds setup events j (net.sources j)

/-- A step that leaves most of the network as it is. -/
theorem Holds.next {net next : Network} (holds : Holds setup events net) (event : Event)
    (keeps : Keeps net.snode next.snode) (snode : Recorded setup (events ++ [event]) next.snode)
    (testers : ∀ i, next.testers i = net.testers i ∨
      (next.testers i).Carries (Listed setup next.snode)
        (Passed setup i (events ++ [event]) next.snode)
        (Reported setup i (events ++ [event]) next.snode))
    (sources : ∀ j, NoTester setup j → next.sources j = net.sources j ∨
      SourceHolds setup (events ++ [event]) j (next.sources j)) :
    Holds setup (events ++ [event]) next where
  snode := snode
  testers i := by
    rcases testers i with same | carries
    · rw [same]
      exact keeps.carries event (holds.testers i)
    · exact carries
  sources j noTester := by
    rcases sources j noTester with same | sourceHolds
    · rw [same]
      exact (holds.sources j noTester).further event
    · exact sourceHolds

/-- What is known of the entries stays so in a step that leaves them. -/
theorem Recorded.later (recorded : Recorded setup events m) (event : Event) :
    Recorded setup (events ++ [event]) m :=
  recorded.further event recorded.plain recorded.keys
    fun p member _ _ => Or.inl ⟨p, member, Seeder.knows_self p⟩

/-- A step that changes nothing. -/
theorem Holds.later {net : Network} (holds : Holds setup events net) (event : Event) :
    Holds setup (events ++ [event]) net :=
  holds.next event (keeps_self net.snode) (holds.snode.later event) (fun _ => Or.inl rfl)
    fun _ _ => Or.inl rfl

/-- A step of one tester. -/
theorem Holds.setTester {net : Network} (holds : Holds setup events net) (event : Event) {i : Nat}
    {tester : Ptest.Tester}
    (carries : tester.Carries (Listed setup net.snode)
      (Passed setup i (events ++ [event]) net.snode)
      (Reported setup i (events ++ [event]) net.snode)) :
    Holds setup (events ++ [event]) (net.setTester i tester) := by
  apply holds.next event
  · exact keeps_self net.snode
  · exact holds.snode.later event
  · intro k
    by_cases same : k = i
    · subst same
      simp only [Network.setTester, Function.update_self]
      exact Or.inr carries
    · exact Or.inl (Function.update_of_ne same _ _)
  · exact fun j _ => Or.inl rfl

/-- A step of one nameserver. -/
theorem Holds.setSource {net : Network} (holds : Holds setup events net) (event : Event) {j : Nat}
    {source : Source}
    (sourceHolds : NoTester setup j → SourceHolds setup (events ++ [event]) j source) :
    Holds setup (events ++ [event]) (net.setSource j source) := by
  apply holds.next event
  · exact keeps_self net.snode
  · exact holds.snode.later event
  · exact fun i => Or.inl rfl
  · intro k noTester
    by_cases same : k = j
    · subst same
      simp only [Network.setSource, Function.update_self]
      exact Or.inr (sourceHolds noTester)
    · exact Or.inl (Function.update_of_ne same _ _)

/-- A listing for a tester shows what is recorded. -/
theorem listed_of_listPeers {passwd : Text} {pip : Seeder.PeerInfoProvider} {nowSec : Nat}
    (recorded : Recorded setup events m) {peers : List Seeder.SeederListPeer}
    (done : Seeder.listPeers setup.seeder passwd pip nowSec m = .ok peers) :
    ∀ peer ∈ peers.map (Seeder.SeederListPeer.sent setup.base32), Listed setup m peer := by
  intro peer member
  obtain ⟨entry, inside, rfl⟩ := List.mem_map.mp member
  obtain ⟨p, inPeers, rfl, -⟩ := Seeder.listPeers_entries done entry inside
  exact ⟨p, inPeers, recorded.plain p inPeers, rfl⟩

/-- A listing for a nameserver shows what was found to work. -/
theorem offered_of_listPeers {net : Network} (ran : (network setup).run {} events = some net)
    (holds : Holds setup events net) {j : Nat} (noTester : NoTester setup j)
    {pip : Seeder.PeerInfoProvider} {nowSec : Nat} {peers : List Seeder.SeederListPeer}
    (done : Seeder.listPeers setup.seeder (setup.snodePass j) pip nowSec net.snode = .ok peers) :
    ∀ peer ∈ peers.map (Seeder.SeederListPeer.sent setup.base32), ∃ creds,
      Shows setup.base32 peer creds ∧ Offered setup j
        (peers.map (Seeder.SeederListPeer.sent setup.base32)) creds
          (events ++ [.ask j pip nowSec]) := by
  intro peer member
  obtain ⟨entry, inside, rfl⟩ := List.mem_map.mp member
  obtain ⟨p, inPeers, rfl, found⟩ := Seeder.listPeers_entries done entry inside
  have works := found noTester
  refine ⟨p.creds, ⟨holds.snode.plain p inPeers, rfl⟩, ?_⟩
  exact System.happened_now ran ⟨pip, nowSec, peers, p, rfl, done, rfl, inPeers, rfl, works,
    holds.snode.checked p inPeers works.works works.checked⟩

/-- The machine keeps what holds in a run, step by step.

Proof: one case for each event, by the lemma about the part of the machine it changes; the other
parts are kept. -/
theorem Holds.step (canonical : setup.base32.Canonical) {net next : Network} {event : Event}
    (ran : (network setup).run {} events = some net) (holds : Holds setup events net)
    (stepped : (network setup).step net event = some next) :
    Holds setup (events ++ [event]) next := by
  simp only [network] at stepped
  cases event with
  | credential sender binCreds index pip nowS out =>
    obtain ⟨⟨peerId, creds⟩, found, rfl⟩ := Option.map_eq_some_iff.mp stepped
    apply holds.next
    · exact keeps_handleCred _ _ _ _ _ _ _ _ _
    · exact holds.snode.credential _ (credentialAt_plain found) pip nowS out
    · exact fun i => Or.inl rfl
    · exact fun j _ => Or.inl rfl
  | fetch i pip nowSec =>
    dsimp only [Network.step] at stepped
    split at stepped
    · split at stepped
      · next peers done =>
        cases stepped
        apply holds.setTester
        have before := (keeps_self net.snode).carries (.fetch i pip nowSec) (holds.testers i)
        refine ⟨?_, ?_, ?_, before.tasks, before.testing, before.results⟩
        · rintro listings ⟨⟩
          exact listed_of_listPeers holds.snode done
        · rintro listings nows ⟨⟩
        · rintro nodes ⟨⟩
      · cases stepped
        exact holds.later _
    · cases stepped
  | act i action =>
    obtain ⟨tester, acted, rfl⟩ := Option.map_eq_some_iff.mp stepped
    have now := holds.snode.later (.act i action)
    have before := (keeps_self net.snode).carries (.act i action) (holds.testers i)
    apply holds.setTester
    apply before.act acted
    · exact fun slp stat node passed made => reported_of_passed canonical now passed made
    · rintro id attempts peer rfl taken ⟨q, member, shows⟩ success
      refine ⟨q, member, shows, System.happened_now ran ?_⟩
      obtain ⟨n, last, first, bound, tested⟩ := Ptest.runTest_ok (by decide) success
      exact ⟨id, attempts, peer, rfl, taken, shows.2, success, n, last, first, bound, tested,
        Ptest.test_ok tested⟩
  | report i nowS =>
    dsimp only [Network.step] at stepped
    split at stepped
    · next nodes posting =>
      cases stepped
      have keeps := keeps_testres setup.seeder { passwd := (setup.ptest i).pass, nodes } nowS
        net.snode
      apply holds.next
      · exact keeps
      · exact holds.snode.report ran rfl posting ((holds.testers i).posting nodes posting)
      · intro k
        by_cases same : k = i
        · subst same
          right
          have carries := (keeps.carries (.report k nowS) (holds.testers k)).idle
          simpa only [Network.setTester, Function.update_self] using carries
        · exact Or.inl (Function.update_of_ne same _ _)
      · exact fun j _ => Or.inl rfl
    · cases stepped
  | lose i =>
    dsimp only [Network.step] at stepped
    split at stepped
    · cases stepped
      exact holds.setTester _ ((keeps_self net.snode).carries _ (holds.testers i)).idle
    · cases stepped
  | ask j pip nowSec =>
    dsimp only [Network.step] at stepped
    split at stepped
    · next peers done =>
      cases stepped
      apply holds.setSource
      intro noTester
      refine ⟨?_, ((holds.sources j noTester).further _).stored⟩
      rintro answer ⟨⟩
      exact offered_of_listPeers ran holds noTester done
    · cases stepped
      exact holds.later _
  | update j nowSec =>
    dsimp only [Network.step] at stepped
    split at stepped
    · next peers waiting =>
      rw [updatePeers] at stepped
      split at stepped
      · next m stored =>
        cases stepped
        apply holds.setSource
        intro noTester
        split at stored
        · cases stored
        · cases stored
          refine ⟨by rintro answer ⟨⟩, ?_⟩
          intro peer listed
          obtain ⟨creds, shows, offered⟩ :=
            (holds.sources j noTester).answer peers waiting peer listed
          exact ⟨creds, shows, System.happened_now ran ⟨rfl, peers, waiting,
            ⟨peer, listed, shows⟩, offered⟩⟩
      · cases stepped
        apply holds.setSource
        intro noTester
        exact ⟨by rintro answer ⟨⟩, ((holds.sources j noTester).further _).stored⟩
    · cases stepped

/-- Nothing is known, worked on or stored at first. -/
theorem Holds.initial (setup : Setup) : Holds setup [] {} where
  snode := by
    refine ⟨?_, ?_, ?_⟩ <;>
    · intro p member
      cases member
  testers i := by
    refine ⟨?_, ?_, ?_, ?_, ?_, ?_⟩
    · rintro peers ⟨⟩
    · rintro peers nows ⟨⟩
    · rintro nodes ⟨⟩
    · exact fun peer member => absurd member List.not_mem_nil
    · exact fun peer member => absurd member List.not_mem_nil
    · exact fun result member => absurd member List.not_mem_nil
  sources j _ := by
    refine ⟨by rintro answer ⟨⟩, fun peer member => absurd member List.not_mem_nil⟩

/-- In every run all of it holds, by induction on the run. -/
theorem holds_of_run (canonical : setup.base32.Canonical) {net : Network}
    (ran : (network setup).run {} events = some net) : Holds setup events net := by
  refine System.run_history (Holds setup) (Holds.initial setup) ?_ ran
  intro before state event next reached holds stepped
  exact holds.step canonical reached stepped

/-- Entries that stay in two steps stay in both together. -/
theorem Keeps.trans {middle : Seeder.SeederMut} (first : Keeps m middle)
    (second : Keeps middle m') : Keeps m m' := by
  intro q member
  obtain ⟨between, inside, ip, creds⟩ := first q member
  obtain ⟨q', last, ip', creds'⟩ := second between inside
  exact ⟨q', last, ip'.trans ip, creds'.trans creds⟩

/-- No step takes an entry away.

Proof: one case for each event; entries change only with a credential of a post and with a
report. -/
theorem keeps_step {net next : Network} {event : Event}
    (stepped : (network setup).step net event = some next) : Keeps net.snode next.snode := by
  simp only [network] at stepped
  cases event with
  | credential sender binCreds index pip nowS out =>
    obtain ⟨⟨peerId, creds⟩, -, rfl⟩ := Option.map_eq_some_iff.mp stepped
    exact keeps_handleCred _ _ _ _ _ _ _ _ _
  | act i action =>
    obtain ⟨tester, -, rfl⟩ := Option.map_eq_some_iff.mp stepped
    exact keeps_self net.snode
  | report i nowS =>
    dsimp only [Network.step] at stepped
    split at stepped
    · cases stepped
      exact keeps_testres _ _ _ _
    · cases stepped
  | fetch i pip nowSec =>
    dsimp only [Network.step] at stepped
    split at stepped
    · split at stepped
      · cases stepped
        exact keeps_self net.snode
      · cases stepped
        exact keeps_self net.snode
    · cases stepped
  | lose i =>
    dsimp only [Network.step] at stepped
    split at stepped
    · cases stepped
      exact keeps_self net.snode
    · cases stepped
  | ask j pip nowSec =>
    dsimp only [Network.step] at stepped
    split at stepped
    · cases stepped
      exact keeps_self net.snode
    · cases stepped
      exact keeps_self net.snode
  | update j nowSec =>
    dsimp only [Network.step] at stepped
    split at stepped
    · split at stepped
      · cases stepped
        exact keeps_self net.snode
      · cases stepped
        exact keeps_self net.snode
    · cases stepped

/-- What happened in a run happened in a state whose entries are still there. -/
theorem kept_of_happened {what : List Event → Network → Event → Prop} {net : Network}
    (happened : Before setup what events) (ran : (network setup).run {} events = some net) :
    ∃ earlier event after state, events = earlier ++ after ∧ what earlier state event ∧
      Keeps state.snode net.snode := by
  obtain ⟨earlier, event, after, state, rfl, toHere, here⟩ := happened
  rw [System.run_append, toHere, Option.bind_some] at ran
  refine ⟨earlier, event, event :: after, state, rfl, here, ?_⟩
  have kept : ∀ middle event next, Keeps state.snode middle.snode →
      (network setup).step middle event = some next → Keeps state.snode next.snode :=
    fun middle event next before stepped => before.trans (keeps_step stepped)
  exact @System.run_keeps _ _ (network setup) (fun net => Keeps state.snode net.snode) kept _ _ _
    ran (keeps_self state.snode)

/-- With one entry for every address it is the supplied credentials that were tested. -/
theorem Supplied.tested {net : Network} {j storedAt : Nat} {creds : CjdnsPeer}
    (supplied : Supplied setup j storedAt creds events)
    (ran : (network setup).run {} events = some net) (one : Seeder.OneEntry net.snode) :
    ∃ i, Tested setup i creds events := by
  obtain ⟨untilStored, _, afterStored, _, rfl, ⟨-, _, -, -, offered⟩, -⟩ :=
    kept_of_happened supplied ran
  have offeredHere := System.Happened.further offered afterStored
  obtain ⟨untilAsked, _, afterAsked, asked, same, here, keepsAsked⟩ :=
    kept_of_happened offeredHere ran
  obtain ⟨_, _, _, p, -, -, -, inAsked, rfl, -, checked⟩ := here
  have checkedHere := System.Happened.further checked afterAsked
  rw [← same] at checkedHere
  obtain ⟨untilReported, _, afterReported, reported, sameReported, here, keepsReported⟩ :=
    kept_of_happened checkedHere ran
  obtain ⟨i, _, _, -, -, -, -, -, -, -, q, inReported, place, tested⟩ := here
  obtain ⟨p', inP, ipP, credsP⟩ := keepsAsked p inAsked
  obtain ⟨q', inQ, ipQ, credsQ⟩ := keepsReported q inReported
  have samePlace : p'.place = q'.place := by
    rw [Seeder.place_eq_iff] at place
    rw [Seeder.SeederPeer.place, Seeder.SeederPeer.place, ipP, credsP, ipQ, credsQ, place.1,
      place.2]
    rfl
  have sameEntry : p' = q' := one.eq_of_place inP inQ samePlace
  have sameCreds : q.creds = p.creds := by rw [← credsQ, ← sameEntry, credsP]
  have testedHere := System.Happened.further tested afterReported
  rw [← sameReported, sameCreds] at testedHere
  exact ⟨i, testedHere⟩

/-- The credentials of a post from one on are handled step by step.

Proof: induction on the credentials that are left. Each is one event of the run, until one of
them is refused or panics. -/
theorem handleCreds_run {sender : Ip6} {binCreds : List UInt8} {record : CjdnsTxtRecord}
    (decoded : CjdnsTxtRecord.decodeBin binCreds = .ok record) {peerId : PeerID}
    (identified : record.peerId = some peerId) (pip : Seeder.PeerInfoProvider)
    (earlier rest : List CjdnsPeer) (whole : record.peers = earlier ++ rest)
    (clock : Nat → Nat) (selections : List CjdnsPeer) (net : Network) :
    ∃ steps : List Event,
      (∀ event ∈ steps, ∃ index nowS out,
        event = .credential sender binCreds index pip nowS out) ∧
      (network setup).run net steps = some { net with
        snode := (Seeder.handleCreds setup.crypto setup.seeder sender peerId pip clock rest
          selections net.snode).2 } := by
  induction rest generalizing earlier clock selections net with
  | nil => exact ⟨[], fun event listed => absurd listed List.not_mem_nil, rfl⟩
  | cons creds rest inductionHypothesis =>
    have here : credentialAt binCreds earlier.length = some (peerId, creds) := by
      simp only [credentialAt, decoded, identified, Option.bind_some, whole,
        List.getElem?_append_right (Nat.le_refl _), Nat.sub_self, List.getElem?_cons_zero,
        Option.map_some]
    let first : Event :=
      .credential sender binCreds earlier.length pip (clock 0) selections
    have stepped : (network setup).step net first = some { net with
        snode := (Seeder.handleCred setup.crypto setup.seeder sender peerId creds pip (clock 0)
          selections net.snode).2 } := by
      simp only [network, Network.step, here, Option.map_some, first]
    have own : ∃ index nowS out, first = .credential sender binCreds index pip nowS out :=
      ⟨_, _, _, rfl⟩
    rw [Seeder.handleCreds]
    cases handled : Seeder.handleCred setup.crypto setup.seeder sender peerId creds pip (clock 0)
        selections net.snode with
    | mk outcome m =>
      rw [handled] at stepped
      cases outcome with
      | ok selected =>
        have split : record.peers = (earlier ++ [creds]) ++ rest := by
          rw [whole, List.append_assoc, List.singleton_append]
        obtain ⟨steps, all, ran⟩ := inductionHypothesis (earlier ++ [creds]) split
          (fun reading => clock (reading + 1)) selected { net with snode := m }
        refine ⟨first :: steps, List.forall_mem_cons.mpr ⟨own, all⟩, ?_⟩
        rw [System.run, stepped, Option.bind_some]
        exact ran
      | err fault =>
        refine ⟨[first], List.forall_mem_singleton.mpr own, ?_⟩
        rw [System.run_singleton]
        exact stepped
      | panicked =>
        refine ⟨[first], List.forall_mem_singleton.mpr own, ?_⟩
        rw [System.run_singleton]
        exact stepped

/-- A whole post does what some steps do that handle its credentials one by one.

Proof: a post that is not read, or has no peer id, does nothing; else its credentials are
handled one by one. -/
theorem post_run (setup : Setup) (sender : Ip6) (binCreds : List UInt8)
    (around : Seeder.Surroundings) (net : Network) :
    ∃ steps : List Event,
      (∀ event ∈ steps, ∃ index nowS out,
        event = .credential sender binCreds index around.pip nowS out) ∧
      (network setup).run net steps = some { net with
        snode := (Seeder.postCredentials setup.crypto setup.seeder sender binCreds around
          net.snode).2 } := by
  have nothing : ∃ steps : List Event,
      (∀ event ∈ steps, ∃ index nowS out,
        event = .credential sender binCreds index around.pip nowS out) ∧
      (network setup).run net steps = some net :=
    ⟨[], fun event listed => absurd listed List.not_mem_nil, rfl⟩
  rw [Seeder.postCredentials]
  cases decoded : CjdnsTxtRecord.decodeBin binCreds with
  | error fault => exact nothing
  | ok record =>
    cases identified : record.peerId with
    | none =>
      simp only [identified]
      exact nothing
    | some peerId =>
      simp only [identified]
      obtain ⟨steps, own, ran⟩ : ∃ steps : List Event,
          (∀ event ∈ steps, ∃ index nowS out,
            event = .credential sender binCreds index around.pip nowS out) ∧
          (network setup).run net steps = some { net with
            snode := (Seeder.handleCreds setup.crypto setup.seeder sender peerId around.pip
              around.clock record.peers [] net.snode).2 } :=
        handleCreds_run decoded identified around.pip [] record.peers rfl around.clock [] net
      refine ⟨steps, own, ran.trans ?_⟩
      cases Seeder.handleCreds setup.crypto setup.seeder sender peerId around.pip around.clock
          record.peers [] net.snode with
      | mk outcome m => cases outcome <;> rfl

/-- A nameserver that does not ask as a tester serves a seed only as a record, in at most two
strings that a DNS record has room for. It lists three credentials that the nameserver stored at
most five minutes ago. They had been listed to it as found to work: a tester had reported a success
for their node and address less than an hour before, and had made a connection with credentials
for these. With one entry for every address it had made it with the listed credentials.

The run is read from its end: what is stored was supplied, what is supplied was offered, what is
offered was checked, and what is checked was tested. -/
theorem seeds_work (canonical : setup.base32.Canonical) {net : Network}
    (ran : (network setup).run {} events = some net) {j : Nat} (noTester : NoTester setup j)
    {draws : Nat → Nat} {nowSec : Nat} {seed : Text}
    (served : getSeedTxt setup.base32 (setup.snodeKey j) draws nowSec (net.sources j).m =
      .ok seed) :
    (∃ strings, seedStrings seed = .ok strings ∧ strings.length ≤ 2 ∧ strings.flatten = seed ∧
      ∀ string ∈ strings, byteLength string ≤ 255) ∧
    ∃ record : CjdnsTxtRecord, CjdnsTxtRecord.decode seed = .ok record ∧
      record.snodePubkey = setup.snodeKey j ∧
      record.peers.length = (if (net.sources j).m.peers.isEmpty then 0 else 3) ∧
      ∀ creds ∈ record.peers,
        (∃ storedAt, storedAt ≤ nowSec ∧ nowSec ≤ storedAt + 300 ∧
          Supplied setup j storedAt creds events) ∧
        (Seeder.OneEntry net.snode → ∃ i, Tested setup i creds events) := by
  have sourceHolds := (holds_of_run canonical ran).sources j noTester
  have shown : ∀ peer ∈ (net.sources j).m.peers, ∃ creds, Shows setup.base32 peer creds := by
    intro peer listed
    obtain ⟨creds, shows, -⟩ := sourceHolds.stored peer listed
    exact ⟨creds, shows⟩
  obtain ⟨past, recent, record, decoded, key, noPid, count, drawn, encoded⟩ :=
    getSeedTxt_ok canonical shown served
  have few : record.peers.length ≤ 3 := by
    rw [count]
    split <;> decide
  refine ⟨seedStrings_ok few noPid encoded, record, decoded, key, count, ?_⟩
  intro creds listed
  obtain ⟨peer, member, shows⟩ := drawn creds listed
  obtain ⟨own, ownShows, supplied⟩ := sourceHolds.stored peer member
  rw [ownShows.unique canonical shows] at supplied
  exact ⟨⟨_, past, recent, supplied⟩, supplied.tested ran⟩

end

namespace Sample

/-- One tester that takes any supernode, and a nameserver. -/
def setup : Setup where
  crypto := Seeder.Sample.crypto
  base32 := dnscurve
  shown _ := "Failed".toList
  seeder := Seeder.Sample.config
  ptest _ := { retestAfterMinutes := 10, parallelTests := 1, pass := ['t'], requireSnode := none }
  snodePass _ := ['n']
  snodeKey _ := none

/-- The last page of a listing. -/
def page (key : String) (items : List Bencode.Object) : Bencode.Dict :=
  Bencode.Dict.insert key (.list items) []

/-- An established connection as the node shows it. -/
def connection (publicKey : Text) : Bencode.Object :=
  let text := fun (content : String) => Bencode.Object.ofText content.toList
  let counters := ["bytesIn", "bytesOut", "duplicates", "ifNum", "isIncoming", "last",
    "lostPackets", "noiseProto", "receivedOutOfRange", "receivedPackets", "recvKbps", "sendKbps"]
  .dict (counters.foldr (fun key rest => Bencode.Dict.insert key (.integer 0) rest)
    (Bencode.Dict.insert "addr"
      (Bencode.Object.ofText ("v22.0000.0000.0000.0013.".toList ++ publicKey))
      (Bencode.Dict.insert "lladdr" (text "198.51.100.7:4000")
        (Bencode.Dict.insert "state" (text "ESTABLISHED") []))))

/-- The interface that the node has. -/
def interface : Bencode.Object :=
  .dict (Bencode.Dict.insert "beaconState" (Bencode.Object.ofText "OFF".toList)
    (Bencode.Dict.insert "ifNum" (.integer 0)
      (Bencode.Dict.insert "name" (Bencode.Object.ofText "UDP/IPv4/0.0.0.0".toList) [])))

/-- Nobody is connected at first. The connection is established at the second look, and the peer
names its supernode. -/
def replies (publicKey : Text) : List Ptest.Reply :=
  [.ok (page "peers" []), .ok (page "ifaces" [interface]), .ok (page "peers" []), .ok [],
    .ok (page "peers" []), .ok (page "peers" [connection publicKey]),
    .ok (Bencode.Dict.insert "result" (Bencode.Object.ofText "pong".toList)
      (Bencode.Dict.insert "snode" (Bencode.Object.ofText key) []))]

/-- A node posts its credentials, they are tested and listed, and the answer arrives. -/
def events : List Event :=
  [.credential Seeder.Sample.sender (Seeder.Sample.binCreds Seeder.Sample.publicId 6) 0
      (fun _ _ => (0, false)) 10000 [],
    .fetch 0 (fun _ _ => (0, false)) 10001, .act 0 (.begin 10002 10002), .act 0 .send,
    .act 0 (.take 0),
    .act 0 (.finish 0 fun _ => replies (Keys.toText dnscurve Bytes.Sample.peerV4.pubkey)),
    .act 0 .collect, .report 0 10030, .ask 0 (fun _ _ => (0, false)) 10060, .update 0 10061]

end Sample

/-- A seed of three times the credentials that were tested is served. -/
theorem seed_of_tested_peer : ∃ net seed record,
    (network Sample.setup).run {} Sample.events = some net ∧
      getSeedTxt dnscurve none id 10100 (net.sources 0).m = .ok seed ∧
      CjdnsTxtRecord.decode seed = .ok record ∧ record.peers.length = 3 ∧
      ∀ creds ∈ record.peers, ∃ storedAt, Supplied Sample.setup 0 storedAt creds Sample.events := by
  have passes : ((network Sample.setup).run {} Sample.events).any (fun net =>
      (getSeedTxt dnscurve none id 10100 (net.sources 0).m).toOption.isSome &&
        !(net.sources 0).m.peers.isEmpty) = true := by
    decide +kernel
  obtain ⟨net, ran, both⟩ := (Option.any_eq_true _ _).mp passes
  rw [Bool.and_eq_true, Bool.not_eq_true'] at both
  obtain ⟨seed, served, -⟩ := Outcome.exists_ok_of_any
    (getSeedTxt dnscurve none id 10100 (net.sources 0).m) (fun _ => true)
    (by simpa using both.1)
  obtain ⟨-, record, decoded, -, count, found⟩ := seeds_work canonical_dnscurve ran rfl served
  rw [both.2] at count
  refine ⟨net, seed, record, ran, served, decoded, count, ?_⟩
  intro creds listed
  obtain ⟨⟨storedAt, -, -, supplied⟩, -⟩ := found creds listed
  exact ⟨storedAt, supplied⟩

end RouteServer.Nameserver
