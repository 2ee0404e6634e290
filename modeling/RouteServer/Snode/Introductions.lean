import RouteServer.Bytes.PeeringLine
import RouteServer.Seeder.Replies
import RouteServer.Snode.Requests

/-!
# Introductions

A node that posts credentials is told of other nodes that it may connect to. Whether a node has
room for it, and whether they are peers already, is read off the tables of announcements. So it is
told of known nodes only, that have room and announced no link from it.
-/

namespace RouteServer.Seeder

open Rust Bytes Keys

section

variable {crypto : Crypto} {config : SeederConfig} {sender : Ip6}

/-- Credentials of another node are refused, and with them all. -/
theorem own_of_handled {peerId : PeerID} {pip : PeerInfoProvider} {clock : Nat → Nat}
    {peers out selections : List CjdnsPeer} {m next : SeederMut}
    (done : handleCreds crypto config sender peerId pip clock peers out m =
      (.ok selections, next)) : ∀ creds ∈ peers, isOwn crypto sender creds = true := by
  induction peers generalizing clock out m with
  | nil => exact fun creds member => absurd member List.not_mem_nil
  | cons first rest inductionHypothesis =>
    rw [handleCreds] at done
    cases own : isOwn crypto sender first with
    | false =>
      obtain ⟨fault, refused⟩ := handleCred_other config peerId own pip (clock 0) out m
      rw [refused] at done
      cases done
    | true =>
      split at done
      · exact List.forall_mem_cons.mpr ⟨own, inductionHypothesis done⟩
      · cases done
      · cases done

/-- Some of the credentials that were chosen are written, and read as they were.

Proof: each credential that was kept is that of a peer, so its address can be written as it is;
what is then written is read back. -/
theorem answer_of_selections {pip : PeerInfoProvider} {posted : List CjdnsPeer} {m : SeederMut}
    {selections kept : List CjdnsPeer} (chosen : Chosen config sender pip posted m selections)
    (plain : AllPlain m) (among : kept.Sublist selections) (few : kept.length ≤ 6)
    {bytes : List UInt8}
    (answered : ((CjdnsTxtRecord.encodeBin { peers := kept } Message.new).mapErr Report.wire >>=
      fun msg => .ok msg.asVec) = .ok bytes) :
    ∃ reply, CjdnsTxtRecord.decodeBin bytes = .ok reply ∧ bytes.length ≤ 468 ∧
      reply.peers.length ≤ 6 ∧ reply.peers.Nodup ∧
      ∀ creds ∈ reply.peers, ∃ p ∈ m.peers, p.creds = creds ∧ Suits config sender pip posted p := by
  have entries : ∀ creds ∈ kept, ∃ p ∈ m.peers, p.creds = creds ∧
      Suits config sender pip posted p := fun creds listed =>
    chosen.entries creds (among.subset listed)
  have plainReply : ∀ creds ∈ kept, creds.address.Plain := by
    intro creds listed
    obtain ⟨p, member, rfl, -⟩ := entries creds listed
    exact plain p member
  have noPid : ∀ pid ∈ ({ peers := kept } : CjdnsTxtRecord).peerId, pid.id.length ≤ 64 := by
    rintro pid ⟨⟩
  obtain ⟨written, encoded, readBack⟩ := CjdnsTxtRecord.encodeBin_read_back
    (Message.holds_withChunkSize 0) (show CjdnsTxtRecord.unknownRecords { peers := kept } = [] from
      rfl) noPid plainReply
  obtain ⟨next, again, held⟩ := message_prepends.encodeBin (Message.holds_withChunkSize 0) noPid
  cases encoded.symm.trans again
  rw [Message.new, encoded] at answered
  cases answered
  refine ⟨_, readBack, ?_, few, among.nodup chosen.distinct, entries⟩
  have items := CjdnsTxtRecord.length_wire_peers kept
  rw [held.asVec, List.append_nil]
  exact items.trans (by omega)

/-- A post is answered when all its credentials were handled, and with what is left of the
selections.

Proof: the calls of the request one after the other, each of which has to succeed. -/
theorem postCredentials_ok {binCreds bytes : List UInt8} {around : Surroundings} {m : SeederMut}
    (answered : (postCredentials crypto config sender binCreds around m).1 = .ok bytes) :
    ∃ record peerId selections, CjdnsTxtRecord.decodeBin binCreds = .ok record ∧
      record.peerId = some peerId ∧
      handleCreds crypto config sender peerId around.pip around.clock record.peers [] m =
        (.ok selections, (postCredentials crypto config sender binCreds around m).2) ∧
      ((CjdnsTxtRecord.encodeBin { peers := removeSurplus around.draws selections }
        Message.new).mapErr Report.wire >>= fun msg => .ok msg.asVec) = .ok bytes := by
  rw [postCredentials] at answered ⊢
  cases decoded : CjdnsTxtRecord.decodeBin binCreds with
  | error fault =>
    simp only [decoded] at answered
    cases answered
  | ok record =>
    cases identified : record.peerId with
    | none =>
      simp only [decoded, identified] at answered
      cases answered
    | some peerId =>
      simp only [decoded, identified] at answered
      cases handled : handleCreds crypto config sender peerId around.pip around.clock record.peers
        [] m with
      | mk outcome next =>
        simp only [handled] at answered
        cases outcome with
        | ok selections =>
          refine ⟨record, peerId, selections, rfl, identified, ?_, answered⟩
          simp only [identified, handled]
        | err fault => cases answered
        | panicked => cases answered

/-- An answer to a post lists at most six credentials, no two of them the same, of entries that
suit the sender. -/
theorem answer_suits {events : List Call} {m : SeederMut}
    (reached : (seeder crypto config).Reached events m) {binCreds bytes : List UInt8}
    {around : Surroundings}
    (answered : (postCredentials crypto config sender binCreds around m).1 = .ok bytes) :
    ∃ posted reply, CjdnsTxtRecord.decodeBin bytes = .ok reply ∧ bytes.length ≤ 468 ∧
      reply.peers.length ≤ 6 ∧ reply.peers.Nodup ∧
      ∀ creds ∈ reply.peers,
        ∃ p ∈ (postCredentials crypto config sender binCreds around m).2.peers,
          p.creds = creds ∧ Suits config sender around.pip posted p := by
  obtain ⟨keyed, plain⟩ := keyed_of_reached reached
  have stepped : (seeder crypto config).step m (.post sender binCreds around) =
      some (postCredentials crypto config sender binCreds around m).2 := rfl
  have plainNext := plain.step keyed stepped
  obtain ⟨record, peerId, selections, -, -, handled, encoded⟩ := postCredentials_ok answered
  have nothing : Chosen config sender around.pip record.peers m [] :=
    ⟨List.nodup_nil, by simp⟩
  obtain ⟨chosenOnes, last, done, -, chosen, -⟩ :=
    nothing.handleCreds keyed peerId around.clock (fun _ listed => listed)
      (own_of_handled handled)
  cases handled.symm.trans done
  obtain ⟨among, few, -⟩ := removeSurplus_spec around.draws selections
  exact ⟨record.peers, answer_of_selections chosen plainNext among few encoded⟩

end

end RouteServer.Seeder

namespace RouteServer.Snode

open Rust Bytes Keys Ann Hdr
open Bencode (Dict bstr allocated allocated_bytes)

/-- A recorded node that a sender may be told of: another node of the table, that has room and no
link from the sender. -/
structure Introducible (config : Seeder.SeederConfig) (nodes : Nodes) (sender : Ip6)
    (p : Seeder.SeederPeer) : Prop where
  isPublic : p.isPrivate = false
  notSender : p.ip ≠ sender
  known : ∃ node, nodes.lookup p.ip = some node ∧ node.inwardLinksByIp.lookup sender = none ∧
    node.inwardLinksByIp.entries.length < config.maxConnectionCount

/-- Who suits may be introduced: fewer connections than the limit, and none to the sender. -/
theorem introducible_of_suits {config : Seeder.SeederConfig} {nodes : Nodes} {sender : Ip6}
    {posted : List CjdnsPeer} {p : Seeder.SeederPeer}
    (bounded : config.maxConnectionCount ≤ usizeMax)
    (suits : Seeder.Suits config sender (peerInfo nodes) posted p) :
    Introducible config nodes sender p := by
  obtain ⟨isPublic, notSender, notPeered, notFull, -⟩ := suits
  refine ⟨isPublic, notSender, ?_⟩
  rw [peerInfo] at notPeered notFull
  cases found : nodes.lookup p.ip with
  | none =>
    rw [found] at notFull
    exact absurd notFull (Nat.not_lt.mpr bounded)
  | some node =>
    rw [found] at notPeered notFull
    refine ⟨node, rfl, ?_, notFull⟩
    exact Option.not_isSome_iff_eq_none.mp (Bool.eq_false_iff.mp notPeered)

/-- **A node is introduced to nodes that have room for it and are not its peers.** In every run
of a supernode, an answer that has an entry for credentials lists at most six of them, no two of
them the same. Each is recorded for another node that is known, is public, has fewer peers than
the configuration permits and announced no link from the sender.

Proof: only a post is answered with credentials, and its reply suits the sender. What the
supernode knows of its peers is what the table of the router has. -/
theorem introductions_fit {config : Config} {around : Around} {self : Supernode}
    {events : List SupernodeEvent}
    (ran : (supernode config).run (supernode config).initial events = some self)
    (bounded : config.seeder.maxConnectionCount ≤ usizeMax) {msg answer : Sniff.Message}
    (answered : self.onSubnodeMessage config around msg = .ok (some answer)) {res : Dict}
    (holds : answer.content = .benc res) {bytes : Bencode.Bstr}
    (given : res.getBytes "pr" = some bytes) :
    ∃ sender reply next, msg.routeHeader.ip6 = some sender ∧
      self.step config (.message msg around) = some next ∧
      CjdnsTxtRecord.decodeBin bytes.bytes = .ok reply ∧ reply.peers.length ≤ 6 ∧
      reply.peers.Nodup ∧ ∀ creds ∈ reply.peers, ∃ p ∈ next.seeder.peers, p.creds = creds ∧
        Introducible config.seeder self.router.server.nodes sender p := by
  obtain ⟨content, request, made, asks, answers, rfl⟩ := asks_of_answered answered
  cases holds
  obtain ⟨-, address, -, -⟩ := readRequest_ok asks.read
  have inMessage : self.requestIn msg = some request := by
    rw [Supernode.requestIn, asks.holds]
    simp only [asks.read]
  have onlyPosts : (∀ pc, request.query ≠ .pc pc) → False := by
    intro other
    cases (answer_pr answers other).symm.trans given
  obtain ⟨version, sender, txid, selfVersion, query⟩ := request
  cases query with
  | pc pc =>
    simp only [Supernode.answer, answerCreds] at answers
    split at answers
    · next r posted =>
      cases answers
      rw [Dict.getBytes_insert] at given
      cases given
      have reached := Machine.System.reached_of_run (seeder_of_run ran)
      obtain ⟨posts, reply, readBack, few, most, distinct, entries⟩ :=
        Seeder.answer_suits reached posted
      have stepped : self.step config (.message msg around) = some ⟨self.router,
          (Seeder.postCredentials config.crypto config.seeder sender pc (self.surroundings around)
            self.seeder).2⟩ := by
        simp only [Supernode.step, Supernode.routerEvents, Supernode.seederCalls, inMessage]
        rfl
      refine ⟨sender, reply, _, address, stepped, ?_, most, distinct, ?_⟩
      · rwa [allocated_bytes (few.trans_lt (by decide))]
      · intro creds listed
        obtain ⟨p, member, same, suits⟩ := entries creds listed
        exact ⟨p, member, same, introducible_of_suits bounded suits⟩
    · split at answers
      · cases answers
        rw [Dict.getBytes_insert_ne (by decide +kernel),
          getBytes_answerTo_other (by decide +kernel)] at given
        cases given
      · cases answers
    · cases answers
  | gr src tar => exact (onlyPosts fun pc same => by cases same).elim
  | ann ann => exact (onlyPosts fun pc same => by cases same).elim
  | pn => exact (onlyPosts fun pc same => by cases same).elim

namespace Sample

/-- The cryptographic library for the neighbours and a newcomer. What is hashed for the newcomer
ends with the last byte of its key, and nothing that is hashed for them does. -/
def townCrypto : Crypto :=
  { neighbourCrypto with
    sha512 := fun bytes =>
      if bytes.getLast? = some 71 then Seeder.Sample.crypto.sha512 bytes
      else neighbourCrypto.sha512 bytes }

def townConfig : Config :=
  { supernodeConfig with
    crypto := townCrypto
    seeder := Seeder.Sample.config }

/-- A post of credentials. -/
def postMessage (publicKey : Option PublicKey) (ip6 : Ip6) (pc : List UInt8) : Sniff.Message where
  routeHeader := { Sniff.plainHeader false with publicKey, ip6 := some ip6 }
  contentType := .cjdht
  content := .benc [(bstr "pc", .bytes (allocated pc)), (bstr "sq", .bytes (bstr "pc")),
    (bstr "txid", .bytes (bstr "1"))]
  rawBytes := none

/-- A credential of one of the neighbours. -/
def northCreds : List UInt8 :=
  [4, 7] ++ Seeder.Sample.publicId ++
    ([2, 50, 192, 0, 2, 1, 1, 187, 5] ++ List.replicate 8 6 ++ northKey.bytes ++ [22])

/-- The neighbour posts it. -/
def settled : List SupernodeEvent :=
  acquainted ++ [.message (postMessage (some northKey) north northCreds) aSecond]

/-- The newcomer posts its own. -/
def newcomerPost : Sniff.Message :=
  postMessage (Seeder.Sample.newcomerRecord.peers.head?.map CjdnsPeer.pubkey)
    Seeder.Sample.newcomer Seeder.Sample.newcomerCreds

end Sample

/-- The newcomer is told of the neighbour.

Proof: the run is evaluated to its answer, and the theorem about replies says what the answer
holds. -/
theorem newcomer_is_introduced : ∃ self answer, ∃ (res : Dict) (bytes : Bencode.Bstr),
    (supernode Sample.townConfig).run (supernode Sample.townConfig).initial Sample.settled =
        some self ∧
      Sample.townConfig.seeder.maxConnectionCount ≤ usizeMax ∧
      self.onSubnodeMessage Sample.townConfig Sample.aSecond Sample.newcomerPost =
        .ok (some answer) ∧
      answer.content = .benc res ∧ res.getBytes "pr" = some bytes ∧
      ∃ sender reply next, Sample.newcomerPost.routeHeader.ip6 = some sender ∧
        CjdnsTxtRecord.decodeBin bytes.bytes = .ok reply ∧ reply.peers ≠ [] ∧
        ∀ creds ∈ reply.peers, ∃ p ∈ Seeder.SeederMut.peers next, p.creds = creds ∧
          Introducible Sample.townConfig.seeder self.router.server.nodes sender p := by
  have passes : ((supernode Sample.townConfig).run (supernode Sample.townConfig).initial
      Sample.settled).any (fun self =>
        (self.onSubnodeMessage Sample.townConfig Sample.aSecond
          Sample.newcomerPost).toOption.any (fun answer => answer.any (fun answer =>
            (Sample.entry "pr" answer).any fun bytes =>
              (CjdnsTxtRecord.decodeBin bytes.bytes).toOption.any fun reply =>
                !reply.peers.isEmpty))) = true := by
    decide +kernel
  obtain ⟨self, ran, passes⟩ := (Option.any_eq_true _ _).mp passes
  obtain ⟨given, answered, passes⟩ := Outcome.exists_ok_of_any _ _ passes
  obtain ⟨answer, rfl, hasCreds⟩ := (Option.any_eq_true _ _).mp passes
  obtain ⟨bytes, present, some⟩ := (Option.any_eq_true _ _).mp hasCreds
  obtain ⟨res, holds, found⟩ := Sample.entry_some present
  have bounded : Sample.townConfig.seeder.maxConnectionCount ≤ usizeMax := by decide
  obtain ⟨sender, reply, next, address, -, readBack, -, -, entries⟩ :=
    introductions_fit ran bounded answered holds found
  rw [readBack] at some
  refine ⟨self, answer, res, bytes, ran, bounded, answered, holds, found, sender, reply,
    next.seeder, address, readBack, ?_, entries⟩
  rintro empty
  rw [Except.toOption, Option.any_some, empty] at some
  cases some

end RouteServer.Snode
