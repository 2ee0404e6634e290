import RouteServer.Seeder.Privacy

/-!
# What a sender gets for its credentials

Each posted credential adds to one list of selections, and the selections of a post are cut
down at random at its end. A peer is added only if it may be handed out to the sender at
that moment, and nothing that is recorded later in the post takes this from it: entries
keep their node, their credentials and their flag. The list only grows before the end and
never loses its first element there.
-/

namespace RouteServer.Seeder

open Rust Bytes Keys

/-- What an entry needs to be handed out to a sender that posted some credentials. -/
structure Suits (config : SeederConfig) (sender : Ip6) (pip : PeerInfoProvider)
    (posted : List CjdnsPeer) (p : SeederPeer) : Prop where
  isPublic : p.isPrivate = false
  notSender : p.ip ≠ sender
  notPeered : (pip p.ip (some sender)).2 = false
  notFull : (pip p.ip (some sender)).1 < config.maxConnectionCount
  family : ∃ creds ∈ posted, isIpv6 p.creds.address = isIpv6 creds.address

/-- Selections are distinct and belong to entries that may be handed out. -/
structure Chosen (config : SeederConfig) (sender : Ip6) (pip : PeerInfoProvider)
    (posted : List CjdnsPeer) (m : SeederMut) (out : List CjdnsPeer) : Prop where
  distinct : out.Nodup
  entries : ∀ creds ∈ out, ∃ p ∈ m.peers, p.creds = creds ∧ Suits config sender pip posted p

/-- An entry may be introduced to another node that is not connected to it if it has a connection
left. -/
theorem isAppropriate_iff (config : SeederConfig) (peer sender : Ip6) (pip : PeerInfoProvider) :
    isAppropriate config peer (some sender) pip = true ↔
      peer ≠ sender ∧ (pip peer (some sender)).2 = false ∧
        (pip peer (some sender)).1 < config.maxConnectionCount := by
  simp only [isAppropriate, Option.some.injEq]
  split_ifs with same
  · simp [same]
  · simp [Ne.symm same]

section

variable {crypto : Crypto} {config : SeederConfig} {sender : Ip6} {pip : PeerInfoProvider}
  {posted : List CjdnsPeer} {m : SeederMut}

/-- Who is accepted suits, by the checks of the scan. -/
theorem Asked.suits_of_accepts {creds : CjdnsPeer} (inPost : creds ∈ posted)
    {out : List CjdnsPeer} {peer : SeederPeer}
    (accepted : Asked.accepts { config, sender, wantsIpv6 := isIpv6 creds.address, pip } out
      peer = true) : Suits config sender pip posted peer ∧ peer.creds ∉ out := by
  simp only [Asked.accepts, Bool.and_eq_true, Bool.not_eq_true', beq_iff_eq] at accepted
  obtain ⟨⟨⟨isPublic, family⟩, isNew⟩, suits⟩ := accepted
  obtain ⟨notSender, notPeered, notFull⟩ := (isAppropriate_iff _ _ _ _).mp suits
  refine ⟨⟨isPublic, notSender, notPeered, notFull, creds, inPost, family⟩, ?_⟩
  simpa using isNew

/-- What has been chosen stays so when further credentials are recorded. -/
theorem Chosen.records {peerId : PeerID} {recorded out : List CjdnsPeer} {next : SeederMut}
    (chosen : Chosen config sender pip posted m out)
    (records : Records sender peerId recorded m next) :
    Chosen config sender pip posted next out := by
  refine ⟨chosen.distinct, ?_⟩
  intro creds listed
  obtain ⟨p, member, same, suits⟩ := chosen.entries creds listed
  obtain ⟨p', inNext, continued⟩ := records.continued p member
  refine ⟨p', inNext, continued.creds.trans same, ?_⟩
  obtain ⟨isPublic, notSender, notPeered, notFull, family⟩ := suits
  rw [← continued.ip] at notSender notPeered notFull
  rw [← continued.creds] at family
  exact ⟨continued.isPrivate.trans isPublic, notSender, notPeered, notFull, family⟩

/-- A credential of the post is handled, and what it adds is chosen behind the others.

Proof: what was chosen before still has its entry after the credential is recorded; then each of
the selections adds accepted peers at the end. -/
theorem Chosen.handleCred (keyed : Keyed crypto m) {out : List CjdnsPeer}
    (chosen : Chosen config sender pip posted m out) {creds : CjdnsPeer}
    (inPost : creds ∈ posted) (own : isOwn crypto sender creds = true) (peerId : PeerID)
    (nowS : Nat) :
    ∃ selected, handleCred crypto config sender peerId creds pip nowS out m =
        (.ok selected, (updateOrInsert sender peerId creds nowS m).2) ∧
      Chosen config sender pip posted (updateOrInsert sender peerId creds nowS m).2 selected ∧
      out <+: selected := by
  obtain ⟨selected, handled⟩ := handleCred_own keyed config peerId own pip nowS out
  refine ⟨selected, handled, ?_⟩
  generalize recorded : (updateOrInsert sender peerId creds nowS m).2 = next
  have before : Chosen config sender pip posted next out := by
    rw [← recorded]
    exact chosen.records (keyed.records_one peerId nowS)
  have keeps : ∀ selection, ∀ peer ∈ next.peers,
      Asked.accepts { config, sender, wantsIpv6 := isIpv6 creds.address, pip } selection peer =
        true →
      Chosen config sender pip posted next selection ∧ out <+: selection →
      Chosen config sender pip posted next (selection ++ [peer.creds]) ∧
        out <+: selection ++ [peer.creds] := by
    rintro selection peer member accepted ⟨kept, inFront⟩
    obtain ⟨suits, isNew⟩ := Asked.suits_of_accepts inPost accepted
    refine ⟨⟨?_, ?_⟩, inFront.trans (List.prefix_append _ _)⟩
    · exact List.nodup_append'.mpr ⟨kept.distinct, List.nodup_singleton _,
        List.disjoint_singleton.mpr isNew⟩
    · intro each listed
      rcases List.mem_append.mp listed with earlier | new
      · exact kept.entries each earlier
      · exact ⟨peer, member, (List.mem_singleton.mp new).symm, suits⟩
  have key : Ip6.ofPublicKey crypto creds.pubkey = some sender := beq_iff_eq.mp own
  rw [Seeder.handleCred, key] at handled
  simp only [ne_eq, not_true_eq_false, if_false, Prod.mk.injEq, recorded, and_true] at handled
  exact selectPeers_keeps keeps handled ⟨before, List.prefix_rfl⟩

/-- The credentials of a post are handled one after the other, whatever was chosen before. -/
theorem Chosen.handleCreds (keyed : Keyed crypto m) {out : List CjdnsPeer}
    (chosen : Chosen config sender pip posted m out) (peerId : PeerID) (clock : Nat → Nat)
    {peers : List CjdnsPeer} (inPost : ∀ creds ∈ peers, creds ∈ posted)
    (own : ∀ creds ∈ peers, isOwn crypto sender creds = true) :
    ∃ selections next, handleCreds crypto config sender peerId pip clock peers out m =
        (.ok selections, next) ∧ Keyed crypto next ∧
      Chosen config sender pip posted next selections ∧ out <+: selections := by
  induction peers generalizing m clock out with
  | nil => exact ⟨out, m, rfl, keyed, chosen, List.prefix_rfl⟩
  | cons creds rest inductionHypothesis =>
    obtain ⟨firstPosted, othersPosted⟩ := List.forall_mem_cons.mp inPost
    obtain ⟨firstOwn, othersOwn⟩ := List.forall_mem_cons.mp own
    obtain ⟨selected, handled, chosenNext, inFront⟩ :=
      chosen.handleCred keyed firstPosted firstOwn peerId (clock 0)
    obtain ⟨selections, next, others, keyedLast, chosenLast, behind⟩ := inductionHypothesis
      (keyed.updateOrInsert (beq_iff_eq.mp firstOwn) peerId (clock 0)) chosenNext
      (fun reading => clock (reading + 1)) othersPosted othersOwn
    refine ⟨selections, next, ?_, keyedLast, chosenLast, inFront.trans behind⟩
    rw [Seeder.handleCreds, handled]
    exact others

end

/-- The credentials behind some that were handled are handled from where these ended. -/
theorem handleCreds_append {crypto : Crypto} {config : SeederConfig} {sender : Ip6}
    {peerId : PeerID} {pip : PeerInfoProvider} {clock : Nat → Nat}
    {handled out selections : List CjdnsPeer} {m next : SeederMut}
    (done : handleCreds crypto config sender peerId pip clock handled out m =
      (.ok selections, next)) (ahead : List CjdnsPeer) :
    handleCreds crypto config sender peerId pip clock (handled ++ ahead) out m =
      handleCreds crypto config sender peerId pip (fun reading => clock (reading + handled.length))
        ahead selections next := by
  induction handled generalizing clock out m with
  | nil =>
    cases done
    rfl
  | cons creds rest inductionHypothesis =>
    rw [List.cons_append, handleCreds]
    rw [handleCreds] at done
    split at done
    · exact inductionHypothesis done
    · cases done
    · cases done

/-- Surplus selections are removed until six are left, and the first is none of them. -/
theorem removeSurplus_spec (draws : Nat → Nat) (selections : List CjdnsPeer) :
    (removeSurplus draws selections).Sublist selections ∧
      (removeSurplus draws selections).length ≤ 6 ∧
      (removeSurplus draws selections).head? = selections.head? := by
  fun_induction removeSurplus draws selections with
  | case1 draws selections long loser less inductionHypothesis =>
    obtain ⟨among, few, first⟩ := inductionHypothesis
    refine ⟨among.trans (List.eraseIdx_sublist _ _), few, first.trans ?_⟩
    have behind : loser = draws 0 % (selections.length - 1) + 1 := Nat.add_comm _ _
    rw [behind]
    cases selections with
    | nil => rfl
    | cons first rest => rfl
  | case2 draws selections short =>
    exact ⟨List.Sublist.refl _, Nat.le_of_not_lt short, rfl⟩

/-- All recorded addresses are without flow information and scope. -/
def AllPlain (m : SeederMut) : Prop := ∀ p ∈ m.peers, p.creds.address.Plain

/-- Credentials of a post have plain addresses, since they were decoded. -/
theorem posted_plain {crypto : Crypto} {sender : Ip6} {binCreds : List UInt8} {peerId : PeerID}
    {creds : List CjdnsPeer} (read : posted crypto sender binCreds = some (peerId, creds)) :
    ∀ each ∈ creds, each.address.Plain := by
  rw [posted] at read
  split at read
  · cases read
  · next record decoded =>
    obtain ⟨_, _, same⟩ := Option.map_eq_some_iff.mp read
    cases same
    intro each member
    exact CjdnsTxtRecord.decodeBin_plain decoded each (List.takeWhile_subset _ member)

/-- Recording a post keeps all addresses plain. -/
theorem Records.allPlain {sender : Ip6} {peerId : PeerID} {creds : List CjdnsPeer}
    {m next : SeederMut} (records : Records sender peerId creds m next) (before : AllPlain m)
    (plain : ∀ each ∈ creds, each.address.Plain) : AllPlain next := by
  intro p' inNext
  rcases records.origin p' inNext with ⟨p, member, continued⟩ | added
  · rw [continued.creds]
    exact before p member
  · exact plain _ added.creds

/-- Every call keeps the addresses plain. -/
theorem AllPlain.step {crypto : Crypto} {config : SeederConfig} {m next : SeederMut} {call : Call}
    (plain : AllPlain m) (keyed : Keyed crypto m)
    (stepped : (seeder crypto config).step m call = some next) : AllPlain next := by
  cases call with
  | post sender binCreds around =>
    cases stepped
    rcases post_cases keyed config sender binCreds around with
      ⟨-, unchanged⟩ | ⟨peerId, creds, read, -, records⟩
    · rwa [unchanged]
    · exact records.allPlain plain (posted_plain read)
  | testres res nowS =>
    cases stepped
    intro p' member
    obtain ⟨p, old, identity⟩ := exists_identity (testres_identity config res nowS m).2 member
    rw [← (identity_eq_iff.mp identity).2.2.1]
    exact plain p old

/-- In every state of a run the entries are keyed and their addresses plain. -/
theorem keyed_of_reached {crypto : Crypto} {config : SeederConfig} {events : List Call}
    {m : SeederMut} (reached : (seeder crypto config).Reached events m) :
    Keyed crypto m ∧ AllPlain m := by
  apply Machine.System.reached_induction (fun m => Keyed crypto m ∧ AllPlain m) _ _ reached
  · exact ⟨Keyed.initial crypto, by simp [AllPlain, seeder]⟩
  · rintro m call next taken ⟨keyed, plain⟩
    exact ⟨keyed.step taken.possible, plain.step keyed taken.possible⟩

/-- Whatever a run has recorded, a sender that posts credentials of its own gets an answer
that lists at most six credentials, no two of them the same. Their entries are not private,
are for other nodes, that have room and are no peers of the sender yet, and are reached by
a protocol the sender posted an address of. What was selected first is listed first.

Proof: the selections made for each of the credentials suit their post and stay distinct, by
induction on the credentials. What is drawn from them in the end is a part of them with the first
one kept, and it is read back from the reply. -/
theorem reply_suits_sender {crypto : Crypto} {config : SeederConfig} {events : List Call}
    {m : SeederMut} (reached : (seeder crypto config).Reached events m) {binCreds : List UInt8}
    {record : CjdnsTxtRecord} (decoded : CjdnsTxtRecord.decodeBin binCreds = .ok record)
    {peerId : PeerID} (identified : record.peerId = some peerId) {sender : Ip6}
    (own : ∀ creds ∈ record.peers, isOwn crypto sender creds = true) (around : Surroundings) :
    ∃ bytes reply next, postCredentials crypto config sender binCreds around m =
        (.ok bytes, next) ∧ CjdnsTxtRecord.decodeBin bytes = .ok reply ∧
      reply.peers.length ≤ 6 ∧ reply.peers.Nodup ∧
      (∀ creds ∈ reply.peers, (∃ p ∈ next.peers, p.creds = creds) ∧
        ∀ p ∈ next.peers, p.creds = creds → Suits config sender around.pip record.peers p) ∧
      ∀ handled ahead, record.peers = handled ++ ahead →
        ∃ selections current, handleCreds crypto config sender peerId around.pip around.clock
            handled [] m = (.ok selections, current) ∧
          ∀ first ∈ selections.head?, reply.peers.head? = some first := by
  obtain ⟨keyed, plain⟩ := keyed_of_reached reached
  have nothing : Chosen config sender around.pip record.peers m [] := ⟨List.nodup_nil, by simp⟩
  obtain ⟨selections, next, done, keyedNext, chosen, -⟩ :=
    nothing.handleCreds keyed peerId around.clock (fun _ listed => listed) own
  obtain ⟨among, few, first⟩ := removeSurplus_spec around.draws selections
  have state : (postCredentials crypto config sender binCreds around m).2 = next := by
    rw [postCredentials, decoded]
    simp only [identified, done]
  have stepped : (seeder crypto config).step m (.post sender binCreds around) = some next :=
    congrArg some state
  have plainNext : AllPlain next := plain.step keyed stepped
  have plainReply : ∀ creds ∈ removeSurplus around.draws selections, creds.address.Plain := by
    intro creds listed
    obtain ⟨p, member, rfl, -⟩ := chosen.entries creds (among.subset listed)
    exact plainNext p member
  obtain ⟨written, encoded, readBack⟩ := CjdnsTxtRecord.encodeBin_read_back
    (Message.holds_withChunkSize 0) (show CjdnsTxtRecord.unknownRecords
      { peers := removeSurplus around.draws selections } = [] from rfl) (by simp) plainReply
  refine ⟨written.asVec, _, next, ?_, readBack, few, among.nodup chosen.distinct, ?_, ?_⟩
  · rw [postCredentials, decoded]
    simp only [identified, done, Message.new, encoded]
    rfl
  · intro creds listed
    obtain ⟨p, member, same, suits⟩ := chosen.entries creds (among.subset listed)
    refine ⟨⟨p, member, same⟩, ?_⟩
    intro q inNext sameCreds
    rw [keyedNext.eq_of_creds inNext member (sameCreds.trans same.symm)]
    exact suits
  · intro handled ahead split
    obtain ⟨inPost, behindPost⟩ := List.forall_mem_append.mp
      (show ∀ creds ∈ handled ++ ahead, creds ∈ record.peers by simp [split])
    rw [split] at own
    obtain ⟨ownHandled, ownAhead⟩ := List.forall_mem_append.mp own
    obtain ⟨earlier, current, doneEarlier, keyedCurrent, chosenEarlier, -⟩ :=
      nothing.handleCreds keyed peerId around.clock inPost ownHandled
    obtain ⟨all, last, doneRest, -, -, rest, rfl⟩ :=
      chosenEarlier.handleCreds keyedCurrent peerId _ behindPost ownAhead
    have whole := (handleCreds_append doneEarlier ahead).trans doneRest
    rw [← split, done] at whole
    cases whole
    refine ⟨earlier, current, doneEarlier, ?_⟩
    intro front isFront
    rw [first, List.head?_append, Option.mem_def.mp isFront, Option.some_or]

namespace Sample

/-- The address of a key of another number. -/
def newcomer : Ip6 := ⟨0xfc :: List.replicate 15 71, by decide⟩

/-- The credential with that key, under an identifier to be handed out. -/
def newcomerRecord : CjdnsTxtRecord where
  peers := [{
    address := .v4 ⟨[192, 0, 2, 77], by decide⟩ 443
    pubkey := ⟨List.replicate 32 71, by decide⟩
    login := 5
    password := ⟨List.replicate 8 11, by decide⟩
    version := 22 }]
  peerId := some ⟨publicId⟩

def newcomerCreds : List UInt8 :=
  [4, 7] ++ publicId ++
    ([2, 50, 192, 0, 2, 77, 1, 187, 5] ++ List.replicate 8 11 ++ List.replicate 32 71 ++ [22])

/-- One node has posted its credential before. -/
def occupied : SeederMut := (postCredentials crypto config sender (binCreds publicId 6) around {}).2

end Sample

/-- A newcomer gets a reply of credentials that suit it, from a supernode with entries. -/
theorem reply_suits_newcomer :
    ∃ bytes reply next, postCredentials Sample.crypto Sample.config Sample.newcomer
        Sample.newcomerCreds Sample.around Sample.occupied = (.ok bytes, next) ∧
      CjdnsTxtRecord.decodeBin bytes = .ok reply ∧
      reply.peers.length ≤ 6 ∧ reply.peers.Nodup ∧
      (∀ creds ∈ reply.peers, (∃ p ∈ next.peers, p.creds = creds) ∧
        ∀ p ∈ next.peers, p.creds = creds → Suits Sample.config Sample.newcomer
          Sample.around.pip Sample.newcomerRecord.peers p) ∧
      ∀ handled ahead, Sample.newcomerRecord.peers = handled ++ ahead →
        ∃ selections current, handleCreds Sample.crypto Sample.config Sample.newcomer
            ⟨Sample.publicId⟩ Sample.around.pip Sample.around.clock handled [] Sample.occupied =
              (.ok selections, current) ∧
          ∀ first ∈ selections.head?, reply.peers.head? = some first :=
  reply_suits_sender
    (show (seeder Sample.crypto Sample.config).Reached [Sample.post Sample.publicId 6]
      Sample.occupied from Machine.System.reached_of_run rfl)
    (by decide +kernel) rfl (by decide +kernel) Sample.around

end RouteServer.Seeder
