import RouteServer.Seeder.Posts

/-!
# Private credentials

An entry carries a flag that keeps it from being handed out, derived from the identifier it
was first posted under. A later post of the same credentials replaces the identifier and
leaves the flag. The flags therefore agree with the latest identifiers in every state of a
run exactly when no post moves an entry between the public identifiers and the others.

As long as they agree, neither a handled credential nor a listing gives away credentials
whose latest identifier is not public.
-/

namespace RouteServer.Seeder

open Rust Bytes Keys

/-- Every flag agrees with the latest identifier of its entry. -/
def FlagsAgree (m : SeederMut) : Prop :=
  ∀ p ∈ m.peers, p.isPrivate = true ↔ isPublicId p.peerId = false

/-- Handling a credential hands out no credentials whose latest identifier is not public,
and listing the peers to a nameserver shows none. -/
def SharesOnlyPublic (crypto : Crypto) (config : SeederConfig) (m : SeederMut) : Prop :=
  (∀ sender peerId creds pip nowS out selected next,
    handleCred crypto config sender peerId creds pip nowS out m = (.ok selected, next) →
    ∀ p ∈ next.peers, isPublicId p.peerId = false → p.creds ∈ selected → p.creds ∈ out) ∧
  ∀ passwd pip nowSec listed, config.testerPasswds.contains passwd = false →
    listPeers config passwd pip nowSec m = .ok listed →
    ∀ p ∈ m.peers, isPublicId p.peerId = false → ∀ entry ∈ listed, entry.peer ≠ p.creds

/-- A post brings an entry of its sender no identifier of the other kind. -/
def KeepsPublicness (crypto : Crypto) (m : SeederMut) : Call → Prop
  | .post sender binCreds _ =>
    ∀ peerId creds, posted crypto sender binCreds = some (peerId, creds) →
      ∀ p ∈ m.peers, p.ip = sender → p.creds ∈ creds → isPublicId p.peerId = isPublicId peerId
  | .testres _ _ => True

/-- A flag that is set exactly when another is not is its negation. -/
theorem flag_iff (flag isPublic : Bool) : (flag = true ↔ isPublic = false) ↔ flag = !isPublic := by
  cases flag <;> cases isPublic <;> decide

/-- Where credentials are recorded, the flags agree afterwards exactly when no entry
changes its kind. -/
theorem Records.flagsAgree_iff {sender : Ip6} {peerId : PeerID} {creds : List CjdnsPeer}
    {m next : SeederMut} (records : Records sender peerId creds m next) (agree : FlagsAgree m) :
    FlagsAgree next ↔ ∀ p ∈ m.peers, p.ip = sender → p.creds ∈ creds →
      isPublicId p.peerId = isPublicId peerId := by
  simp only [FlagsAgree, flag_iff] at agree ⊢
  constructor
  · intro agreeNext p member ip own
    obtain ⟨p', inNext, continued⟩ := records.continued p member
    have flag : p.isPrivate = !isPublicId peerId := by
      rw [← continued.isPrivate, agreeNext p' inNext, continued.peerId, if_pos ⟨ip, own⟩]
    rw [agree p member] at flag
    simpa using flag
  · intro kept p' inNext
    rcases records.origin p' inNext with ⟨p, member, continued⟩ | added
    · rw [continued.isPrivate, continued.peerId, agree p member]
      split
      · next own => rw [kept p member own.1 own.2]
      · rfl
    · rw [added.isPrivate, added.peerId]

/-- A report sets no flags. -/
theorem testres_flagsAgree {config : SeederConfig} {res : SeederTestRes} {nowS : Nat}
    {m : SeederMut} (agree : FlagsAgree m) : FlagsAgree (testres config res nowS m).2 := by
  intro p' member
  obtain ⟨p, old, identity⟩ := exists_identity (testres_identity config res nowS m).2 member
  obtain ⟨-, peerId, -, -, isPrivate⟩ := identity_eq_iff.mp identity
  rw [← peerId, ← isPrivate]
  exact agree p old

/-- What a selection adds belongs to a peer that is appropriate and not private. -/
def Asked.Allows (asked : Asked) (peers : List SeederPeer) (creds : CjdnsPeer) : Prop :=
  ∃ p ∈ peers, p.creds = creds ∧ p.isPrivate = false ∧
    isAppropriate asked.config p.ip (some asked.sender) asked.pip = true

/-- Who is accepted may be selected. -/
theorem Asked.allows_of_accepts {asked : Asked} {out : List CjdnsPeer} {peer : SeederPeer}
    {peers : List SeederPeer} (member : peer ∈ peers)
    (accepted : asked.accepts out peer = true) : asked.Allows peers peer.creds := by
  simp only [Asked.accepts, Bool.and_eq_true, Bool.not_eq_true'] at accepted
  exact ⟨peer, member, rfl, accepted.1.1.1, accepted.2⟩

/-- What has been selected when the loop over the peers ends. -/
def Scan.out : Scan → List CjdnsPeer
  | returned out => out
  | continued _ out => out

section

variable {asked : Asked} {ring : UInt32} {holds : List CjdnsPeer → Prop}

/-- What every accepted peer keeps of a selection holds when the loop over the peers ends.

Proof: induction on the peers that are left; a peer is accepted or passed over, and the loop
stops early when enough have been added. -/
theorem scanPeers_keeps {attempt : Nat} {peers : List SeederPeer} {addedPeers : Nat}
    {out : List CjdnsPeer} {scan : Scan}
    (keeps : ∀ out, ∀ peer ∈ peers, asked.accepts out peer = true → holds out →
      holds (out ++ [peer.creds]))
    (scanned : scanPeers asked ring attempt peers addedPeers out = .ok scan)
    (before : holds out) : holds scan.out := by
  induction peers generalizing addedPeers out with
  | nil =>
    cases scanned
    exact before
  | cons peer rest inductionHypothesis =>
    have later := fun out peer member => keeps out peer (List.mem_cons_of_mem _ member)
    rw [scanPeers] at scanned
    by_cases full : addedPeers ≥ numPeersToRespond
    · rw [if_pos full] at scanned
      cases scanned
      exact before
    · by_cases last : attempt = 4
      · rw [if_neg full, if_pos last] at scanned
        cases scanned
        exact before
      · rw [if_neg full, if_neg last] at scanned
        obtain ⟨tried, told, scanned⟩ := (Outcome.bind_ok_iff _ _ _).mp scanned
        cases accepted : tried && asked.accepts out peer with
        | true =>
          have added : holds (out ++ [peer.creds]) :=
            keeps out peer List.mem_cons_self (Bool.and_eq_true_iff.mp accepted).2 before
          rw [accepted, if_pos rfl] at scanned
          split at scanned
          · cases scanned
            exact added
          · exact inductionHypothesis later scanned added
        | false =>
          rw [accepted, if_neg Bool.false_ne_true] at scanned
          exact inductionHypothesis later scanned before

/-- What every accepted peer keeps of a selection holds when all attempts are made. -/
theorem selectPeers_keeps {peers : List SeederPeer} {attempt addedPeers : Nat}
    {out selected : List CjdnsPeer}
    (keeps : ∀ out, ∀ peer ∈ peers, asked.accepts out peer = true → holds out →
      holds (out ++ [peer.creds]))
    (done : selectPeers asked ring peers attempt addedPeers out = .ok selected)
    (before : holds out) : holds selected := by
  fun_induction selectPeers asked ring peers attempt addedPeers out with
  | case1 =>
    cases done
    exact before
  | case2 attempt addedPeers out within inductionHypothesis =>
    obtain ⟨scan, scanned, done⟩ := (Outcome.bind_ok_iff _ _ _).mp done
    have kept := scanPeers_keeps keeps scanned before
    cases scan with
    | returned selection =>
      cases done
      exact kept
    | continued added selection => exact inductionHypothesis added selection done kept

end

/-- Whatever is selected may be, by induction on the attempts and within each on the entries. -/
theorem selectPeers_allows {asked : Asked} {ring : UInt32} {peers : List SeederPeer}
    {attempt addedPeers : Nat} {out selected : List CjdnsPeer}
    (done : selectPeers asked ring peers attempt addedPeers out = .ok selected) :
    ∀ creds ∈ selected, creds ∈ out ∨ asked.Allows peers creds := by
  have keeps : ∀ selection, ∀ peer ∈ peers, asked.accepts selection peer = true →
      (∀ creds ∈ selection, creds ∈ out ∨ asked.Allows peers creds) →
      ∀ creds ∈ selection ++ [peer.creds], creds ∈ out ∨ asked.Allows peers creds := by
    intro selection peer member accepted before creds listed
    rcases List.mem_append.mp listed with early | new
    · exact before creds early
    · rw [List.mem_singleton.mp new]
      exact Or.inr (asked.allows_of_accepts member accepted)
  exact selectPeers_keeps keeps done fun creds member => Or.inl member

/-- A peer listed to a nameserver is none that is private.

Proof: induction on the peers of the loop, which leaves out the private ones. -/
theorem listPeers_shared {config : SeederConfig} {passwd : Text} {pip : PeerInfoProvider}
    {nowSec : Nat} {m : SeederMut} {listed : List SeederListPeer}
    (notTester : config.testerPasswds.contains passwd = false)
    (done : listPeers config passwd pip nowSec m = .ok listed) :
    ∀ entry ∈ listed, ∃ p ∈ m.peers, p.isPrivate = false ∧ entry = SeederListPeer.ofPeer p := by
  have loop : ∀ (peers : List SeederPeer) (out : List SeederListPeer),
      ∀ entry ∈ shareLoop config pip peers out,
        entry ∈ out ∨ ∃ p ∈ peers, entry = SeederListPeer.ofPeer p := by
    intro peers
    induction peers with
    | nil => exact fun out entry member => Or.inl member
    | cons p rest inductionHypothesis =>
      intro out entry member
      have added : entry ∈ out ++ [SeederListPeer.ofPeer p] →
          entry ∈ out ∨ ∃ q ∈ p :: rest, entry = SeederListPeer.ofPeer q := by
        intro inside
        rcases List.mem_append.mp inside with early | new
        · exact Or.inl early
        · exact Or.inr ⟨p, List.mem_cons_self, List.mem_singleton.mp new⟩
      rw [shareLoop] at member
      dsimp only at member
      split_ifs at member
      · exact added member
      · rcases inductionHypothesis _ entry member with early | ⟨q, inside, same⟩
        · exact added early
        · exact Or.inr ⟨q, List.mem_cons_of_mem _ inside, same⟩
      · rcases inductionHypothesis _ entry member with early | ⟨q, inside, same⟩
        · exact Or.inl early
        · exact Or.inr ⟨q, List.mem_cons_of_mem _ inside, same⟩
  intro entry member
  rw [listPeers, notTester, if_neg Bool.false_ne_true] at done
  split_ifs at done
  obtain ⟨cutoff, -, done⟩ := (Outcome.bind_ok_iff _ _ _).mp done
  cases done
  rcases loop _ _ entry member with none' | ⟨p, inside, same⟩
  · cases none'
  · rw [List.mem_mergeSort, List.mem_filter, isShared, Bool.and_eq_true, Bool.and_eq_true,
      Bool.not_eq_true'] at inside
    exact ⟨p, inside.1, inside.2.1.1, same⟩

/-- As long as the flags agree, only public credentials are given away. The entries of the
sender are never handed out to it, and those of others are as they were before.

Proof: a peer that is given away has an entry that may be shared, and no two entries have the
same credentials, so it is the entry in question. Its flag was set before the post, since it is
no entry of the sender. -/
theorem FlagsAgree.sharesOnlyPublic {crypto : Crypto} {m : SeederMut} (agree : FlagsAgree m)
    (keyed : Keyed crypto m) (config : SeederConfig) : SharesOnlyPublic crypto config m := by
  constructor
  · intro sender peerId creds pip nowS out selected next handled p member notPublic given
    cases own : isOwn crypto sender creds with
    | false =>
      obtain ⟨fault, refused⟩ := handleCred_other config peerId own pip nowS out m
      rw [refused] at handled
      cases handled
    | true =>
      have key : Ip6.ofPublicKey crypto creds.pubkey = some sender := beq_iff_eq.mp own
      rw [handleCred, key] at handled
      simp only [ne_eq, not_true_eq_false, if_false, Prod.mk.injEq] at handled
      obtain ⟨done, rfl⟩ := handled
      rcases selectPeers_allows done p.creds given with early | ⟨q, inNext, same, shared, suits⟩
      · exact early
      · have isSame : q = p :=
          (keyed.updateOrInsert key peerId nowS).eq_of_creds inNext member same
        subst isSame
        have stranger : q.ip ≠ sender := by
          rintro isSender
          rw [isAppropriate, if_pos (by rw [isSender])] at suits
          cases suits
        rcases (keyed.records_one peerId nowS).origin q inNext with ⟨old, before, continued⟩ | added
        · have oldNotSender : ¬(old.ip = sender ∧ old.creds ∈ [creds]) := by
            rintro ⟨isSender, -⟩
            exact stranger (continued.ip.trans isSender)
          have flag := agree old before
          rw [← continued.isPrivate, shared] at flag
          rw [continued.peerId, if_neg oldNotSender] at notPublic
          cases flag.mpr notPublic
        · exact absurd added.ip stranger
  · intro passwd pip nowSec listed notTester done p member notPublic entry inside
    obtain ⟨q, inPeers, shared, rfl⟩ := listPeers_shared notTester done entry inside
    intro same
    have isSame : q = p := keyed.eq_of_creds inPeers member same
    subst isSame
    have private' := (agree q member).mpr notPublic
    rw [shared] at private'
    cases private'

/-- In every state of a run the flags agree with the latest identifiers and only public
credentials are given away, if and only if every post of the run keeps the entries of its
sender public, or not public, as they are.

Proof: the run is reduced to its steps, with entries that are keyed by their credentials. A post
changes flags exactly where it changes whether an identifier is public, and only public entries
are shared as long as the flags agree. -/
theorem private_flags_iff (crypto : Crypto) (config : SeederConfig) (events : List Call) :
    (∀ m, (seeder crypto config).Reached events m →
        FlagsAgree m ∧ SharesOnlyPublic crypto config m) ↔
      ∀ m call next, (seeder crypto config).Taken events m call next →
        KeepsPublicness crypto m call := by
  apply Machine.System.always_iff (seeder crypto config) events (Keyed crypto)
    (fun m => FlagsAgree m ∧ SharesOnlyPublic crypto config m) (KeepsPublicness crypto)
  · exact Keyed.initial crypto
  · have agree : FlagsAgree {} := by simp [FlagsAgree]
    exact ⟨agree, agree.sharesOnlyPublic (Keyed.initial crypto) config⟩
  · exact fun m call next _ keyed _ stepped => keyed.step stepped
  · intro m call next _ keyed good stepped
    have keyedNext : Keyed crypto next := keyed.step stepped
    have both : FlagsAgree next ∧ SharesOnlyPublic crypto config next ↔ FlagsAgree next :=
      ⟨And.left, fun agree => ⟨agree, agree.sharesOnlyPublic keyedNext config⟩⟩
    rw [both]
    cases call with
    | post sender binCreds around =>
      cases stepped
      rcases post_cases keyed config sender binCreds around with
        ⟨nothing, unchanged⟩ | ⟨peerId, creds, read, -, records⟩
      · rw [unchanged]
        simp only [KeepsPublicness, nothing, good.1, true_iff]
        intro peerId creds none'
        cases none'
      · rw [records.flagsAgree_iff good.1]
        simp only [KeepsPublicness, read, Option.some.injEq, Prod.mk.injEq]
        constructor
        · rintro kept _ _ ⟨rfl, rfl⟩
          exact kept
        · exact fun kept => kept peerId creds ⟨rfl, rfl⟩
    | testres res nowS =>
      cases stepped
      exact iff_of_true (testres_flagsAgree good.1) trivial

/-- A node posts its credentials under a public identifier and then under another one. The
entry stays open to everyone. -/
theorem reposted_not_private :
    ¬∀ (crypto : Crypto) (config : SeederConfig) (events : List Call) (m : SeederMut),
      (seeder crypto config).Reached events m →
        FlagsAgree m ∧ SharesOnlyPublic crypto config m := by
  intro always
  obtain ⟨m, reached, shown⟩ := Machine.System.exists_reached_of_any
    (seeder Sample.crypto Sample.config)
    [Sample.post Sample.publicId 6, Sample.post Sample.otherId 6]
    (fun m => m.peers.any fun p => !p.isPrivate && !isPublicId p.peerId) (by decide +kernel)
  obtain ⟨p, member, both⟩ := List.any_eq_true.mp shown
  rw [Bool.and_eq_true, Bool.not_eq_true', Bool.not_eq_true'] at both
  have flag := ((always _ _ _ m reached).1 p member).mpr both.2
  rw [both.1] at flag
  cases flag

end RouteServer.Seeder
