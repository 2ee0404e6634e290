import Mathlib.Data.List.Nodup
import Mathlib.Data.List.TakeWhile
import RouteServer.Seeder.Peers

/-!
# What a post records

All rings are the lowest one, because nothing raises the top ring. The search for peers to
hand out therefore never fails, and a post records every credential up to the first that
does not belong to its sender. Each of them either continues the one entry it was posted
under before or adds an entry; other entries stay as they are.

Credentials contain the key, and the key determines the address, so an entry is known by
its credentials alone. Check results change nothing of this.
-/

namespace RouteServer.Seeder

open Rust Bytes Keys

/-- All rings are the lowest, every entry is filed under the address of its key, and no
credentials are recorded twice. -/
structure Keyed (crypto : Crypto) (m : SeederMut) : Prop where
  topRing : m.topRing = 0
  rings : ∀ p ∈ m.peers, p.ring = 0
  keys : ∀ p ∈ m.peers, Ip6.ofPublicKey crypto p.creds.pubkey = some p.ip
  distinct : (m.peers.map SeederPeer.creds).Nodup

/-- Entries with the same credentials are the same. -/
theorem Keyed.eq_of_creds {crypto : Crypto} {m : SeederMut} (keyed : Keyed crypto m)
    {p q : SeederPeer} (inP : p ∈ m.peers) (inQ : q ∈ m.peers) (same : p.creds = q.creds) :
    p = q :=
  List.inj_on_of_nodup_map keyed.distinct inP inQ same

/-- An entry is of a node and its credentials. -/
theorem isOf_iff (sender : Ip6) (creds : CjdnsPeer) (p : SeederPeer) :
    p.isOf sender creds = true ↔ p.ip = sender ∧ p.creds = creds := by
  simp [SeederPeer.isOf]

/-- An update leaves the new identifier, whether or not it is another one. -/
theorem update_peerId (peerId : PeerID) (creds : CjdnsPeer) (nowS : Nat) (ent : SeederPeer) :
    (ent.update peerId creds nowS).peerId = peerId := by
  rw [SeederPeer.update]
  split_ifs with changed
  · rfl
  · exact Decidable.not_not.mp (not_or.mp changed).1

/-- An update leaves the node of an entry. -/
theorem update_ip (peerId : PeerID) (creds : CjdnsPeer) (nowS : Nat) (ent : SeederPeer) :
    (ent.update peerId creds nowS).ip = ent.ip := by
  rw [SeederPeer.update]
  split_ifs <;> rfl

/-- An update leaves the ring of an entry. -/
theorem update_ring (peerId : PeerID) (creds : CjdnsPeer) (nowS : Nat) (ent : SeederPeer) :
    (ent.update peerId creds nowS).ring = ent.ring := by
  rw [SeederPeer.update]
  split_ifs <;> rfl

/-- The flag is not derived again. -/
theorem update_isPrivate (peerId : PeerID) (creds : CjdnsPeer) (nowS : Nat)
    (ent : SeederPeer) : (ent.update peerId creds nowS).isPrivate = ent.isPrivate := by
  rw [SeederPeer.update]
  split_ifs <;> rfl

/-- The credentials found are those that were looked up. -/
theorem update_creds (peerId : PeerID) {creds : CjdnsPeer} (nowS : Nat) {ent : SeederPeer}
    (same : ent.creds = creds) : (ent.update peerId creds nowS).creds = creds := by
  rw [SeederPeer.update]
  split_ifs
  · rfl
  · exact same

/-- What a credential does to the entries: it is found in its place among them, or added
after them. -/
theorem updateOrInsert_cases (sender : Ip6) (peerId : PeerID) (creds : CjdnsPeer) (nowS : Nat)
    (m : SeederMut) :
    (∃ before ent after, m.peers = before ++ ent :: after ∧ ent.ip = sender ∧
      ent.creds = creds ∧
      updateOrInsert sender peerId creds nowS m = (ent.ring,
        { m with peers := before ++ ent.update peerId creds nowS :: after })) ∨
    ((∀ p ∈ m.peers, ¬(p.ip = sender ∧ p.creds = creds)) ∧
      updateOrInsert sender peerId creds nowS m = (m.topRing,
        { m with peers := m.peers ++ [SeederPeer.new sender peerId creds m.topRing nowS] })) := by
  rw [updateOrInsert]
  cases isFirst : m.peers.find? (SeederPeer.isOf sender creds) with
  | some ent =>
    obtain ⟨passes, before, after, split, -, updated⟩ :=
      updateFirst_of_find (SeederPeer.update peerId creds nowS) isFirst
    obtain ⟨ip, same⟩ := (isOf_iff sender creds ent).mp passes
    exact Or.inl ⟨before, ent, after, split, ip, same, by simp only [updated]⟩
  | none =>
    refine Or.inr ⟨?_, rfl⟩
    intro p member both
    exact List.find?_eq_none.mp isFirst p member ((isOf_iff sender creds p).mpr both)

/-- How an entry goes on when some credentials are posted by a sender under an identifier. -/
structure Continues (sender : Ip6) (peerId : PeerID) (posted : List CjdnsPeer)
    (p p' : SeederPeer) : Prop where
  ip : p'.ip = p.ip
  creds : p'.creds = p.creds
  isPrivate : p'.isPrivate = p.isPrivate
  peerId : p'.peerId = if p.ip = sender ∧ p.creds ∈ posted then peerId else p.peerId

/-- An entry that is new. -/
structure Added (sender : Ip6) (peerId : PeerID) (posted : List CjdnsPeer) (p' : SeederPeer) :
    Prop where
  ip : p'.ip = sender
  creds : p'.creds ∈ posted
  isPrivate : p'.isPrivate = !isPublicId peerId
  peerId : p'.peerId = peerId

/-- What some posted credentials do to the entries as a whole. -/
structure Records (sender : Ip6) (peerId : PeerID) (posted : List CjdnsPeer)
    (m m' : SeederMut) : Prop where
  continued : ∀ p ∈ m.peers, ∃ p' ∈ m'.peers, Continues sender peerId posted p p'
  origin : ∀ p' ∈ m'.peers,
    (∃ p ∈ m.peers, Continues sender peerId posted p p') ∨ Added sender peerId posted p'
  present : ∀ creds ∈ posted, ∃ p' ∈ m'.peers, p'.ip = sender ∧ p'.creds = creds

/-- An entry that a credential is not about continues unchanged. -/
theorem continues_self {sender : Ip6} {peerId : PeerID} {posted : List CjdnsPeer}
    {p : SeederPeer} (other : ¬(p.ip = sender ∧ p.creds ∈ posted)) :
    Continues sender peerId posted p p :=
  ⟨rfl, rfl, rfl, (if_neg other).symm⟩

/-- What continues over one of the credentials and over the others continues over all. -/
theorem Continues.trans {sender : Ip6} {peerId : PeerID} {creds : CjdnsPeer}
    {rest : List CjdnsPeer} {p middle p' : SeederPeer}
    (first : Continues sender peerId [creds] p middle)
    (others : Continues sender peerId rest middle p') :
    Continues sender peerId (creds :: rest) p p' := by
  refine ⟨others.ip.trans first.ip, others.creds.trans first.creds,
    others.isPrivate.trans first.isPrivate, ?_⟩
  rw [others.peerId, first.peerId, first.ip, first.creds]
  by_cases own : p.ip = sender <;> by_cases now : p.creds = creds <;>
    by_cases after : p.creds ∈ rest <;> simp [own, now, after]

/-- Credentials are recorded one after the other. -/
theorem Records.trans {sender : Ip6} {peerId : PeerID} {creds : CjdnsPeer}
    {rest : List CjdnsPeer} {m middle m' : SeederMut}
    (first : Records sender peerId [creds] m middle)
    (next : Records sender peerId rest middle m') :
    Records sender peerId (creds :: rest) m m' := by
  refine ⟨?_, ?_, ?_⟩
  · intro p member
    obtain ⟨q, inMiddle, one⟩ := first.continued p member
    obtain ⟨p', inLast, others⟩ := next.continued q inMiddle
    exact ⟨p', inLast, one.trans others⟩
  · intro p' member
    rcases next.origin p' member with ⟨q, inMiddle, others⟩ | added
    · rcases first.origin q inMiddle with ⟨p, inFirst, one⟩ | added
      · exact Or.inl ⟨p, inFirst, one.trans others⟩
      · refine Or.inr ⟨others.ip.trans added.ip, ?_, others.isPrivate.trans added.isPrivate, ?_⟩
        · rw [others.creds, List.mem_singleton.mp added.creds]
          exact List.mem_cons_self
        · rw [others.peerId, added.peerId, ite_self]
    · exact Or.inr ⟨added.ip, List.mem_cons_of_mem _ added.creds, added.isPrivate, added.peerId⟩
  · intro each member
    rcases List.mem_cons.mp member with rfl | later
    · obtain ⟨q, inMiddle, ip, same⟩ := first.present each List.mem_cons_self
      obtain ⟨p', inLast, others⟩ := next.continued q inMiddle
      exact ⟨p', inLast, others.ip.trans ip, others.creds.trans same⟩
    · exact next.present each later

section

variable {crypto : Crypto} {sender : Ip6} {creds : CjdnsPeer} {m : SeederMut}

/-- Recording a credential of the sender keeps the entries keyed.

Proof: by whether there is an entry of the sender with the same credentials. If there is, it is
updated in its place; otherwise one is added at the end. -/
theorem Keyed.updateOrInsert (keyed : Keyed crypto m)
    (own : Ip6.ofPublicKey crypto creds.pubkey = some sender) (peerId : PeerID) (nowS : Nat) :
    Keyed crypto (updateOrInsert sender peerId creds nowS m).2 := by
  obtain ⟨topRing, rings, keys, distinct⟩ := keyed
  rcases updateOrInsert_cases sender peerId creds nowS m with
    ⟨before, ent, after, split, ip, same, result⟩ | ⟨noEntry, result⟩
  · rw [result]
    rw [split] at rings keys distinct
    have others : ∀ p ∈ before ++ ent.update peerId creds nowS :: after,
        p ∈ before ++ ent :: after ∨ p = ent.update peerId creds nowS := by
      simp only [List.mem_append, List.mem_cons]
      tauto
    have entHere : ent ∈ before ++ ent :: after := by simp
    refine ⟨topRing, ?_, ?_, ?_⟩
    · intro p member
      rcases others p member with old | rfl
      · exact rings p old
      · rw [update_ring, rings ent entHere]
    · intro p member
      rcases others p member with old | rfl
      · exact keys p old
      · rw [update_ip, update_creds peerId nowS same, ip, own]
    · simpa only [List.map_append, List.map_cons, update_creds peerId nowS same, same] using
        distinct
  · rw [result]
    refine ⟨topRing, ?_, ?_, ?_⟩
    · intro p member
      rcases List.mem_append.mp member with old | new
      · exact rings p old
      · rw [List.mem_singleton.mp new]
        exact topRing
    · intro p member
      rcases List.mem_append.mp member with old | new
      · exact keys p old
      · rw [List.mem_singleton.mp new]
        exact own
    · rw [List.map_append, List.nodup_append']
      refine ⟨distinct, List.nodup_singleton _, ?_⟩
      intro each old new
      obtain ⟨p, member, rfl⟩ := List.mem_map.mp old
      have same : p.creds = creds := List.mem_singleton.mp new
      have ip : some p.ip = some sender := by rw [← keys p member, same, own]
      exact noEntry p member ⟨Option.some.inj ip, same⟩

/-- An entry that is not the one among others has other credentials. -/
theorem Keyed.other_creds (keyed : Keyed crypto m) {before after : List SeederPeer}
    {ent p : SeederPeer} (split : m.peers = before ++ ent :: after)
    (member : p ∈ before ++ after) : p ∈ m.peers ∧ p.creds ≠ ent.creds := by
  have nodup : (before ++ ent :: after).Nodup := by
    rw [← split]
    exact List.Nodup.of_map _ keyed.distinct
  have inPeers : p ∈ m.peers := by
    rw [split, List.perm_middle.mem_iff]
    exact List.mem_cons_of_mem ent member
  refine ⟨inPeers, ?_⟩
  intro same
  have inside : ent ∈ m.peers := by simp [split]
  rw [List.nodup_middle, List.nodup_cons] at nodup
  exact nodup.1 (keyed.eq_of_creds inPeers inside same ▸ member)

/-- An entry that goes on, among others that go on unchanged, is all that is recorded. -/
theorem records_updated {peerId : PeerID} {before after : List SeederPeer}
    {ent updated : SeederPeer} (split : m.peers = before ++ ent :: after)
    (continued : Continues sender peerId [creds] ent updated)
    (own : updated.ip = sender ∧ updated.creds = creds)
    (others : ∀ p ∈ before ++ after, Continues sender peerId [creds] p p) :
    Records sender peerId [creds] m { m with peers := before ++ updated :: after } := by
  have here : updated ∈ before ++ updated :: after := by simp
  have elsewhere : ∀ (mid p : SeederPeer), p ∈ before ++ after → p ∈ before ++ mid :: after := by
    intro mid p member
    rw [List.perm_middle.mem_iff]
    exact List.mem_cons_of_mem mid member
  refine ⟨?_, ?_, ?_⟩
  · intro p member
    rw [split, List.perm_middle.mem_iff, List.mem_cons] at member
    rcases member with rfl | member
    · exact ⟨updated, here, continued⟩
    · exact ⟨p, elsewhere updated p member, others p member⟩
  · intro p' member
    rw [List.perm_middle.mem_iff, List.mem_cons] at member
    apply Or.inl
    rw [split]
    rcases member with rfl | member
    · exact ⟨ent, by simp, continued⟩
    · exact ⟨p', elsewhere ent p' member, others p' member⟩
  · intro each member
    rw [List.mem_singleton.mp member]
    exact ⟨updated, here, own⟩

/-- A new entry after others that go on unchanged is all that is recorded. -/
theorem records_added {peerId : PeerID} {new : SeederPeer}
    (others : ∀ p ∈ m.peers, Continues sender peerId [creds] p p)
    (added : Added sender peerId [creds] new) :
    Records sender peerId [creds] m { m with peers := m.peers ++ [new] } := by
  refine ⟨?_, ?_, ?_⟩
  · intro p member
    exact ⟨p, List.mem_append_left _ member, others p member⟩
  · intro p' member
    rcases List.mem_append.mp member with old | isNew
    · exact Or.inl ⟨p', old, others p' old⟩
    · rw [List.mem_singleton.mp isNew]
      exact Or.inr added
  · intro each member
    rw [List.mem_singleton.mp member]
    exact ⟨new, List.mem_append_right _ List.mem_cons_self, added.ip,
      List.mem_singleton.mp added.creds⟩

/-- One credential continues the entry that it has, or adds one. -/
theorem Keyed.records_one (keyed : Keyed crypto m) (peerId : PeerID) (nowS : Nat) :
    Records sender peerId [creds] m (Seeder.updateOrInsert sender peerId creds nowS m).2 := by
  rcases updateOrInsert_cases sender peerId creds nowS m with
    ⟨before, ent, after, split, ip, same, result⟩ | ⟨noEntry, result⟩
  · rw [result]
    have creds_eq := update_creds peerId nowS same
    apply records_updated split
    · refine ⟨update_ip _ _ _ _, creds_eq.trans same.symm, update_isPrivate _ _ _ _, ?_⟩
      rw [update_peerId, if_pos ⟨ip, List.mem_singleton.mpr same⟩]
    · exact ⟨(update_ip _ _ _ _).trans ip, creds_eq⟩
    · intro p member
      apply continues_self
      rintro ⟨-, own⟩
      exact (keyed.other_creds split member).2 ((List.mem_singleton.mp own).trans same.symm)
  · rw [result]
    apply records_added
    · intro p member
      apply continues_self
      rw [List.mem_singleton]
      exact noEntry p member
    · exact ⟨rfl, List.mem_cons_self, rfl, rfl⟩

end

/-- Some credentials recorded one after the other. -/
def recordAll (sender : Ip6) (peerId : PeerID) :
    (Nat → Nat) → List CjdnsPeer → SeederMut → SeederMut
  | _, [], m => m
  | clock, creds :: rest, m =>
    recordAll sender peerId (fun reading => clock (reading + 1)) rest
      (updateOrInsert sender peerId creds (clock 0) m).2

/-- Whether credentials belong to the sender of a post. -/
def isOwn (crypto : Crypto) (sender : Ip6) (creds : CjdnsPeer) : Bool :=
  Ip6.ofPublicKey crypto creds.pubkey == some sender

/-- All entries are known after some credentials of a sender were recorded. -/
theorem Keyed.recordAll {crypto : Crypto} {sender : Ip6} {peerId : PeerID} {m : SeederMut}
    (keyed : Keyed crypto m) (posted : List CjdnsPeer) (clock : Nat → Nat)
    (own : ∀ creds ∈ posted, isOwn crypto sender creds = true) :
    Keyed crypto (recordAll sender peerId clock posted m) ∧
      Records sender peerId posted m (recordAll sender peerId clock posted m) := by
  induction posted generalizing m clock with
  | nil =>
    refine ⟨keyed, ?_, ?_, ?_⟩
    · exact fun p member => ⟨p, member, continues_self (by simp)⟩
    · exact fun p member => Or.inl ⟨p, member, continues_self (by simp)⟩
    · simp
  | cons creds rest inductionHypothesis =>
    obtain ⟨first, others⟩ := List.forall_mem_cons.mp own
    have keyedNext := keyed.updateOrInsert (beq_iff_eq.mp first) peerId (clock 0)
    obtain ⟨keyedLast, records⟩ := inductionHypothesis keyedNext _ others
    exact ⟨keyedLast, (keyed.records_one peerId (clock 0)).trans records⟩

/-- In the lowest ring the range of an attempt can be told. -/
theorem inRange_lowest (attempt : Nat) (ring : UInt32) {peer : SeederPeer}
    (lowest : peer.ring = 0) : ∃ tried, inRange attempt ring peer = .ok tried := by
  have fits : (Outcome.checkedAdd 32 peer.ring.toNat 1 : Outcome Report Nat) = .ok 1 := by
    rw [lowest]
    rfl
  rw [inRange, fits]
  split_ifs <;> exact ⟨_, rfl⟩

/-- In the lowest ring no difference of rings is negative, so the scan returns, by induction on the
entries. -/
theorem scanPeers_lowest (asked : Asked) (ring : UInt32) (attempt : Nat)
    (peers : List SeederPeer) (lowest : ∀ p ∈ peers, p.ring = 0) (addedPeers : Nat)
    (out : List CjdnsPeer) :
    ∃ scan, scanPeers asked ring attempt peers addedPeers out = .ok scan := by
  induction peers generalizing addedPeers out with
  | nil => exact ⟨_, rfl⟩
  | cons peer rest inductionHypothesis =>
    obtain ⟨first, others⟩ := List.forall_mem_cons.mp lowest
    obtain ⟨tried, told⟩ := inRange_lowest attempt ring first
    rw [scanPeers, told]
    simp only [Outcome.ok_bind]
    split_ifs
    · exact ⟨_, rfl⟩
    · exact ⟨_, rfl⟩
    · exact ⟨_, rfl⟩
    · exact inductionHypothesis others _ _
    · exact inductionHypothesis others _ _

/-- A selection among peers of the lowest ring does not fail. -/
theorem selectPeers_lowest (asked : Asked) (ring : UInt32) (peers : List SeederPeer)
    (lowest : ∀ p ∈ peers, p.ring = 0) (attempt addedPeers : Nat) (out : List CjdnsPeer) :
    ∃ selected, selectPeers asked ring peers attempt addedPeers out = .ok selected := by
  fun_induction selectPeers asked ring peers attempt addedPeers out with
  | case1 => exact ⟨_, rfl⟩
  | case2 attempt addedPeers out within inductionHypothesis =>
    obtain ⟨scan, scanned⟩ := scanPeers_lowest asked ring attempt peers lowest addedPeers out
    rw [scanned, Outcome.ok_bind]
    cases scan with
    | returned out => exact ⟨_, rfl⟩
    | continued addedPeers out => exact inductionHypothesis _ _

/-- A credential of the sender is handled and recorded. -/
theorem handleCred_own {crypto : Crypto} {m : SeederMut} (keyed : Keyed crypto m)
    (config : SeederConfig) {sender : Ip6} (peerId : PeerID) {creds : CjdnsPeer}
    (own : isOwn crypto sender creds = true) (pip : PeerInfoProvider) (nowS : Nat)
    (out : List CjdnsPeer) :
    ∃ selected, handleCred crypto config sender peerId creds pip nowS out m =
      (.ok selected, (updateOrInsert sender peerId creds nowS m).2) := by
  have key : Ip6.ofPublicKey crypto creds.pubkey = some sender := beq_iff_eq.mp own
  have keyedNext := keyed.updateOrInsert key peerId nowS
  obtain ⟨selected, done⟩ := selectPeers_lowest
    { config, sender, wantsIpv6 := isIpv6 creds.address, pip }
    (updateOrInsert sender peerId creds nowS m).1 _ keyedNext.rings
    (if out.isEmpty then 0 else 1) 0 out
  refine ⟨selected, ?_⟩
  simp only [handleCred, key, ne_eq, not_true_eq_false, if_false, done]

/-- Other credentials are refused and leave the state as it was. -/
theorem handleCred_other {crypto : Crypto} (config : SeederConfig) {sender : Ip6}
    (peerId : PeerID) {creds : CjdnsPeer} (other : isOwn crypto sender creds = false)
    (pip : PeerInfoProvider) (nowS : Nat) (out : List CjdnsPeer) (m : SeederMut) :
    ∃ fault, handleCred crypto config sender peerId creds pip nowS out m = (.err fault, m) := by
  rw [handleCred]
  cases key : Ip6.ofPublicKey crypto creds.pubkey with
  | none => exact ⟨_, rfl⟩
  | some ip6 =>
    have different : ip6 ≠ sender := by
      rintro rfl
      rw [isOwn, key, beq_self_eq_true] at other
      cases other
    simp only [if_pos different]
    exact ⟨_, rfl⟩

/-- The credentials up to the first that is not the sender's are recorded. -/
theorem handleCreds_state {crypto : Crypto} {m : SeederMut} (keyed : Keyed crypto m)
    (config : SeederConfig) (sender : Ip6) (peerId : PeerID) (pip : PeerInfoProvider)
    (clock : Nat → Nat) (peers selections : List CjdnsPeer) :
    (handleCreds crypto config sender peerId pip clock peers selections m).2 =
      recordAll sender peerId clock (peers.takeWhile (isOwn crypto sender)) m := by
  induction peers generalizing m clock selections with
  | nil => rfl
  | cons creds rest inductionHypothesis =>
    cases own : isOwn crypto sender creds with
    | true =>
      obtain ⟨selected, handled⟩ :=
        handleCred_own keyed config peerId own pip (clock 0) selections
      have keyedNext := keyed.updateOrInsert (beq_iff_eq.mp own) peerId (clock 0)
      rw [handleCreds, handled, List.takeWhile_cons_of_pos own, recordAll]
      exact inductionHypothesis keyedNext _ _
    | false =>
      obtain ⟨fault, refused⟩ :=
        handleCred_other config peerId own pip (clock 0) selections m
      rw [handleCreds, refused, List.takeWhile_cons_of_neg (by simp [own])]
      rfl

/-- The identifier of a post and those of its credentials that are recorded. -/
def posted (crypto : Crypto) (sender : Ip6) (binCreds : List UInt8) :
    Option (PeerID × List CjdnsPeer) :=
  match CjdnsTxtRecord.decodeBin binCreds with
  | .error _ => none
  | .ok record =>
    record.peerId.map fun peerId => (peerId, record.peers.takeWhile (isOwn crypto sender))

/-- A post that names no identifier, or cannot be read, changes nothing; otherwise its
credentials are recorded. -/
theorem postCredentials_state {crypto : Crypto} {m : SeederMut} (keyed : Keyed crypto m)
    (config : SeederConfig) (sender : Ip6) (binCreds : List UInt8) (around : Surroundings) :
    (postCredentials crypto config sender binCreds around m).2 =
      match posted crypto sender binCreds with
      | none => m
      | some (peerId, creds) => recordAll sender peerId around.clock creds m := by
  rw [postCredentials, posted]
  cases CjdnsTxtRecord.decodeBin binCreds with
  | error fault => rfl
  | ok record =>
    cases identified : record.peerId with
    | none => simp only [identified, Option.map_none]
    | some peerId =>
      simp only [identified, Option.map_some]
      rw [← handleCreds_state keyed config sender peerId around.pip around.clock record.peers []]
      split <;> simp only [*]

/-- The credentials of a post that are handled are its sender's own. -/
theorem posted_own {crypto : Crypto} {sender : Ip6} {binCreds : List UInt8} {peerId : PeerID}
    {creds : List CjdnsPeer} (read : posted crypto sender binCreds = some (peerId, creds)) :
    ∀ each ∈ creds, isOwn crypto sender each = true := by
  rw [posted] at read
  split at read
  · cases read
  · obtain ⟨_, _, same⟩ := Option.map_eq_some_iff.mp read
    cases same
    exact fun each member => List.mem_takeWhile_imp member

/-- A post leaves everything as it was, or records its credentials. -/
theorem post_cases {crypto : Crypto} {m : SeederMut} (keyed : Keyed crypto m)
    (config : SeederConfig) (sender : Ip6) (binCreds : List UInt8) (around : Surroundings) :
    (posted crypto sender binCreds = none ∧
      (postCredentials crypto config sender binCreds around m).2 = m) ∨
    ∃ peerId creds, posted crypto sender binCreds = some (peerId, creds) ∧
      Keyed crypto (postCredentials crypto config sender binCreds around m).2 ∧
      Records sender peerId creds m
        (postCredentials crypto config sender binCreds around m).2 := by
  rw [postCredentials_state keyed]
  cases read : posted crypto sender binCreds with
  | none => exact Or.inl ⟨rfl, rfl⟩
  | some both =>
    obtain ⟨peerId, creds⟩ := both
    obtain ⟨keyedNext, records⟩ := keyed.recordAll creds around.clock (posted_own read)
    exact Or.inr ⟨peerId, creds, rfl, keyedNext, records⟩

/-- What check results leave of an entry as it was. -/
def SeederPeer.identity (p : SeederPeer) : Ip6 × PeerID × CjdnsPeer × UInt32 × Bool :=
  (p.ip, p.peerId, p.creds, p.ring, p.isPrivate)

/-- Check results change no identities and no order. -/
theorem testres_identity (config : SeederConfig) (res : SeederTestRes) (nowS : Nat)
    (m : SeederMut) :
    (testres config res nowS m).2.topRing = m.topRing ∧
      (testres config res nowS m).2.peers.map SeederPeer.identity =
        m.peers.map SeederPeer.identity := by
  have results : ∀ (nodes : List SeederTestResNode) (m : SeederMut),
      (testResults nowS nodes m).2.topRing = m.topRing ∧
        (testResults nowS nodes m).2.peers.map SeederPeer.identity =
          m.peers.map SeederPeer.identity := by
    intro nodes
    induction nodes with
    | nil => exact fun m => ⟨rfl, rfl⟩
    | cons p rest inductionHypothesis =>
      intro m
      rw [testResults]
      split
      · exact ⟨rfl, rfl⟩
      · next ip6 _ =>
        obtain ⟨ring, others⟩ := inductionHypothesis (testResult nowS ip6 p.addr p.error m)
        exact ⟨ring, others.trans (map_updateFirst (fun _ _ => rfl))⟩
  rw [testres]
  split
  · exact ⟨rfl, rfl⟩
  · exact results res.nodes m

/-- Every entry afterwards has the identity of one before. -/
theorem exists_identity {peers peers' : List SeederPeer}
    (same : peers'.map SeederPeer.identity = peers.map SeederPeer.identity) {p' : SeederPeer}
    (member : p' ∈ peers') : ∃ p ∈ peers, p.identity = p'.identity := by
  have inside : p'.identity ∈ peers.map SeederPeer.identity := by
    rw [← same]
    exact List.mem_map_of_mem member
  simpa using inside

/-- The identity of an entry is all of it but what is known of the checks. -/
theorem identity_eq_iff {p q : SeederPeer} : p.identity = q.identity ↔
    p.ip = q.ip ∧ p.peerId = q.peerId ∧ p.creds = q.creds ∧ p.ring = q.ring ∧
      p.isPrivate = q.isPrivate := by
  simp [SeederPeer.identity]

/-- What depends on identities only is the same before and after. -/
theorem map_of_identity {β : Type} (field : SeederPeer → β)
    (depends : ∀ p q : SeederPeer, p.identity = q.identity → field p = field q)
    {peers peers' : List SeederPeer}
    (same : peers'.map SeederPeer.identity = peers.map SeederPeer.identity) :
    peers'.map field = peers.map field := by
  induction peers' generalizing peers with
  | nil =>
    cases peers with
    | nil => rfl
    | cons p rest => cases same
  | cons p' rest' inductionHypothesis =>
    cases peers with
    | nil => cases same
    | cons p rest =>
      obtain ⟨first, others⟩ := List.cons_eq_cons.mp same
      rw [List.map_cons, List.map_cons, depends p' p first, inductionHypothesis others]

/-- Check results keep the entries keyed. -/
theorem Keyed.testres {crypto : Crypto} {m : SeederMut} (keyed : Keyed crypto m)
    (config : SeederConfig) (res : SeederTestRes) (nowS : Nat) :
    Keyed crypto (testres config res nowS m).2 := by
  obtain ⟨topRing, same⟩ := testres_identity config res nowS m
  refine ⟨topRing.trans keyed.topRing, ?_, ?_, ?_⟩
  · intro p' member
    obtain ⟨p, old, identity⟩ := exists_identity same member
    rw [← (identity_eq_iff.mp identity).2.2.2.1]
    exact keyed.rings p old
  · intro p' member
    obtain ⟨p, old, identity⟩ := exists_identity same member
    rw [← (identity_eq_iff.mp identity).2.2.1, ← (identity_eq_iff.mp identity).1]
    exact keyed.keys p old
  · rw [map_of_identity SeederPeer.creds (fun p q both => (identity_eq_iff.mp both).2.2.1) same]
    exact keyed.distinct

/-- Nothing is recorded at first. -/
theorem Keyed.initial (crypto : Crypto) : Keyed crypto {} :=
  ⟨rfl, by simp, by simp, by simp⟩

/-- Every call keeps the entries keyed. -/
theorem Keyed.step {crypto : Crypto} {config : SeederConfig} {m next : SeederMut} {call : Call}
    (keyed : Keyed crypto m) (stepped : (seeder crypto config).step m call = some next) :
    Keyed crypto next := by
  cases call with
  | post sender binCreds around =>
    cases stepped
    rcases post_cases keyed config sender binCreds around with
      ⟨-, unchanged⟩ | ⟨peerId, creds, -, keyedNext, -⟩
    · rwa [unchanged]
    · exact keyedNext
  | testres res nowS =>
    cases stepped
    exact keyed.testres config res nowS

namespace Sample

/-- A hash that keeps the last byte, so that keys with different last bytes have different
addresses. -/
def crypto : Crypto where
  sha512 bytes := ⟨0xfc :: List.replicate 63 (bytes.getLastD 0), by simp⟩
  isSignature _ := true
  verifyDetached _ _ _ := true
  pkToCurve25519 := some

def config : SeederConfig where
  testerPasswds := [['t']]
  nameserverPasswds := [['n']]
  maxConnectionCount := 10
  sharePeersWithNameserver := 5

/-- The address of the key of fours. -/
def sender : Ip6 := ⟨0xfc :: List.replicate 15 4, by decide⟩

/-- A post of one credential with the key of fours. -/
def binCreds (id : List UInt8) (password : UInt8) : List UInt8 :=
  [4, UInt8.ofNat (id.length + 2)] ++ id ++
    ([2, 50, 192, 0, 2, 1, 1, 187, 5] ++ List.replicate 8 password ++ List.replicate 32 4 ++ [22])

/-- No node is connected, every clock shows the same time, and zeros are drawn. -/
def around : Surroundings := ⟨fun _ _ => (0, false), fun _ => 10000, fun _ => 0⟩

def post (id : List UInt8) (password : UInt8) : Call := .post sender (binCreds id password) around

/-- An identifier to be handed out, and one that is not. -/
def publicId : List UInt8 := [80, 85, 66, 95, 97]
def otherId : List UInt8 := [98]

end Sample

end RouteServer.Seeder
