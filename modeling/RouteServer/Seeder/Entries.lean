import RouteServer.Seeder.Posts

/-!
# One entry for every address

A check result names a node and one of its addresses. It reaches the current entry if there
is only one for the two. A post however looks its entry up by the whole credentials, so
credentials that were changed get an entry of their own beside the old one, and the old one
is the one that check results find.

There is one entry for every address throughout a run exactly when no post of the run
changes credentials.
-/

namespace RouteServer.Seeder

open Rust Bytes Keys

/-- The node and the address an entry is for. -/
def SeederPeer.place (p : SeederPeer) : Ip6 × SocketAddr := (p.ip, p.creds.address)

/-- No two entries are for the same address of a node. -/
def OneEntry (m : SeederMut) : Prop := (m.peers.map SeederPeer.place).Nodup

/-- Every check result for an address of a node, and no later one for it, is shown by what
is recorded for that address. -/
def ChecksReach (config : SeederConfig) (m : SeederMut) : Prop :=
  ∀ res nowS next, testres config res nowS m = (.ok (), next) →
    ∀ before node after ip6, res.nodes = before ++ node :: after →
      ip6FromText node.ip6 = some ip6 →
      (∀ other ∈ after, ¬(ip6FromText other.ip6 = some ip6 ∧ other.addr = node.addr)) →
      ∀ p ∈ next.peers, p.place = (ip6, node.addr) →
        p.checkError = node.error ∧ p.lastCheckSec = nowS

/-- After a post the latest credentials for an address are the recorded ones, and their check
result is reset if others were recorded before. -/
def PostReplaces (crypto : Crypto) (m : SeederMut) (call : Call) (next : SeederMut) : Prop :=
  match call with
  | .post sender binCreds _ =>
    ∀ peerId creds, posted crypto sender binCreds = some (peerId, creds) →
      ∀ before each after, creds = before ++ each :: after →
        (∀ other ∈ after, other.address ≠ each.address) →
        ∀ p ∈ next.peers, p.place = (sender, each.address) →
          p.creds = each ∧
          ((∃ q ∈ m.peers, q.place = (sender, each.address) ∧ q.creds ≠ each) →
            p.checkError = none ∧ p.lastCheckSec = 0)
  | .testres _ _ => True

/-- A post brings no credentials for an address that differ from those recorded for it, or
from others that it brings for it. -/
def KeepsCredentials (crypto : Crypto) (m : SeederMut) : Call → Prop
  | .post sender binCreds _ =>
    ∀ peerId creds, posted crypto sender binCreds = some (peerId, creds) →
      (∀ p ∈ m.peers, ∀ each ∈ creds, p.place = (sender, each.address) → p.creds = each) ∧
      ∀ each ∈ creds, ∀ other ∈ creds, each.address = other.address → each = other
  | .testres _ _ => True

/-- A place is a node and an address. -/
theorem place_eq_iff (p : SeederPeer) (ip : Ip6) (addr : SocketAddr) :
    p.place = (ip, addr) ↔ p.ip = ip ∧ p.creds.address = addr := by
  rw [SeederPeer.place, Prod.mk.injEq]

/-- With one entry for every place the place gives the entry. -/
theorem OneEntry.eq_of_place {m : SeederMut} (one : OneEntry m) {p q : SeederPeer}
    (inP : p ∈ m.peers) (inQ : q ∈ m.peers) (same : p.place = q.place) : p = q :=
  List.inj_on_of_nodup_map one inP inQ same

/-- There is one entry for every place when entries for the same place have the same
credentials, since credentials are recorded once. -/
theorem Keyed.oneEntry_iff {crypto : Crypto} {m : SeederMut} (keyed : Keyed crypto m) :
    OneEntry m ↔ ∀ p ∈ m.peers, ∀ q ∈ m.peers, p.place = q.place → p.creds = q.creds := by
  constructor
  · intro one p inP q inQ same
    rw [one.eq_of_place inP inQ same]
  · intro agree
    have nodup : m.peers.Nodup := List.Nodup.of_map _ keyed.distinct
    exact nodup.map_on fun p inP q inQ same =>
      keyed.eq_of_creds inP inQ (agree p inP q inQ same)

/-- Where credentials are recorded, every place has one entry afterwards exactly when they
change none and agree among themselves.

Proof: forwards a posted credential and the entry it continues, or two posted ones, have one
place and so are one. Backwards two entries of one place were there before or were posted, and
agree in each of these cases. -/
theorem Records.oneEntry_iff {crypto : Crypto} {sender : Ip6} {peerId : PeerID}
    {creds : List CjdnsPeer} {m next : SeederMut} (records : Records sender peerId creds m next)
    (keyedNext : Keyed crypto next) (one : OneEntry m) :
    OneEntry next ↔
      (∀ p ∈ m.peers, ∀ each ∈ creds, p.place = (sender, each.address) → p.creds = each) ∧
      ∀ each ∈ creds, ∀ other ∈ creds, each.address = other.address → each = other := by
  rw [keyedNext.oneEntry_iff]
  constructor
  · intro agree
    constructor
    · intro p member each posted here
      obtain ⟨old, inNext, continued⟩ := records.continued p member
      obtain ⟨new, newInNext, ip, same⟩ := records.present each posted
      rw [place_eq_iff] at here
      have place : old.place = new.place := by
        rw [SeederPeer.place, SeederPeer.place, continued.ip, continued.creds, ip, same, here.1,
          here.2]
      rw [← continued.creds, agree old inNext new newInNext place, same]
    · intro each posted other otherPosted address
      obtain ⟨p, inP, ip, same⟩ := records.present each posted
      obtain ⟨q, inQ, otherIp, otherSame⟩ := records.present other otherPosted
      have place : p.place = q.place := by
        rw [SeederPeer.place, SeederPeer.place, ip, same, otherIp, otherSame, address]
      rw [← same, agree p inP q inQ place, otherSame]
  · rintro ⟨kept, consistent⟩ p inP q inQ place
    obtain ⟨ip, address⟩ := (place_eq_iff p q.ip q.creds.address).mp place
    rcases records.origin p inP with ⟨old, member, continued⟩ | added <;>
      rcases records.origin q inQ with ⟨other, otherMember, otherContinued⟩ | otherAdded
    · have same : old.place = other.place := by
        rw [SeederPeer.place, SeederPeer.place, ← continued.ip, ← continued.creds,
          ← otherContinued.ip, ← otherContinued.creds, ip, address]
      rw [continued.creds, otherContinued.creds, one.eq_of_place member otherMember same]
    · rw [continued.creds]
      apply kept old member q.creds otherAdded.creds
      rw [place_eq_iff, ← continued.ip, ← continued.creds, ip, address]
      exact ⟨otherAdded.ip, rfl⟩
    · rw [otherContinued.creds]
      symm
      apply kept other otherMember p.creds added.creds
      rw [place_eq_iff, ← otherContinued.ip, ← otherContinued.creds, ← ip, ← address]
      exact ⟨added.ip, rfl⟩
    · exact consistent p.creds added.creds q.creds otherAdded.creds address

/-- A report moves no entry, so there is still one for every place. -/
theorem testres_oneEntry {config : SeederConfig} {res : SeederTestRes} {nowS : Nat}
    {m : SeederMut} (one : OneEntry m) : OneEntry (testres config res nowS m).2 := by
  rw [OneEntry, map_of_identity SeederPeer.place _ (testres_identity config res nowS m).2]
  · exact one
  · intro p q same
    obtain ⟨ip, -, creds, -, -⟩ := identity_eq_iff.mp same
    rw [SeederPeer.place, SeederPeer.place, ip, creds]

/-- The loop over the entries compares their places. -/
theorem isAt_iff (ip6 : Ip6) (addr : SocketAddr) (p : SeederPeer) :
    p.isAt ip6 addr = true ↔ p.place = (ip6, addr) := by
  rw [place_eq_iff, SeederPeer.isAt, Bool.and_eq_true, beq_iff_eq, beq_iff_eq]
  exact and_comm

/-- A result changes no place. -/
theorem testResult_place (nowS : Nat) (ip6 : Ip6) (addr : SocketAddr) (error : Option Text)
    (m : SeederMut) : (testResult nowS ip6 addr error m).peers.map SeederPeer.place =
      m.peers.map SeederPeer.place :=
  map_updateFirst fun _ _ => rfl

/-- The only entry for a place shows a result for it. -/
theorem testResult_reaches {m : SeederMut} (one : OneEntry m) (nowS : Nat) (ip6 : Ip6)
    (addr : SocketAddr) (error : Option Text) :
    ∀ p ∈ (testResult nowS ip6 addr error m).peers, p.place = (ip6, addr) →
      p.checkError = error ∧ p.lastCheckSec = nowS := by
  intro p member here
  have oneAfter : OneEntry (testResult nowS ip6 addr error m) := by
    rw [OneEntry, testResult_place]
    exact one
  obtain ⟨old, inOld, place⟩ : ∃ old ∈ m.peers, old.place = p.place := by
    have inside : p.place ∈ m.peers.map SeederPeer.place := by
      rw [← testResult_place nowS ip6 addr error m]
      exact List.mem_map_of_mem member
    simpa using inside
  cases isFirst : m.peers.find? (SeederPeer.isAt ip6 addr) with
  | none =>
    exact absurd ((isAt_iff ip6 addr old).mpr (place.trans here))
      (List.find?_eq_none.mp isFirst old inOld)
  | some found =>
    obtain ⟨passes, before, after, split, -, updated⟩ :=
      updateFirst_of_find (SeederPeer.checked error nowS) isFirst
    have inside : found.checked error nowS ∈ (testResult nowS ip6 addr error m).peers := by
      rw [testResult]
      simp [updated]
    have same : p = found.checked error nowS :=
      oneAfter.eq_of_place member inside (here.trans ((isAt_iff ip6 addr found).mp passes).symm)
    rw [same]
    exact ⟨rfl, rfl⟩

/-- Results for other places leave what is shown for a place. -/
theorem testResults_others {nowS : Nat} {ip6 : Ip6} {addr : SocketAddr} {error : Option Text}
    {checkedAt : Nat} (nodes : List SeederTestResNode)
    (others : ∀ other ∈ nodes, ¬(ip6FromText other.ip6 = some ip6 ∧ other.addr = addr))
    {m : SeederMut} (shown : ∀ p ∈ m.peers, p.place = (ip6, addr) →
      p.checkError = error ∧ p.lastCheckSec = checkedAt) :
    ∀ p ∈ (testResults nowS nodes m).2.peers, p.place = (ip6, addr) →
      p.checkError = error ∧ p.lastCheckSec = checkedAt := by
  induction nodes generalizing m with
  | nil => exact shown
  | cons node rest inductionHypothesis =>
    obtain ⟨first, later⟩ := List.forall_mem_cons.mp others
    rw [testResults]
    split
    · exact shown
    · next nodeIp named =>
      apply inductionHypothesis later
      intro p member here
      rcases mem_updateFirst member with old | ⟨found, isFirst, rfl⟩
      · exact shown p old here
      · have passes := (isAt_iff nodeIp node.addr found).mp (List.find?_some isFirst)
        have same : found.place = (ip6, addr) := here
        rw [passes, Prod.mk.injEq] at same
        exact absurd ⟨by rw [named, same.1], same.2⟩ first

/-- With one entry for every place all check results reach what is recorded. -/
theorem OneEntry.checksReach {m : SeederMut} (one : OneEntry m) (config : SeederConfig) :
    ChecksReach config m := by
  intro res nowS next done before node after ip6 nodes named later
  rw [testres] at done
  split at done
  · cases done
  rw [nodes] at done
  clear nodes
  induction before generalizing m with
  | nil =>
    rw [List.nil_append, testResults, named] at done
    have shown := testResult_reaches one nowS ip6 node.addr node.error
    have kept := @testResults_others nowS ip6 node.addr node.error nowS after later _ shown
    dsimp only at done
    rw [done] at kept
    exact kept
  | cons earlier before inductionHypothesis =>
    rw [List.cons_append, testResults] at done
    split at done
    · cases done
    · next earlierIp _ =>
      have oneAfter : OneEntry (testResult nowS earlierIp earlier.addr earlier.error m) := by
        rw [OneEntry, testResult_place]
        exact one
      exact inductionHypothesis oneAfter done

/-- The recorded credentials are the latest, where they cannot have changed. -/
theorem Records.postReplaces {crypto : Crypto} {sender : Ip6} {binCreds : List UInt8}
    {around : Surroundings} {peerId : PeerID} {creds : List CjdnsPeer} {m next : SeederMut}
    (records : Records sender peerId creds m next)
    (read : posted crypto sender binCreds = some (peerId, creds)) (one : OneEntry next)
    (kept : KeepsCredentials crypto m (.post sender binCreds around)) :
    PostReplaces crypto m (.post sender binCreds around) next := by
  intro _ _ sameRead before each after split _ p member here
  cases read.symm.trans sameRead
  have inside : each ∈ creds := by simp [split]
  obtain ⟨p', inNext, ip, same⟩ := records.present each inside
  have isSame : p = p' := by
    apply one.eq_of_place member inNext
    rw [here, SeederPeer.place, ip, same]
  refine ⟨by rw [isSame, same], ?_⟩
  rintro ⟨q, inM, place, changed⟩
  exact absurd ((kept peerId creds read).1 q inM each inside place) changed

/-- A call leaves one entry for every address exactly if it changes no credentials. -/
theorem Keyed.oneEntry_step_iff {crypto : Crypto} {config : SeederConfig} {m next : SeederMut}
    {call : Call} (keyed : Keyed crypto m) (one : OneEntry m)
    (stepped : (seeder crypto config).step m call = some next) :
    OneEntry next ↔ KeepsCredentials crypto m call := by
  cases call with
  | post sender binCreds around =>
    cases stepped
    rcases post_cases keyed config sender binCreds around with
      ⟨nothing, unchanged⟩ | ⟨peerId, creds, read, keyedNext, records⟩
    · rw [unchanged]
      simp only [KeepsCredentials, nothing, one, true_iff]
      intro peerId creds none'
      cases none'
    · rw [records.oneEntry_iff keyedNext one]
      simp only [KeepsCredentials, read, Option.some.injEq, Prod.mk.injEq]
      constructor
      · rintro kept _ _ ⟨rfl, rfl⟩
        exact kept
      · exact fun kept => kept peerId creds ⟨rfl, rfl⟩
  | testres res nowS =>
    cases stepped
    exact iff_of_true (testres_oneEntry one) trivial

/-- A post that changes no credentials replaces what its sender posted before. -/
theorem Keyed.postReplaces_step {crypto : Crypto} {config : SeederConfig} {m next : SeederMut}
    {call : Call} (keyed : Keyed crypto m) (oneNext : OneEntry next)
    (kept : KeepsCredentials crypto m call)
    (stepped : (seeder crypto config).step m call = some next) :
    PostReplaces crypto m call next := by
  cases call with
  | testres res nowS => exact trivial
  | post sender binCreds around =>
    cases stepped
    rcases post_cases keyed config sender binCreds around with
      ⟨nothing, -⟩ | ⟨peerId, creds, read, -, records⟩
    · intro peerId creds read
      cases nothing.symm.trans read
    · exact records.postReplaces read oneNext kept

/-- Throughout a run every address of a node has one entry, check results reach it and posts
replace it, if and only if no post of the run brings other credentials for an address than
those recorded for it, or different ones for one address.

Proof: the run is reduced to its steps. A post adds an entry for an address that has one exactly
when it brings other credentials for it; as long as places are unique the checks of an address
reach its one entry. -/
theorem one_entry_iff (crypto : Crypto) (config : SeederConfig) (events : List Call) :
    ((∀ m, (seeder crypto config).Reached events m → OneEntry m ∧ ChecksReach config m) ∧
      ∀ m call next, (seeder crypto config).Taken events m call next →
        PostReplaces crypto m call next) ↔
      ∀ m call next, (seeder crypto config).Taken events m call next →
        KeepsCredentials crypto m call := by
  have keyed : ∀ m, (seeder crypto config).Reached events m → Keyed crypto m := fun m =>
    Machine.System.reached_induction (Keyed crypto) (Keyed.initial crypto)
      fun _ _ _ taken keyed => keyed.step taken.possible
  have always : (∀ m, (seeder crypto config).Reached events m →
      OneEntry m ∧ ChecksReach config m) ↔
      ∀ m call next, (seeder crypto config).Taken events m call next →
        KeepsCredentials crypto m call := by
    apply Machine.System.always_iff (seeder crypto config) events (Keyed crypto)
      (fun m => OneEntry m ∧ ChecksReach config m) (KeepsCredentials crypto)
    · exact Keyed.initial crypto
    · have one : OneEntry {} := List.nodup_nil
      exact ⟨one, one.checksReach config⟩
    · exact fun m call next _ keyed _ stepped => keyed.step stepped
    · intro m call next _ keyed good stepped
      have both : OneEntry next ∧ ChecksReach config next ↔ OneEntry next :=
        ⟨And.left, fun one => ⟨one, one.checksReach config⟩⟩
      rw [both]
      exact keyed.oneEntry_step_iff good.1 stepped
  constructor
  · rintro ⟨good, -⟩
    exact always.mp good
  · intro kept
    have good := always.mpr kept
    refine ⟨good, ?_⟩
    intro m call next taken
    have oneNext : OneEntry next := (good next taken.reached.2).1
    have keyedHere : Keyed crypto m := keyed m taken.reached.1
    exact keyedHere.postReplaces_step oneNext (kept m call next taken) taken.possible

/-- A node posts new credentials for an address. The old ones stay, so that the address has
two entries. -/
theorem changed_credentials_twice :
    ¬∀ (crypto : Crypto) (config : SeederConfig) (events : List Call),
      (∀ m, (seeder crypto config).Reached events m → OneEntry m ∧ ChecksReach config m) ∧
      ∀ m call next, (seeder crypto config).Taken events m call next →
        PostReplaces crypto m call next := by
  intro always
  obtain ⟨m, reached, shown⟩ := Machine.System.exists_reached_of_any
    (seeder Sample.crypto Sample.config)
    [Sample.post Sample.publicId 6, Sample.post Sample.publicId 7]
    (fun m => !decide (m.peers.map SeederPeer.place).Nodup) (by decide +kernel)
  have one := ((always _ _ _).1 m reached).1
  rw [Bool.not_eq_true', decide_eq_false_iff_not] at shown
  exact shown one

end RouteServer.Seeder
