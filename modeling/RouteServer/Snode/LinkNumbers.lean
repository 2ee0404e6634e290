import Mathlib.Data.List.Induction
import RouteServer.Snode.Link

/-!
# Numbers of stored links

Which numbers are stored under an address after the peer loop depends on the last
word of the announcement on each address and number: it puts the number there or
takes it away, and where there is none the number stays as it was. Under each address
every number stays alone, but nothing compares numbers of different addresses. Link
states change what links hold, never their numbers.
-/

namespace RouteServer.Snode

open Rust Keys Ann Labels

/-- The numbers of some links. -/
def numbers (stored : List Link) : List UInt16 := stored.map Link.peerNum

/-- The numbers stored under an address, if anything is. -/
def numbersOf (links : InwardLinks) (ip : Ip6) : Option (List UInt16) :=
  (links.lookup ip).map numbers

/-- A number is stored under an address. -/
def Stores (links : InwardLinks) (ip : Ip6) (number : UInt16) : Prop :=
  ∃ stored, numbersOf links ip = some stored ∧ number ∈ stored

/-- No list of links is empty, and no number is twice under one address. -/
def Tidy (links : InwardLinks) : Prop :=
  ∀ ip stored, numbersOf links ip = some stored → stored ≠ [] ∧ stored.Nodup

/-- The last peer entity on an address and a number. -/
def lastWord (peers : List PeerData) (ip : Ip6) (number : UInt16) : Option PeerData :=
  (peers.filter fun peer => peer.ipv6 = ip ∧ peer.peerNum = number).getLast?

/-- The last word of an announcement on an address and a number is a link. -/
def GivesLink (ann : Announcement) (ip : Ip6) (number : UInt16) : Prop :=
  ∃ peer, lastWord (peersFromAnnouncement ann) ip number = some peer ∧ peer.label ≠ none

/-- The last word of an announcement on an address and a number is a withdrawal. -/
def Withdraws (ann : Announcement) (ip : Ip6) (number : UInt16) : Prop :=
  ∃ peer, lastWord (peersFromAnnouncement ann) ip number = some peer ∧ peer.label = none

/-- A link goes to the end unless its number is there already. -/
theorem numbers_storeLink (newLink : Link) (stored : List Link) :
    numbers (storeLink newLink stored) =
      if newLink.peerNum ∈ numbers stored then numbers stored
      else numbers stored ++ [newLink.peerNum] := by
  induction stored with
  | nil => rfl
  | cons first rest inductionHypothesis =>
    by_cases same : first.peerNum = newLink.peerNum
    · have listed : newLink.peerNum ∈ numbers (first :: rest) := by simp [numbers, same]
      rw [if_pos listed, storeLink, if_neg (not_not.mpr same)]
      split <;> simp [numbers, same]
    · rw [storeLink, if_pos same]
      have listed_iff : newLink.peerNum ∈ numbers (first :: rest) ↔
          newLink.peerNum ∈ numbers rest := by
        simp [numbers, Ne.symm same]
      have cons : ∀ tail, numbers (first :: tail) = first.peerNum :: numbers tail := fun _ => rfl
      rw [cons, inductionHypothesis, cons]
      simp only [← cons, listed_iff]
      split <;> rfl

/-- Taking links of a number out takes the number out. -/
theorem numbers_filter (stored : List Link) (number : UInt16) :
    numbers (stored.filter fun link => link.peerNum ≠ number) =
      (numbers stored).filter (· ≠ number) := by
  simp only [numbers, List.filter_map]
  rfl

/-- What one peer entity does under its own address.

Proof: by whether the peer has a label and whether there are links from it. -/
theorem numbersOf_applyPeer_self (ann : Announcement) (links : InwardLinks) (peer : PeerData) :
    numbersOf (applyPeer ann links peer) peer.ipv6 =
      match peer.label with
      | none => (numbersOf links peer.ipv6).bind fun stored =>
        let kept := stored.filter (· ≠ peer.peerNum)
        if kept = [] then none else some kept
      | some _ => match numbersOf links peer.ipv6 with
        | some stored =>
          some (if peer.peerNum ∈ stored then stored else stored ++ [peer.peerNum])
        | none => some [peer.peerNum] := by
  unfold applyPeer numbersOf
  cases peer.label with
  | none =>
    cases found : links.lookup peer.ipv6 with
    | none => simp [found]
    | some stored =>
      have kept_iff : (stored.filter fun link => link.peerNum ≠ peer.peerNum).isEmpty = true ↔
          (numbers stored).filter (· ≠ peer.peerNum) = [] := by
        rw [← numbers_filter, List.isEmpty_iff, numbers, List.map_eq_nil_iff]
      by_cases none_left : (numbers stored).filter (· ≠ peer.peerNum) = []
      · simp only [kept_iff.mpr none_left, if_true, AList.lookup_erase, Option.map_none,
          Option.map_some, Option.bind_some, none_left]
      · simp only [mt kept_iff.mp none_left, Bool.false_eq_true, if_false, AList.lookup_insert,
          Option.map_some, Option.bind_some, numbers_filter, none_left]
  | some label =>
    cases found : links.lookup peer.ipv6 with
    | none => simp [AList.lookup_insert, numbers, mkLink]
    | some stored =>
      simp only [AList.lookup_insert, Option.map_some, numbers_storeLink]
      rfl

/-- A peer entity concerns its own address only. -/
theorem numbersOf_applyPeer_ne (ann : Announcement) (links : InwardLinks) {peer : PeerData}
    {ip : Ip6} (different : ip ≠ peer.ipv6) :
    numbersOf (applyPeer ann links peer) ip = numbersOf links ip := by
  unfold applyPeer numbersOf
  cases peer.label with
  | none =>
    cases links.lookup peer.ipv6 with
    | none => rfl
    | some stored =>
      dsimp only
      split
      · rw [AList.lookup_erase_ne different]
      · rw [AList.lookup_insert_ne different]
  | some label =>
    cases links.lookup peer.ipv6 with
    | none => simp only [AList.lookup_insert_ne different]
    | some stored => simp only [AList.lookup_insert_ne different]

/-- A peer entity decides on its own address and number, and on nothing else.

Proof: by whether the address is that of the peer, and then by what the entity does to its
numbers. -/
theorem stores_applyPeer_iff (ann : Announcement) (links : InwardLinks) (peer : PeerData)
    (ip : Ip6) (number : UInt16) :
    Stores (applyPeer ann links peer) ip number ↔
      if peer.ipv6 = ip ∧ peer.peerNum = number then peer.label ≠ none
      else Stores links ip number := by
  by_cases own : ip = peer.ipv6
  · subst own
    simp only [Stores, numbersOf_applyPeer_self, true_and]
    cases peer.label with
    | none =>
      cases numbersOf links peer.ipv6 with
      | none => simp
      | some stored =>
        simp only [Option.bind_some, ne_eq, not_true_eq_false, Option.some.injEq,
          exists_eq_left']
        have member : (∃ kept, (if stored.filter (· ≠ peer.peerNum) = [] then none
            else some (stored.filter (· ≠ peer.peerNum))) = some kept ∧ number ∈ kept) ↔
              number ∈ stored ∧ number ≠ peer.peerNum := by
          split
          · next nothing =>
            have absent : number ∉ stored.filter (· ≠ peer.peerNum) := by
              rw [nothing]
              exact List.not_mem_nil
            simp only [List.mem_filter, decide_eq_true_eq] at absent
            simp only [reduceCtorEq, false_and, exists_false, absent]
          · simp
        simp only [ne_eq] at member
        rw [member]
        split
        · next same => simp [same]
        · next other => simp [Ne.symm other]
    | some label =>
      cases numbersOf links peer.ipv6 with
      | none =>
        simp only [Option.some.injEq, exists_eq_left', List.mem_singleton]
        split
        · next same => simp [same]
        · next other => simp [Ne.symm other]
      | some stored =>
        simp only [Option.some.injEq, exists_eq_left']
        by_cases same : peer.peerNum = number
        · subst same
          split <;> simp_all
        · split <;> simp [Ne.symm same]
  · have elsewhere : ¬(peer.ipv6 = ip ∧ peer.peerNum = number) := fun both => own both.1.symm
    rw [if_neg elsewhere]
    simp only [Stores, numbersOf_applyPeer_ne ann links own]

/-- One peer of an announcement keeps the links tidy: its number is put behind the others if it is
not among them, or it is taken out.

Proof: by whether the address is that of the peer, and then by what the entity does to its
numbers. -/
theorem Tidy.applyPeer {links : InwardLinks} (tidy : Tidy links) (ann : Announcement)
    (peer : PeerData) : Tidy (applyPeer ann links peer) := by
  intro ip stored found
  by_cases own : ip = peer.ipv6
  · subst own
    rw [numbersOf_applyPeer_self] at found
    cases hasLabel : peer.label with
    | none =>
      rw [hasLabel] at found
      obtain ⟨earlier, lookup, kept⟩ := Option.bind_eq_some_iff.mp found
      dsimp only at kept
      split at kept
      · cases kept
      · next some_left =>
        cases kept
        exact ⟨some_left, (tidy _ _ lookup).2.filter _⟩
    | some label =>
      rw [hasLabel] at found
      cases lookup : numbersOf links peer.ipv6 with
      | none =>
        rw [lookup] at found
        cases found
        exact ⟨List.cons_ne_nil _ _, List.nodup_singleton _⟩
      | some earlier =>
        rw [lookup] at found
        obtain ⟨nonempty, nodup⟩ := tidy _ _ lookup
        cases found
        split
        · exact ⟨nonempty, nodup⟩
        · next fresh =>
          refine ⟨by simp, List.nodup_append.mpr ⟨nodup, List.nodup_singleton _, ?_⟩⟩
          rintro number listed _ single rfl
          exact fresh (List.mem_singleton.mp single ▸ listed)
  · rw [numbersOf_applyPeer_ne ann links own] at found
    exact tidy ip stored found

/-- After some peer entities: the last word on an address and a number decides, and
where there is none the number stays as it was. -/
theorem stores_foldl_iff (ann : Announcement) (peers : List PeerData) (links : InwardLinks)
    (ip : Ip6) (number : UInt16) :
    Stores (peers.foldl (applyPeer ann) links) ip number ↔
      match lastWord peers ip number with
      | some peer => peer.label ≠ none
      | none => Stores links ip number := by
  induction peers using List.reverseRecOn with
  | nil => rfl
  | append_singleton earlier peer inductionHypothesis =>
    rw [List.foldl_append, List.foldl_cons, List.foldl_nil, stores_applyPeer_iff]
    by_cases concerned : peer.ipv6 = ip ∧ peer.peerNum = number
    · simp [lastWord, concerned]
    · rw [if_neg concerned, inductionHypothesis]
      simp [lastWord, concerned]

/-- The peer loop stores the links an announcement gives, and keeps those stored before
that it does not withdraw. -/
theorem stores_applyPeers_iff (ann : Announcement) (links : InwardLinks) (ip : Ip6)
    (number : UInt16) :
    Stores (applyPeers ann links) ip number ↔
      GivesLink ann ip number ∨ Stores links ip number ∧ ¬Withdraws ann ip number := by
  rw [applyPeers, stores_foldl_iff]
  rw [GivesLink, Withdraws]
  cases lastWord (peersFromAnnouncement ann) ip number with
  | none => simp
  | some peer =>
    simp only [Option.some.injEq, exists_eq_left']
    by_cases hasLabel : peer.label = none <;> simp [hasLabel]

/-- The loop over the peers keeps the links tidy, by induction on them. -/
theorem Tidy.applyPeers {links : InwardLinks} (tidy : Tidy links) (ann : Announcement) :
    Tidy (applyPeers ann links) := by
  rw [Snode.applyPeers]
  induction peersFromAnnouncement ann generalizing links with
  | nil => exact tidy
  | cons peer rest inductionHypothesis => exact inductionHypothesis (tidy.applyPeer ann peer)

/-- A change of links that keeps their numbers. -/
theorem numbers_modify (stored : List Link) (place : Nat) (change : Link → Link)
    (keeps : ∀ link, (change link).peerNum = link.peerNum) :
    numbers (stored.modify place change) = numbers stored := by
  induction stored generalizing place with
  | nil => simp
  | cons first rest inductionHypothesis =>
    cases place with
    | zero => simp [numbers, keeps]
    | succ place =>
      simp only [List.modify_succ_cons, numbers, List.map_cons]
      exact congrArg _ (inductionHypothesis place)

/-- An update of a link leaves its number. -/
theorem updateLink_peerNum (ls : LinkStateData) (ts earliestOkTs : UInt64) (link : Link) :
    (updateLink ls ts earliestOkTs link).peerNum = link.peerNum := by
  have record : ∀ (places : List Nat) (state : Link × UInt64),
      (places.foldl (recordSlot ls ts) state).1.peerNum = state.1.peerNum := by
    intro places
    induction places with
    | nil => exact fun _ => rfl
    | cons place rest inductionHypothesis =>
      intro state
      rw [List.foldl_cons, inductionHypothesis]
      obtain ⟨link, time⟩ := state
      rw [recordSlot]
      dsimp only
      split <;> rfl
  exact record _ _

/-- Link states leave all numbers as they are. -/
theorem numbersOf_linkStateUpdate1 (order : LinkOrder) (ann : Announcement) (links : InwardLinks)
    (ip : Ip6) : numbersOf (linkStateUpdate1 order ann links) ip = numbersOf links ip := by
  unfold linkStateUpdate1
  dsimp only
  generalize linksByNum order links = found
  induction linkStatesFromAnnouncement ann generalizing links with
  | nil => rfl
  | cons ls rest inductionHypothesis =>
    rw [List.foldl_cons, inductionHypothesis]
    split
    · next owner place _ =>
      by_cases same : ip = owner
      · subst same
        rw [numbersOf, HashMap.lookup_modify_self, Option.map_map]
        refine congrArg (Option.map · (links.lookup ip)) (funext fun stored => ?_)
        exact numbers_modify stored place _ (updateLink_peerNum ls _ _)
      · rw [numbersOf, HashMap.lookup_modify_ne links same, numbersOf]
    · rfl

end RouteServer.Snode
