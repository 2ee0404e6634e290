import RouteServer.Snode.LinkNumbers
import RouteServer.Snode.Run

/-!
# Peer numbers

Link states and superseding entities refer to a link by its number alone, so a number
must not stand for two links of a node. The peer loop looks for a number under the
address of its peer only. A number that moves to another address therefore stays under
the earlier one too, unless the announcement withdraws it there.
-/

namespace RouteServer.Snode

open Rust Keys Ann Encoding

/-- A number identifies a link, under one address or several. No list is empty. -/
structure WellNumbered (links : InwardLinks) : Prop where
  nonempty : ∀ ip stored, links.lookup ip = some stored → stored ≠ []
  within : ∀ ip stored, links.lookup ip = some stored → (numbers stored).Nodup
  across : ∀ ip other number, ip ≠ other → Stores links ip number → ¬Stores links other number

/-- Every number that an announcement links is linked at one address, and withdrawn
where it is stored at another. -/
def Relinks (ann : Announcement) (links : InwardLinks) : Prop :=
  ∀ ip other number, ip ≠ other → GivesLink ann ip number →
    ¬GivesLink ann other number ∧ (Stores links other number → Withdraws ann other number)

/-- The links an announcement is applied to: a reset starts anew. -/
def startingLinks (server : Server) (ann : Announcement) : InwardLinks :=
  if ann.header.isReset then ∅
  else ((server.nodes.lookup ann.nodeIp).map Node.inwardLinksByIp).getD ∅

/-- An event keeps peer numbers apart: an announcement that is accepted relinks the
numbers it moves. -/
def NumbersKept (crypto : Crypto) (server : Server) : Event → Prop
  | .announce announce source call => ∀ ann, readAnnouncement crypto announce = .ok ann →
      Accepts call source server ann → Relinks ann (startingLinks server ann)
  | _ => True

/-- Numbers identify peers where the links of each peer are tidy and no two peers share one. -/
theorem wellNumbered_iff (links : InwardLinks) :
    WellNumbered links ↔ Tidy links ∧
      ∀ ip other number, ip ≠ other → Stores links ip number → ¬Stores links other number := by
  constructor
  · intro wellNumbered
    refine ⟨?_, wellNumbered.across⟩
    intro ip stored found
    obtain ⟨list, lookup, rfl⟩ := Option.map_eq_some_iff.mp found
    exact ⟨mt List.map_eq_nil_iff.mp (wellNumbered.nonempty ip list lookup),
      wellNumbered.within ip list lookup⟩
  · rintro ⟨tidy, across⟩
    have numbered : ∀ ip stored, links.lookup ip = some stored →
        numbersOf links ip = some (numbers stored) := by
      intro ip stored lookup
      rw [numbersOf, lookup, Option.map_some]
    refine ⟨fun ip stored lookup => ?_, fun ip stored lookup => ?_, across⟩
    · exact fun empty => (tidy ip _ (numbered ip stored lookup)).1 (List.map_eq_nil_iff.mpr empty)
    · exact (tidy ip _ (numbered ip stored lookup)).2

/-- Numbers alone decide. -/
theorem wellNumbered_congr {links others : InwardLinks}
    (same : ∀ ip, numbersOf links ip = numbersOf others ip) :
    WellNumbered links ↔ WellNumbered others := by
  simp only [wellNumbered_iff, Tidy, Stores, same]

/-- No links have no numbers in common. -/
theorem empty_wellNumbered : WellNumbered ∅ := by
  rw [wellNumbered_iff]
  refine ⟨fun ip stored found => ?_, ?_⟩
  · simp [numbersOf] at found
  · rintro ip other number - ⟨stored, found, -⟩
    simp [numbersOf] at found

/-- An announcement keeps the numbers of links apart exactly when it relinks the
numbers it moves. -/
theorem applyPeers_wellNumbered_iff {links : InwardLinks} (wellNumbered : WellNumbered links)
    (ann : Announcement) : WellNumbered (applyPeers ann links) ↔ Relinks ann links := by
  obtain ⟨tidy, across⟩ := (wellNumbered_iff links).mp wellNumbered
  rw [wellNumbered_iff, and_iff_right (tidy.applyPeers ann)]
  simp only [stores_applyPeers_iff]
  constructor
  · intro apart ip other number different gives
    have notOther := apart ip other number different (Or.inl gives)
    refine ⟨fun givesOther => notOther (Or.inl givesOther), fun stored => ?_⟩
    by_contra keeps
    exact notOther (Or.inr ⟨stored, keeps⟩)
  · rintro relinks ip other number different (gives | ⟨stored, keeps⟩)
      (givesOther | ⟨storedOther, keepsOther⟩)
    · exact (relinks ip other number different gives).1 givesOther
    · exact keepsOther ((relinks ip other number different gives).2 storedOther)
    · exact keeps ((relinks other ip number different.symm givesOther).2 stored)
    · exact across ip other number different stored storedOther

/-- A node whose links are well numbered. -/
abbrev NodeWellNumbered (_ : Ip6) (node : Node) : Prop := WellNumbered node.inwardLinksByIp

/-- An announcement is applied to the links that its node starts with. -/
theorem Applies.startingLinks {crypto : Crypto} {call : Call} {announce : List UInt8}
    {source : Source} {server : Server} {ann : Announcement} {node : Node}
    (applies : Applies crypto call announce source server ann node) :
    node.inwardLinksByIp = startingLinks server ann := by
  rw [Snode.startingLinks]
  rcases appliedTo_cases applies.target with ⟨isReset, -, links, -⟩ | ⟨notReset, old, found, rfl⟩
  · rw [if_pos isReset, links]
  · rw [if_neg notReset, found]
    rfl

/-- A node starts with links that are numbered well, its own or none. -/
theorem startingLinks_wellNumbered {server : Server}
    (every : EveryNode NodeWellNumbered server) (ann : Announcement) :
    WellNumbered (startingLinks server ann) := by
  rw [startingLinks]
  split
  · exact empty_wellNumbered
  · cases found : server.nodes.lookup ann.nodeIp with
    | none => exact empty_wellNumbered
    | some node => exact every ann.nodeIp node found

/-- One step keeps peer numbers apart exactly when its announcement, if it is accepted,
relinks the numbers it moves.

Proof: an accepted announcement decides on the links of its own node only, and other steps keep
the links of all nodes or drop nodes. -/
theorem step_wellNumbered_iff {crypto : Crypto} {before after : Server} {event : Event}
    (every : EveryNode NodeWellNumbered before)
    (possible : step crypto before event = some after) :
    EveryNode NodeWellNumbered after ↔ NumbersKept crypto before event := by
  have ofCore : ∀ ip node, NodeWellNumbered ip (Node.core node) ↔ NodeWellNumbered ip node :=
    fun _ _ => Iff.rfl
  cases step_effect possible with
  | applied announce source call ann node applies becomes =>
    rw [every.becomes_iff ofCore becomes]
    have links : WellNumbered (updateLinks call.order ann node).inwardLinksByIp ↔
        WellNumbered (applyPeers ann node.inwardLinksByIp) :=
      wellNumbered_congr (numbersOf_linkStateUpdate1 call.order ann _)
    rw [NodeWellNumbered, links, applies.startingLinks,
      applyPeers_wellNumbered_iff (startingLinks_wellNumbered every ann)]
    constructor
    · intro relinks other read _
      cases Outcome.ok.inj (applies.read.symm.trans read)
      exact relinks
    · intro kept
      exact kept ann applies.read
        ((accepts_iff call source before applies.read).mpr ⟨node, applies⟩)
  | cleaned now cleaned =>
    subst cleaned
    exact iff_of_true (every.cleaned now) trivial
  | idle _ nodes anns refused =>
    apply iff_of_true (every.of_same_cores ofCore nodes)
    cases event with
    | announce announce source call =>
      exact fun ann read accepts => absurd accepts (refused announce source call ann rfl read)
    | keepTableClean => trivial
    | connect => trivial

/-- **Throughout a run peer numbers identify links exactly when every accepted
announcement relinks the numbers it moves**: it links a number at one address only, and
withdraws it where the node stores it at another.

Proof: the run is reduced to its steps. In one step the links of one node change, peer by peer, so
what counts is whether a number that is moved is still stored at another address when all peers
are applied. -/
theorem peer_numbers_identify_iff (crypto : Crypto) (events : List Event) :
    (∀ state, (routeServer crypto).Reached events state → EveryNode NodeWellNumbered state) ↔
      ∀ state event next, (routeServer crypto).Taken events state event next →
        NumbersKept crypto state event :=
  Machine.System.always_iff (routeServer crypto) events (fun _ => True)
    (EveryNode NodeWellNumbered) (NumbersKept crypto) trivial
    (fun _ _ found => absurd found (by simp [routeServer, Server.new]))
    (fun _ _ _ _ _ _ _ => trivial)
    (fun _ _ _ _ _ every possible => step_wellNumbered_iff every possible)

/-- A peer under the number 1, and a second later another peer under that number. -/
def movedNumber : List Event :=
  [.announce Sample.resetWithPeer .gossip ⟨0, .ofEntries⟩,
    .announce Sample.newPeer .gossip ⟨0, .ofEntries⟩]

/-- A number that moves to another peer stays with the earlier one as well. -/
theorem moved_number_stays :
    ∃ state, (routeServer Sample.crypto).Reached movedNumber state ∧
      ¬EveryNode NodeWellNumbered state := by
  let first : Ip6 := ⟨Sample.bytesOf 16 0xfc000000000000000000000000000001, by decide⟩
  let second : Ip6 := ⟨Sample.bytesOf 16 0xfc000000000000000000000000000002, by decide⟩
  obtain ⟨state, reached, stored⟩ := (routeServer Sample.crypto).exists_reached_of_any movedNumber
    (fun state => (state.nodes.lookup Sample.nodeIp).any fun node =>
      numbersOf node.inwardLinksByIp first = some [1] ∧
        numbersOf node.inwardLinksByIp second = some [1]) (by decide +kernel)
  refine ⟨state, reached, fun every => ?_⟩
  obtain ⟨node, found, both⟩ := (Option.any_eq_true _ _).mp stored
  obtain ⟨storesFirst, storesSecond⟩ := of_decide_eq_true both
  exact (every Sample.nodeIp node found).across first second 1 (by decide)
    ⟨[1], storesFirst, List.mem_singleton_self 1⟩ ⟨[1], storesSecond, List.mem_singleton_self 1⟩

end RouteServer.Snode
