import Mathlib.Algebra.Field.Rat
import RouteServer.Ann.Model
import RouteServer.Rust.HashMap
import RouteServer.Words.F64

/-!
# Links into a node

A node keeps the links by which its peers reach it, under the address of each peer.
A peer entity of an announcement adds a link, changes one or withdraws one; it is
matched by its peer number, among the links of the same address. Link state entities
refer to links by their number alone.

Values of links are doubles. They are sums of quotients of numbers that are not negative,
none of them divided by zero and no infinity by another, so the assertions on them hold.
What is computed with them is written for any such arithmetic, to be read with exact
numbers as well. The arithmetic of timestamps wraps, as in a release build.
-/

namespace RouteServer.Snode

open Rust Keys Ann Labels Words

/-- The arithmetic of link values. -/
class LinkArithmetic (V : Type) extends Zero V, One V, Add V, Mul V, Div V, NatCast V where
  /-- `f64::powi` of two. -/
  twoPow : Nat → V

instance : LinkArithmetic F64 where
  twoPow drops := F64.ofRat (2 ^ drops)

/-- Exact numbers in place of doubles. -/
instance : LinkArithmetic Rat where
  twoPow drops := 2 ^ drops

/-- `LinkStateMut`. -/
structure LinkStateMut (V : Type := F64) where
  mostRecentLsSlot : UInt64
  mtu : UInt32
  flags : UInt8
  time : UInt64
  value : V
deriving DecidableEq

/-- `LinkStateEntry`. -/
structure LinkStateEntry where
  drops : UInt16
  lag : UInt16
  kbRecv : UInt32
deriving DecidableEq

/-- `Link`. -/
structure Link (V : Type := F64) where
  label : RoutingLabel 32
  encodingFormNumber : UInt8
  peerNum : UInt16
  linkState : AList (fun _ : UInt64 => LinkStateEntry)
  createTime : UInt64
  mutState : LinkStateMut V

/-- `inward_links_by_ip`. -/
abbrev InwardLinks : Type := AList (fun _ : Ip6 => List Link)

/-- An order of iteration over the links, which the hash map is free to choose. -/
structure LinkOrder where
  iterate : InwardLinks → List (Ip6 × List Link)
  complete : ∀ links, (iterate links).Perm (links.entries.map fun entry => (entry.1, entry.2))

/-- Links in the order of their entries. -/
def LinkOrder.ofEntries : LinkOrder where
  iterate := fun links => links.entries.map fun entry => (entry.1, entry.2)
  complete := fun _ => List.Perm.refl _

/-- The timeslot of a timestamp, ten seconds each. -/
def timeslot (timestamp : UInt64) : UInt64 := timestamp / 1000 / 10

/-- `mk_link`, for a peer that has a label. -/
def mkLink (label : RoutingLabel 32) (annPeer : PeerData) (ann : Announcement) : Link where
  label := label
  encodingFormNumber := annPeer.encodingFormNumber
  peerNum := annPeer.peerNum
  linkState := ∅
  createTime := ann.header.timestamp
  mutState := {
    mostRecentLsSlot := timeslot ann.header.timestamp
    mtu := annPeer.mtu
    flags := annPeer.flags
    time := ann.header.timestamp
    value := 0 }

/-- The loop over the links of one address: the first link of the same number is
updated or replaced, and without one the new link goes to the end. -/
def storeLink (newLink : Link) : List Link → List Link
  | [] => [newLink]
  | stored :: rest =>
    if stored.peerNum ≠ newLink.peerNum then stored :: storeLink newLink rest
    else if stored.label ≠ newLink.label ∨
        stored.encodingFormNumber ≠ newLink.encodingFormNumber then newLink :: rest
    else { stored with mutState := { stored.mutState with
      flags := newLink.mutState.flags
      mtu := newLink.mutState.mtu
      time := newLink.mutState.time } } :: rest

/-- One iteration of the peer loop. -/
def applyPeer (ann : Announcement) (links : InwardLinks) (peer : PeerData) : InwardLinks :=
  match peer.label with
  | none =>
    match links.lookup peer.ipv6 with
    | some stored =>
      let kept := stored.filter (fun link => link.peerNum ≠ peer.peerNum)
      if kept.isEmpty then links.erase peer.ipv6 else links.insert peer.ipv6 kept
    | none => links
  | some label =>
    let newLink := mkLink label peer ann
    match links.lookup peer.ipv6 with
    | some stored => links.insert peer.ipv6 (storeLink newLink stored)
    | none => links.insert peer.ipv6 [newLink]

/-- `peers_from_announcement`. -/
def peersFromAnnouncement (ann : Announcement) : List PeerData :=
  ann.entities.filterMap fun
    | .peer data => some data
    | _ => none

/-- `link_states_from_announcement`. -/
def linkStatesFromAnnouncement (ann : Announcement) : List LinkStateData :=
  ann.entities.filterMap fun
    | .linkState data => some data
    | _ => none

/-- The peer loop. -/
def applyPeers (ann : Announcement) (links : InwardLinks) : InwardLinks :=
  (peersFromAnnouncement ann).foldl (applyPeer ann) links

variable {V : Type} [LinkArithmetic V]

/-- `DECAY_PER_TIMESLOT`. -/
def decayPerTimeslot : V := 1 / ((18 : Nat) : V)

/-- `ls_value`. -/
def LinkStateEntry.lsValue (entry : LinkStateEntry) : V :=
  if entry.lag = 0 then 0
  else
    (entry.kbRecv.toNat : V) /
      ((entry.lag.toNat : V) * LinkArithmetic.twoPow entry.drops.toNat)

/-- The slots the loop of `link_state_update1` visits: from below the starting point
down to zero, then from the last one down to above the starting point. -/
def visitedSlots (sp : Nat) : List Nat :=
  (List.range sp).reverse ++ (List.range' (sp + 1) (linkStateSlots - 1 - sp)).reverse

/-- One iteration of that loop, on the link and the timeslot of the next sample. -/
def recordSlot (ls : LinkStateData) (ts : UInt64) (state : Link V × UInt64) (i : Nat) :
    Link V × UInt64 :=
  let (link, time) := state
  match ls.dropSlots[i]?.join, ls.lagSlots[i]?.join, ls.kbRecvSlots[i]?.join with
  | some dropSlot, some lagSlot, some kbRecvSlot =>
    let newState : LinkStateEntry := { drops := dropSlot, lag := lagSlot, kbRecv := kbRecvSlot }
    let deltaV := newState.lsValue / (1 + ((ts - time).toNat : V) * decayPerTimeslot)
    ({ link with
        linkState := link.linkState.insert time newState
        mutState := { link.mutState with value := link.mutState.value + deltaV } }, time - 1)
  | _, _, _ => (link, time)

/-- The value of a link before new samples: it decays by the distance of the slots. -/
def decayLink (ts : UInt64) (state : LinkStateMut V) : LinkStateMut V :=
  let value := if state.mostRecentLsSlot > ts then
      state.value / (1 + ((state.mostRecentLsSlot - ts).toNat : V) * decayPerTimeslot)
    else state.value
  { state with value := value, mostRecentLsSlot := ts }

/-- The body of `link_state_update1` for the link a link state entity refers to. -/
def updateLink (ls : LinkStateData) (ts earliestOkTs : UInt64) (link : Link V) : Link V :=
  let aged := { link with
    linkState := HashMap.retain (fun oldLs _ => decide (¬oldLs < earliestOkTs)) link.linkState
    mutState := decayLink ts link.mutState }
  ((visitedSlots (ls.startingPoint.toNat % linkStateSlots)).foldl (recordSlot ls ts) (aged, ts)).1

/-- Where the links of a number are found: under which address and at which place.
Of several links with one number the one iterated last is found. -/
def linksByNum (order : LinkOrder) (links : InwardLinks) :
    AList (fun _ : UInt16 => Ip6 × Nat) :=
  (order.iterate links).foldl (fun found entry =>
    entry.2.zipIdx.foldl (fun found peer => found.insert peer.1.peerNum (entry.1, peer.2)) found) ∅

/-- `link_state_update1`. The links found are shared with those stored. The timeouts
are twenty minutes, in slots of ten seconds. -/
def linkStateUpdate1 (order : LinkOrder) (ann : Announcement) (links : InwardLinks) :
    InwardLinks :=
  let ts := timeslot ann.header.timestamp
  let earliestOkTs := ts - 20 * 60 / 10
  let inwardLinksByNum := linksByNum order links
  (linkStatesFromAnnouncement ann).foldl (fun links ls =>
    match inwardLinksByNum.lookup ls.nodeId with
    | some (ip, place) =>
      HashMap.modify ip (fun stored => stored.modify place (updateLink ls ts earliestOkTs)) links
    | none => links) links

/-! ## Values are numbers -/

/-- The value of a sample with a lag is the quotient of a finite number by one that is not
zero, and that is a product of numbers that are not zero. -/
theorem lsValue_defined (entry : LinkStateEntry) (lagging : entry.lag ≠ 0) :
    F64.MulDefined entry.lag.toNat (LinkArithmetic.twoPow entry.drops.toNat) ∧
      F64.DivDefined entry.kbRecv.toNat
        ((entry.lag.toNat : F64) * LinkArithmetic.twoPow entry.drops.toNat) := by
  have positive : 0 < entry.lag.toNat :=
    Nat.pos_of_ne_zero fun zero => lagging (UInt16.toNat_inj.mp zero)
  have lag : (1 : F64) ≤ entry.lag.toNat := F64.one_le_natCast positive
  have power : (1 : F64) ≤ LinkArithmetic.twoPow entry.drops.toNat :=
    F64.ofRat_mono (one_le_pow₀ one_le_two)
  have lagFinite : (entry.lag.toNat : F64) < F64.infinity :=
    F64.natCast_lt_infinity (entry.lag.toNat_lt.trans (by decide))
  have kbFinite : (entry.kbRecv.toNat : F64) < F64.infinity :=
    F64.natCast_lt_infinity (entry.kbRecv.toNat_lt.trans (by decide))
  refine ⟨⟨?_, ?_⟩, ?_, ?_⟩
  · exact fun both => F64.ne_zero_of_one_le lag both.1
  · exact fun both => lagFinite.ne both.1
  · exact fun both => F64.ne_zero_of_one_le (F64.one_le_mul lag power) both.2
  · exact fun both => kbFinite.ne both.1

/-- What a value is divided by for its age is neither zero nor infinite, and comes from a
product of finite numbers. -/
theorem age_defined (age : UInt64) :
    F64.MulDefined age.toNat decayPerTimeslot ∧
      ∀ value : F64, F64.DivDefined value (1 + (age.toNat : F64) * decayPerTimeslot) := by
  have finite : (age.toNat : F64) < F64.infinity := F64.natCast_lt_infinity age.toNat_lt
  have small : (decayPerTimeslot : F64) ≤ 1 := by decide +kernel
  have scaled : (age.toNat : F64) * decayPerTimeslot ≤ (2 ^ 64 : Nat) :=
    (F64.mul_le_of_le_one finite small).trans
      (F64.ofRat_mono (by exact_mod_cast age.toNat_lt.le))
  have large : (1 : F64) ≤ 1 + (age.toNat : F64) * decayPerTimeslot := F64.le_add _ _
  have bounded : 1 + (age.toNat : F64) * decayPerTimeslot < F64.infinity := by
    refine lt_of_le_of_lt ?_ (by decide +kernel : (1 : F64) + (2 ^ 64 : Nat) < F64.infinity)
    exact F64.add_le_add_left scaled 1
  refine ⟨⟨?_, ?_⟩, fun value => ⟨?_, ?_⟩⟩
  · exact fun both => (small.trans_lt F64.one_lt_infinity).ne both.2
  · exact fun both => finite.ne both.1
  · exact fun both => F64.ne_zero_of_one_le large both.2
  · exact fun both => bounded.ne both.2

end RouteServer.Snode
