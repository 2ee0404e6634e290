import RouteServer.Snode.Handling
import RouteServer.Snode.LinkUpdates

/-!
# Timeslots under overflow checks

The update of link states subtracts three times: twenty minutes from the slot of the
announcement, one slot for each sample, and the slot of a sample from that of the
announcement. Here it is run with checked subtraction. Gossip is accepted with any
timestamp, so the first subtraction underflows for announcements that claim to be from
the first twenty minutes of the epoch, and for no others. The walk over the samples goes
back seventeen slots at most.
-/

namespace RouteServer.Snode

open Rust Keys Ann Words

/-- One iteration of the loop over the slots, with checked subtraction. -/
def recordSlotChecked (ls : LinkStateData) (ts : UInt64) (state : Link × UInt64) (i : Nat) :
    Outcome Unit (Link × UInt64) :=
  let (link, time) := state
  match ls.dropSlots[i]?.join, ls.lagSlots[i]?.join, ls.kbRecvSlots[i]?.join with
  | some dropSlot, some lagSlot, some kbRecvSlot => do
    let newState : LinkStateEntry := { drops := dropSlot, lag := lagSlot, kbRecv := kbRecvSlot }
    let age ← Outcome.checkedSub ts.toNat time.toNat
    let deltaV := newState.lsValue / (1 + (age : F64) * decayPerTimeslot)
    let previous ← Outcome.checkedSub time.toNat 1
    return ({ link with
        linkState := link.linkState.insert time newState
        mutState := { link.mutState with value := link.mutState.value + deltaV } },
      UInt64.ofNat previous)
  | _, _, _ => .ok (link, time)

/-- The decay of a link, with checked subtraction. -/
def decayLinkChecked (ts : UInt64) (state : LinkStateMut) : Outcome Unit LinkStateMut :=
  if state.mostRecentLsSlot > ts then do
    let decaySlots ← Outcome.checkedSub state.mostRecentLsSlot.toNat ts.toNat
    return { state with
      value := state.value / (1 + (decaySlots : F64) * decayPerTimeslot)
      mostRecentLsSlot := ts }
  else .ok { state with mostRecentLsSlot := ts }

/-- The body of `link_state_update1` for one link, with checked subtraction. -/
def updateLinkChecked (ls : LinkStateData) (ts earliest : UInt64) (link : Link) :
    Outcome Unit Link := do
  let mutState ← decayLinkChecked ts link.mutState
  let aged := { link with
    linkState := HashMap.retain (fun oldLs _ => decide (¬oldLs < earliest)) link.linkState
    mutState := mutState }
  let (link, _) ← (visitedSlots (ls.startingPoint.toNat % linkStateSlots)).foldlM
    (recordSlotChecked ls ts) (aged, ts)
  return link

/-- The body of the loop over the link states, with checked subtraction. -/
def recordLinkStateChecked (found : AList (fun _ : UInt16 => Ip6 × Nat)) (ts earliest : UInt64)
    (current : InwardLinks) (ls : LinkStateData) : Outcome Unit InwardLinks :=
  match found.lookup ls.nodeId with
  | some (ip, place) =>
    match linkAt current ip place with
    | some link => do
      let updated ← updateLinkChecked ls ts earliest link
      return HashMap.modify ip (fun stored => stored.modify place fun _ => updated) current
    | none => .ok current
  | none => .ok current

/-- `link_state_update1`, with checked subtraction. -/
def linkStateUpdate1Checked (order : LinkOrder) (ann : Announcement) (links : InwardLinks) :
    Outcome Unit InwardLinks := do
  let ts := timeslot ann.header.timestamp
  let earliest ← Outcome.checkedSub ts.toNat (20 * 60 / 10)
  (linkStatesFromAnnouncement ann).foldlM
    (recordLinkStateChecked (linksByNum order links) ts (UInt64.ofNat earliest)) links

/-- No slot of a link that is within twenty minutes of the announcement is discarded. -/
def NoneDiscarded (order : LinkOrder) (ann : Announcement) (links : InwardLinks) : Prop :=
  ∀ ip place link updated, linkAt links ip place = some link →
    linkAt (linkStateUpdate1 order ann links) ip place = some updated →
    ∀ slot : UInt64, (link.linkState.lookup slot).isSome →
      (timeslot ann.header.timestamp).toNat ≤ slot.toNat + 20 * 60 / 10 →
      (updated.linkState.lookup slot).isSome

/-- An iteration keeps the slot of the next sample and goes back by one at most.

Proof: the subtractions stay above zero, as the slot is not past the latest one and is itself at
least one. -/
theorem recordSlotChecked_eq (ls : LinkStateData) {ts : UInt64} {state : Link × UInt64}
    (past : state.2 ≤ ts) (room : 1 ≤ state.2.toNat) (i : Nat) :
    recordSlotChecked ls ts state i = .ok (recordSlot ls ts state i) ∧
      (recordSlot ls ts state i).2 ≤ ts ∧
      state.2.toNat ≤ (recordSlot ls ts state i).2.toNat + 1 := by
  obtain ⟨link, time⟩ := state
  dsimp only at past room
  have pastNat : time.toNat ≤ ts.toNat := UInt64.le_iff_toNat_le.mp past
  have one : (1 : UInt64) ≤ time := UInt64.le_iff_toNat_le.mpr room
  have previous : UInt64.ofNat (time.toNat - 1) = time - 1 := by
    have bound : time.toNat < 2 ^ 64 := time.toNat_lt
    rw [← UInt64.toNat_inj, UInt64.toNat_sub_of_le _ _ one]
    exact UInt64.toNat_ofNat_of_lt' (show time.toNat - 1 < 2 ^ 64 by omega)
  have age : (ts - time).toNat = ts.toNat - time.toNat := UInt64.toNat_sub_of_le _ _ past
  rw [recordSlotChecked, recordSlot]
  dsimp only
  cases ls.dropSlots[i]?.join with
  | none => exact ⟨rfl, past, Nat.le_succ _⟩
  | some dropSlot =>
    cases ls.lagSlots[i]?.join with
    | none => exact ⟨rfl, past, Nat.le_succ _⟩
    | some lagSlot =>
      cases ls.kbRecvSlots[i]?.join with
      | none => exact ⟨rfl, past, Nat.le_succ _⟩
      | some kbRecvSlot =>
        have less : (time - 1).toNat = time.toNat - 1 := UInt64.toNat_sub_of_le _ _ one
        refine ⟨?_, ?_, ?_⟩
        · simp only [Outcome.checkedSub_of_le pastNat, Outcome.checkedSub_of_le room,
            Outcome.ok_bind, Outcome.pure_def, previous, age]
        · apply UInt64.le_iff_toNat_le.mpr
          dsimp only
          omega
        · dsimp only
          omega

/-- The walk does not underflow as long as it is shorter than the slot it begins at. -/
theorem foldlM_recordSlotChecked (ls : LinkStateData) (ts : UInt64) (slots : List Nat)
    (state : Link × UInt64) (past : state.2 ≤ ts) (room : slots.length ≤ state.2.toNat) :
    slots.foldlM (recordSlotChecked ls ts) state =
      (.ok (slots.foldl (recordSlot ls ts) state) : Outcome Unit _) := by
  induction slots generalizing state with
  | nil => rfl
  | cons i rest inductionHypothesis =>
    rw [List.length_cons] at room
    obtain ⟨same, stillPast, back⟩ :=
      recordSlotChecked_eq ls past (by omega : 1 ≤ state.2.toNat) i
    rw [List.foldlM_cons, same, Outcome.ok_bind, List.foldl_cons]
    exact inductionHypothesis _ stillPast (by omega)

/-- A link is decayed without an underflow. -/
theorem decayLinkChecked_eq (ts : UInt64) (state : LinkStateMut) :
    decayLinkChecked ts state = .ok (decayLink ts state) := by
  rw [decayLinkChecked, decayLink]
  split
  · next ahead =>
    have below : ts ≤ state.mostRecentLsSlot := UInt64.le_of_lt ahead
    rw [Outcome.checkedSub_of_le (UInt64.le_iff_toNat_le.mp below), Outcome.ok_bind,
      UInt64.toNat_sub_of_le _ _ below]
    rfl
  · rfl

/-- From the twentieth minute on a link is updated without underflow. -/
theorem updateLinkChecked_eq (ls : LinkStateData) {ts : UInt64} (late : 120 ≤ ts.toNat)
    (earliest : UInt64) (link : Link) :
    updateLinkChecked ls ts earliest link = .ok (updateLink ls ts earliest link) := by
  have inside : ls.startingPoint.toNat % linkStateSlots < linkStateSlots :=
    Nat.mod_lt _ (by decide)
  have steps : (visitedSlots (ls.startingPoint.toNat % linkStateSlots)).length = 17 := by
    rw [visitedSlots_eq inside]
    simp [linkStateSlots]
  rw [updateLinkChecked, decayLinkChecked_eq]
  dsimp only [Outcome.ok_bind]
  rw [foldlM_recordSlotChecked _ _ _ _ (UInt64.le_refl ts) (show _ ≤ ts.toNat by omega)]
  rfl

/-- Writing the changed value back is changing the value in place. -/
theorem modify_const {α : Type} {list : List α} {place : Nat} {value : α}
    (there : list[place]? = some value) (change : α → α) :
    list.modify place (fun _ => change value) = list.modify place change := by
  apply List.ext_getElem?
  intro other
  rw [List.getElem?_modify, List.getElem?_modify]
  split
  · next same =>
    rw [← same, there]
    rfl
  · rfl

/-- From the twentieth minute on a link state is recorded without underflow. -/
theorem recordLinkStateChecked_eq {order : LinkOrder} {ann : Announcement} {links : InwardLinks}
    (late : 120 ≤ (timeslot ann.header.timestamp).toNat) (states : List LinkStateData)
    (ls : LinkStateData) :
    recordLinkStateChecked (linksByNum order links) (timeslot ann.header.timestamp)
        (earliestOkTs (timeslot ann.header.timestamp)) (afterLinkStates order ann links states) ls =
      .ok (recordLinkState order ann links (afterLinkStates order ann links states) ls) := by
  rw [recordLinkStateChecked, recordLinkState]
  cases known : (linksByNum order links).lookup ls.nodeId with
  | none => rfl
  | some found =>
    obtain ⟨ip, place⟩ := found
    obtain ⟨link, here, -⟩ := recorded_in_known ann states known
    obtain ⟨stored, listed, there⟩ := Option.bind_eq_some_iff.mp here
    dsimp only
    rw [here]
    dsimp only
    rw [updateLinkChecked_eq ls late, Outcome.ok_bind, HashMap.modify, HashMap.modify, listed]
    dsimp only [Outcome.pure_def]
    rw [modify_const there]

/-- The earliest slot without wrap-around. -/
theorem earliestOkTs_toNat {ts : UInt64} (late : 120 ≤ ts.toNat) :
    (earliestOkTs ts).toNat = ts.toNat - 120 :=
  UInt64.toNat_sub_of_le ts 120 (UInt64.le_iff_toNat_le.mpr late)

/-- From the twentieth minute on the link states after some are recorded without
underflow. -/
theorem foldlM_recordLinkStateChecked {order : LinkOrder} {ann : Announcement}
    {links : InwardLinks} (late : 120 ≤ (timeslot ann.header.timestamp).toNat)
    (earlier later : List LinkStateData) :
    later.foldlM (recordLinkStateChecked (linksByNum order links)
        (timeslot ann.header.timestamp) (earliestOkTs (timeslot ann.header.timestamp)))
        (afterLinkStates order ann links earlier) =
      (.ok (afterLinkStates order ann links (earlier ++ later)) : Outcome Unit _) := by
  induction later generalizing earlier with
  | nil => rw [List.append_nil, List.foldlM_nil, Outcome.pure_def]
  | cons ls rest inductionHypothesis =>
    have next : recordLinkState order ann links (afterLinkStates order ann links earlier) ls =
        afterLinkStates order ann links (earlier ++ [ls]) := by
      rw [afterLinkStates, afterLinkStates, List.foldl_append]
      rfl
    rw [List.foldlM_cons, recordLinkStateChecked_eq late, Outcome.ok_bind, next,
      inductionHypothesis, List.append_assoc, List.singleton_append]

/-- The update underflows before the twentieth minute, and never after it. -/
theorem linkStateUpdate1Checked_ok_iff (order : LinkOrder) (ann : Announcement)
    (links : InwardLinks) :
    linkStateUpdate1Checked order ann links = .ok (linkStateUpdate1 order ann links) ↔
      120 ≤ (timeslot ann.header.timestamp).toNat := by
  constructor
  · intro returned
    obtain ⟨earliest, first, -⟩ := (Outcome.bind_ok_iff _ _ _).mp returned
    exact ((Outcome.checkedSub_ok_iff _ _ _).mp first).1
  · intro late
    have earliest : UInt64.ofNat ((timeslot ann.header.timestamp).toNat - 20 * 60 / 10) =
        earliestOkTs (timeslot ann.header.timestamp) := by
      rw [← earliestOkTs_toNat late, UInt64.ofNat_toNat]
    have first : (Outcome.checkedSub (timeslot ann.header.timestamp).toNat (20 * 60 / 10) :
        Outcome Unit Nat) = .ok ((timeslot ann.header.timestamp).toNat - 20 * 60 / 10) :=
      Outcome.checkedSub_of_le late
    rw [linkStateUpdate1Checked]
    simp only [first, Outcome.ok_bind, earliest]
    exact foldlM_recordLinkStateChecked late [] _

/-- A recent slot of a link survives its update. -/
theorem isSome_lookup_updateLink {ts : UInt64} (late : 120 ≤ ts.toNat) (ls : LinkStateData)
    (link : Link) {slot : UInt64} (recent : ts.toNat ≤ slot.toNat + 120)
    (there : (link.linkState.lookup slot).isSome) :
    ((updateLink ls ts (earliestOkTs ts) link).linkState.lookup slot).isSome := by
  have age : ts - UInt64.ofNat (ts - slot).toNat = slot := by
    rw [UInt64.ofNat_toNat]
    grind
  have lookup := (updateLink_spec ls ts (earliestOkTs ts) link).2 (ts - slot).toNat
    (ts - slot).toNat_lt
  rw [age] at lookup
  rw [lookup]
  split
  · next recorded => rw [List.getElem?_eq_getElem recorded, Option.isSome_some]
  · have kept : ¬slot < earliestOkTs ts := by
      rw [UInt64.lt_iff_toNat_lt, earliestOkTs_toNat late]
      omega
    rw [keptSlot, if_neg kept]
    exact there

/-- A recent slot of a link survives the link states of an announcement. -/
theorem isSome_lookup_afterLinkStates {order : LinkOrder} {ann : Announcement}
    {links : InwardLinks} (late : 120 ≤ (timeslot ann.header.timestamp).toNat) {ip : Ip6}
    {place : Nat} {link : Link} (found : linkAt links ip place = some link) {slot : UInt64}
    (recent : (timeslot ann.header.timestamp).toNat ≤ slot.toNat + 120)
    (there : (link.linkState.lookup slot).isSome) (states : List LinkStateData) :
    ∀ updated, linkAt (afterLinkStates order ann links states) ip place = some updated →
      (updated.linkState.lookup slot).isSome := by
  induction states using List.reverseRecOn with
  | nil =>
    intro updated same
    cases found.symm.trans same
    exact there
  | append_singleton earlier ls inductionHypothesis =>
    intro updated last
    rw [afterLinkStates, List.foldl_append, List.foldl_cons, List.foldl_nil,
      linkAt_recordLinkState, ← afterLinkStates] at last
    split at last
    · obtain ⟨before, foundBefore, rfl⟩ := Option.map_eq_some_iff.mp last
      exact isSome_lookup_updateLink late ls before recent (inductionHypothesis before foundBefore)
    · exact inductionHypothesis updated last

/-- From the 120th time slot on no sample is older than time itself. -/
theorem noneDiscarded_of_late (order : LinkOrder) {ann : Announcement} (links : InwardLinks)
    (late : 120 ≤ (timeslot ann.header.timestamp).toNat) : NoneDiscarded order ann links := by
  intro ip place link updated found last slot there recent
  rw [linkStateUpdate1_eq] at last
  exact isSome_lookup_afterLinkStates late found recent there _ updated last

/-- The twentieth minute in milliseconds. -/
theorem late_iff (timestamp : UInt64) :
    120 ≤ (timeslot timestamp).toNat ↔ 1200000 ≤ timestamp.toNat := by
  have value : (timeslot timestamp).toNat = timestamp.toNat / 1000 / 10 := by
    rw [timeslot, UInt64.toNat_div, UInt64.toNat_div]
    rfl
  rw [value]
  omega

/-- For an announcement accepted from gossip the update of link states runs without
underflow and keeps the slots of the last twenty minutes, if and only if the announcement
is not from the first twenty minutes of the epoch. In either case the node is left with
the links of the update.

Proof: the checked update returns exactly where the time slot of the announcement is at least that
of twenty minutes, and then it computes what the plain one does. -/
theorem gossip_never_underflows_iff {crypto : Crypto} {call : Call} {announce : List UInt8}
    {server : Server} {ann : Announcement} {node : Node}
    (applies : Applies crypto call announce .gossip server ann node) :
    ((handleAnnounceImpl crypto call announce .gossip server).1.nodes.lookup ann.nodeIp).map
        Node.core = some (updateLinks call.order ann node).core ∧
      ((linkStateUpdate1Checked call.order ann (applyPeers ann node.inwardLinksByIp) =
            .ok (updateLinks call.order ann node).inwardLinksByIp ∧
          NoneDiscarded call.order ann (applyPeers ann node.inwardLinksByIp)) ↔
        1200000 ≤ ann.header.timestamp.toNat) := by
  refine ⟨(handle_becomes applies).changed, ?_⟩
  rw [updateLinks, linkStateUpdate1Checked_ok_iff, ← late_iff]
  exact ⟨And.left, fun late => ⟨late, noneDiscarded_of_late _ _ late⟩⟩

/-- A new server applies every reset that states its scheme and its version. -/
theorem new_server_applies {crypto : Crypto} {announce : List UInt8} {ann : Announcement}
    (call : Call) (read : readAnnouncement crypto announce = .ok ann)
    (full : ann.header.isReset = true ∧ (encodingSchemeFromAnnouncement ann).isSome ∧
      (versionFromAnnouncement ann).isSome) :
    ∃ node, Applies crypto call announce .gossip Server.new ann node := by
  obtain ⟨isReset, scheme, version⟩ := full
  refine (accepts_iff call .gossip Server.new read).mp ⟨⟨?_, ?_⟩, ?_⟩
  · intro self isSelf
    cases isSelf
  · rintro ⟨node, found, -⟩
    cases found
  · simp only [Applicable, isReset, if_true]
    exact ⟨version, Or.inl scheme⟩

/-- The update for a reset of the year 2020 that comes by gossip. -/
theorem recent_reset_iff :
    ∃ ann node,
      readAnnouncement Sample.crypto Sample.resetWithPeer = .ok ann ∧
      ((handleAnnounceImpl Sample.crypto ⟨0, .ofEntries⟩ Sample.resetWithPeer .gossip
          Server.new).1.nodes.lookup ann.nodeIp).map Node.core =
        some (updateLinks .ofEntries ann node).core ∧
      ((linkStateUpdate1Checked .ofEntries ann (applyPeers ann node.inwardLinksByIp) =
            .ok (updateLinks .ofEntries ann node).inwardLinksByIp ∧
          NoneDiscarded .ofEntries ann (applyPeers ann node.inwardLinksByIp)) ↔
        1200000 ≤ ann.header.timestamp.toNat) := by
  obtain ⟨ann, read, full⟩ := Outcome.exists_ok_of_any
    (readAnnouncement Sample.crypto Sample.resetWithPeer)
    (fun ann => decide (ann.header.isReset = true ∧
      (encodingSchemeFromAnnouncement ann).isSome ∧ (versionFromAnnouncement ann).isSome))
    (by decide +kernel)
  obtain ⟨node, applies⟩ := new_server_applies ⟨0, .ofEntries⟩ read (of_decide_eq_true full)
  exact ⟨ann, node, read, gossip_never_underflows_iff applies⟩

/-! ## A packet of the epoch -/

/-- The key of another node. -/
def earlySigningKey : List UInt8 :=
  Sample.bytesOf 32 0x48e6397b3f357fd2979872c87663aa35e1cb2d49f1339cf35d98fb5a2ffb76c7

/-- The same key as an encryption key. -/
def earlyEncryptionKey : PublicKey :=
  ⟨Sample.bytesOf 32 0x9f73bd3c7aa14be783c56e9fbacd53c4d090759097d9ce0935f5347bac77cf3c,
    Sample.length_bytesOf 32 _⟩

/-- The hash of the encryption key. -/
def earlyKeyHash : Digest :=
  Sample.halves
    0x934c8294c766c89fd33329456050fec85c291faf30befe0ec315a19cd0d5f6f0
    0x1956666f03023ca1d9d7dcd4cccf026bc6f94f47fe9b9c879470b33193c75976

/-- A signed reset of that node with the timestamp zero. -/
def earlyReset : List UInt8 :=
  (Sample.halves
      0x53f113abb0e6ac5cd34e8e79701921dcf884ba44eec1864ac48bb684f0627ae4
      0x8ac8175c87fe7c1678e91fc0dfe888913a303b6927a7ef8fd0d968e06160790f).bytes ++
    earlySigningKey ++ Sample.bytesOf 16 0xfc00000000000000000000000000dead ++
    Sample.bytesOf 8 0x9 ++ (Sample.bytesOf 11 0x0700611445810004020014 ++
      Sample.bytesOf 32 0x2001000000bb000100000000fc00000000000000000000000000000100000013)

/-- The cryptographic library, as far as that packet needs it. -/
def earlyCrypto : Crypto where
  sha512 := fun bytes =>
    if bytes = earlyEncryptionKey.bytes then earlyKeyHash
    else if bytes = earlyKeyHash.bytes then Sample.halves
      0xfcc3cf5c144eb08956d67f3b1875c877de4bbec28f7cd47200b3a60ec1fa8337
      0xeebc6468ee3a1c8d5e358774eee62c51e2bee838b5777583b8afc7fe229b4bb8
    else Sample.halves
      0xbb1affb7bdc2ddba8c4121a63746e8d4aa1905b6c114d02277899278f6229b60
      0x2e8c3b24e1dde07937a451ebf4c3a043c48cf86aa153d99ade7b14f7e909b0f4
  isSignature := fun signature => (signature.bytes.getLast?.getD 0).toNat < 32
  verifyDetached := fun signature signed key =>
    key.bytes = earlySigningKey ∧ signature.bytes ++ signed = earlyReset
  pkToCurve25519 := fun key =>
    if key.bytes = earlySigningKey then some earlyEncryptionKey else none

/-- The packet is accepted from gossip, and the update of link states underflows. -/
theorem early_reset_underflows :
    ∃ ann node, Applies earlyCrypto ⟨0, .ofEntries⟩ earlyReset .gossip Server.new ann node ∧
      linkStateUpdate1Checked .ofEntries ann (applyPeers ann node.inwardLinksByIp) =
        .panicked := by
  obtain ⟨ann, read, full⟩ := Outcome.exists_ok_of_any (readAnnouncement earlyCrypto earlyReset)
    (fun ann => decide ((ann.header.isReset = true ∧
      (encodingSchemeFromAnnouncement ann).isSome ∧ (versionFromAnnouncement ann).isSome) ∧
      timeslot ann.header.timestamp = 0))
    (by decide +kernel)
  obtain ⟨stated, epoch⟩ := of_decide_eq_true full
  obtain ⟨node, applies⟩ := new_server_applies ⟨0, .ofEntries⟩ read stated
  refine ⟨ann, node, applies, ?_⟩
  have underflow : (Outcome.checkedSub (UInt64.toNat 0) (20 * 60 / 10) : Outcome Unit Nat) =
      .panicked := rfl
  rw [linkStateUpdate1Checked]
  simp only [epoch, underflow, Outcome.panicked_bind]

end RouteServer.Snode
