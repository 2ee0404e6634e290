import RouteServer.Snode.Copies
import RouteServer.Snode.Run

/-!
# Announcements held and announcements offered

What is offered to peers should be what the nodes of the table hold. The two are kept
apart: applying an announcement, pruning, resets and timeouts change both in turn. All
of this agrees as long as what pruning drops is no longer held, which fails for copies
of one announcement only. Announcements are told apart by their hashes, so this
assumes that no two packets delivered have one hash.
-/

namespace RouteServer.Snode

open Rust Keys Ann Encoding

/-- An announcement is held by a node of the table. -/
def Held (server : Server) (ann : Announcement) : Prop :=
  ∃ ip node, server.nodes.lookup ip = some node ∧ node.holds ann

/-- The hashes offered are those of the announcements held, each offered once. -/
structure Coherent (server : Server) : Prop where
  listed : ∀ hash, hash ∈ server.anns.annByHash ↔ ∃ ann, Held server ann ∧ ann.hash = hash
  consistent : server.anns.Consistent

/-- No two packets have one hash. -/
def CollisionFree (crypto : Crypto) (packets : List (List UInt8)) : Prop :=
  ∀ first ∈ packets, ∀ second ∈ packets, crypto.sha512 first = crypto.sha512 second →
    first = second

/-- An announcement was read from one of the packets. -/
def Delivered (crypto : Crypto) (packets : List (List UInt8)) (ann : Announcement) : Prop :=
  ∃ packet ∈ packets, readAnnouncement crypto packet = .ok ann

/-- What a node holds was delivered and is about its address. -/
def Traceable (crypto : Crypto) (packets : List (List UInt8)) (ip : Ip6) (node : Node) : Prop :=
  ∀ ann, node.holds ann → ann.nodeIp = ip ∧ Delivered crypto packets ann

/-- An event leaves no copies behind: where an announcement is added to a node, no
announcement the node holds more than once survives it. -/
def LeavesNoCopies (crypto : Crypto) (server : Server) : Event → Prop
  | .announce announce source call => ∀ ann, readAnnouncement crypto announce = .ok ann →
      Accepts call source server ann → ¬ann.header.isReset = true →
      ∀ node, server.nodes.lookup ann.nodeIp = some node →
        CopiesSpent ann node.mutState.announcements node.mutState.resetMsg
  | _ => True

/-- Announcements delivered are the same when their hashes are. -/
theorem CollisionFree.eq_of_hash {crypto : Crypto} {packets : List (List UInt8)}
    (collisionFree : CollisionFree crypto packets) {first second : Announcement}
    (firstDelivered : Delivered crypto packets first)
    (secondDelivered : Delivered crypto packets second) (same : first.hash = second.hash) :
    first = second := by
  obtain ⟨packet, member, read⟩ := firstDelivered
  obtain ⟨other, memberOther, readOther⟩ := secondDelivered
  rw [(readAnnouncement_binary read).2, (readAnnouncement_binary readOther).2] at same
  cases collisionFree packet member other memberOther same
  exact Outcome.ok.inj (read.symm.trans readOther)

/-- A node holds its announcements and its reset message. -/
theorem holds_iff_mem (node : Node) (ann : Announcement) :
    node.holds ann ↔ ann ∈ node.mutState.announcements ++ node.mutState.resetMsg.toList := by
  rw [Node.holds, List.mem_append, Option.mem_toList]

/-- An announcement is held by the node of an address. -/
def HeldAt (server : Server) (ip : Ip6) (ann : Announcement) : Prop :=
  ∃ node, server.nodes.lookup ip = some node ∧ node.holds ann

/-- An announcement is held by another node than that of an address. -/
def HeldElsewhere (server : Server) (ip : Ip6) (ann : Announcement) : Prop :=
  ∃ other node, other ≠ ip ∧ server.nodes.lookup other = some node ∧ node.holds ann

/-- An announcement is held by the node of an address or by another. -/
theorem held_iff (server : Server) (ip : Ip6) (ann : Announcement) :
    Held server ann ↔ HeldAt server ip ann ∨ HeldElsewhere server ip ann := by
  constructor
  · rintro ⟨other, node, found, holds⟩
    by_cases same : other = ip
    · subst same
      exact Or.inl ⟨node, found, holds⟩
    · exact Or.inr ⟨other, node, same, found, holds⟩
  · rintro (⟨node, found, holds⟩ | ⟨other, node, -, found, holds⟩)
    · exact ⟨ip, node, found, holds⟩
    · exact ⟨other, node, found, holds⟩

/-- After a change of one node the others hold what they held. -/
theorem Becomes.held_iff {before after : Server} {ip : Ip6} {node : Node} {anns : AnnList}
    (becomes : Becomes before after ip node anns) (ann : Announcement) :
    Held after ann ↔ node.holds ann ∨ HeldElsewhere before ip ann := by
  rw [Snode.held_iff after ip]
  have elsewhere : HeldElsewhere after ip ann ↔ HeldElsewhere before ip ann := by
    constructor
    · rintro ⟨other, stored, different, found, holds⟩
      exact ⟨other, stored, different, (becomes.others other different).symm.trans found, holds⟩
    · rintro ⟨other, stored, different, found, holds⟩
      exact ⟨other, stored, different, (becomes.others other different).trans found, holds⟩
  obtain ⟨stored, lookup, same⟩ := Option.map_eq_some_iff.mp becomes.changed
  have holds_iff : stored.holds ann ↔ node.holds ann := by
    have cores : stored.core.holds ann ↔ node.core.holds ann := by rw [same]
    exact cores
  simp only [elsewhere, HeldAt, lookup, Option.some.injEq, exists_eq_left', holds_iff]

/-- Coherence in terms of the order in which hashes are offered. -/
theorem coherent_iff {server : Server} (consistent : server.anns.Consistent) :
    Coherent server ↔
      ∀ hash, hash ∈ server.anns.annHashesOrdered ↔ ∃ ann, Held server ann ∧ ann.hash = hash := by
  simp only [consistent.keys]
  exact ⟨fun coherent => coherent.listed, fun listed => ⟨listed, consistent⟩⟩

/-- The announcements that are not offered any more once an announcement has been
applied: all of a node that is reset, otherwise those that pruning drops but for the
reset message. -/
def goneAnns (server : Server) (ann : Announcement) : List Announcement :=
  match server.nodes.lookup ann.nodeIp with
  | some node =>
    if ann.header.isReset then node.mutState.announcements ++ node.mutState.resetMsg.toList
    else (pruneAnnouncements ann node.mutState.announcements).2.filter
      (fun a => some a ≠ node.mutState.resetMsg)
  | none => []

/-- The hashes of a node are those of its announcements and of the last reset. -/
theorem NodeMut.hashes_eq (state : NodeMut) :
    state.hashes = (state.announcements ++ state.resetMsg.toList).map Announcement.hash := by
  rw [NodeMut.hashes, List.map_append]
  cases state.resetMsg <;> rfl

/-- What remains is the list without the announcements that are gone. -/
theorem remainingAnns_eq (server : Server) (ann : Announcement) :
    remainingAnns server ann =
      server.anns.delAnns ((goneAnns server ann).map Announcement.hash) := by
  rw [remainingAnns, goneAnns]
  cases server.nodes.lookup ann.nodeIp with
  | none => rfl
  | some node =>
    dsimp only
    split
    · rw [forgetNode, NodeMut.hashes_eq]
    · rfl

section Run

variable {crypto : Crypto} {packets : List (List UInt8)} {before after : Server}
  {ann : Announcement} {node : Node} {source : Source} {call : Call} {announce : List UInt8}

/-- What is held elsewhere has another hash than what is held, or newly delivered, for
an address. -/
theorem hash_ne_of_elsewhere (collisionFree : CollisionFree crypto packets)
    (traceable : EveryNode (Traceable crypto packets) before) {ip : Ip6}
    {first second : Announcement} (elsewhere : HeldElsewhere before ip first)
    (delivered : Delivered crypto packets second) (about : second.nodeIp = ip) :
    first.hash ≠ second.hash := by
  intro same
  obtain ⟨other, stored, different, found, holds⟩ := elsewhere
  obtain ⟨aboutFirst, deliveredFirst⟩ := traceable other stored found first holds
  cases collisionFree.eq_of_hash deliveredFirst delivered same
  exact different (aboutFirst.symm.trans about)

/-- What goes was held for the address of the announcement. What was held there goes or
stays held, and nothing is held in addition but the announcement. -/
structure Exchanges (before : Server) (ann : Announcement) (node : Node) : Prop where
  wereHeld : ∀ a ∈ goneAnns before ann, HeldAt before ann.nodeIp a
  stayOrGo : ∀ a, HeldAt before ann.nodeIp a → a ∈ goneAnns before ann ∨ node.holds a
  onlyNew : ∀ a, node.holds a → a = ann ∨ HeldAt before ann.nodeIp a

/-- Applying an announcement keeps the hashes offered in step exactly when nothing that
goes stays held, the announcement itself apart.

Proof: what is listed afterwards is what was listed, less what went, and the announcement
itself. Forwards something that went and is still held would have to be listed; backwards what
is held was held before, and hashes do not collide. -/
theorem Becomes.coherent_iff (collisionFree : CollisionFree crypto packets)
    (traceable : EveryNode (Traceable crypto packets) before) (coherent : Coherent before)
    (delivered : Delivered crypto packets ann) (exchanges : Exchanges before ann node)
    (holds : node.holds ann)
    (becomes : Becomes before after ann.nodeIp node
      ((before.anns.delAnns ((goneAnns before ann).map Announcement.hash)).addAnn ann.hash
        ann.binary)) :
    Coherent after ↔ ∀ a ∈ goneAnns before ann, node.holds a → a = ann := by
  have listed := (Snode.coherent_iff coherent.consistent).mp coherent
  have traceableAt : ∀ a, HeldAt before ann.nodeIp a →
      a.nodeIp = ann.nodeIp ∧ Delivered crypto packets a :=
    fun a ⟨stored, found, holdsStored⟩ => traceable ann.nodeIp stored found a holdsStored
  have consistent : after.anns.Consistent := by
    rw [becomes.anns]
    exact (coherent.consistent.delAnns _).addAnn _ _
  rw [Snode.coherent_iff consistent, becomes.anns]
  simp only [AnnList.mem_addAnn, AnnList.mem_delAnns, listed, Snode.held_iff before ann.nodeIp,
    becomes.held_iff, List.mem_map, not_exists, not_and]
  constructor
  · intro agree a wentAway stillHeld
    rcases (agree a.hash).mpr ⟨a, Or.inl stillHeld, rfl⟩ with same | ⟨-, notGone⟩
    · exact collisionFree.eq_of_hash (traceableAt a (exchanges.wereHeld a wentAway)).2 delivered
        same
    · exact absurd rfl (notGone a wentAway)
  · intro apart hash
    constructor
    · rintro (rfl | ⟨⟨a, heldAt | elsewhere, rfl⟩, notGone⟩)
      · exact ⟨ann, Or.inl holds, rfl⟩
      · exact ⟨a, Or.inl ((exchanges.stayOrGo a heldAt).resolve_left fun wentAway =>
          notGone a wentAway rfl), rfl⟩
      · exact ⟨a, Or.inr elsewhere, rfl⟩
    · rintro ⟨a, stillHeld | elsewhere, rfl⟩
      · rcases exchanges.onlyNew a stillHeld with rfl | heldAt
        · exact Or.inl rfl
        · by_cases newest : a = ann
          · exact Or.inl (newest ▸ rfl)
          refine Or.inr ⟨⟨a, Or.inl heldAt, rfl⟩, fun g wentAway same => newest ?_⟩
          have equal := collisionFree.eq_of_hash
            (traceableAt g (exchanges.wereHeld g wentAway)).2 (traceableAt a heldAt).2 same
          subst equal
          exact apart g wentAway stillHeld
      · refine Or.inr ⟨⟨a, Or.inr elsewhere, rfl⟩, fun g wentAway same => ?_⟩
        obtain ⟨about, deliveredGone⟩ := traceableAt g (exchanges.wereHeld g wentAway)
        exact hash_ne_of_elsewhere collisionFree traceable elsewhere deliveredGone about same.symm

/-- A reset makes all that its node holds go. -/
theorem exchanges_of_reset (isReset : ann.header.isReset = true)
    (state : node.mutState = ⟨annTime ann, [ann], none, some ann⟩) :
    Exchanges before ann node ∧ ∀ a, node.holds a → a = ann := by
  have holds_newest : ∀ a, node.holds a → a = ann := by
    intro a holds
    rw [holds_iff_mem, state] at holds
    simpa using holds
  have gone_iff : ∀ a, a ∈ goneAnns before ann ↔ HeldAt before ann.nodeIp a := by
    intro a
    rw [goneAnns, HeldAt]
    cases before.nodes.lookup ann.nodeIp with
    | none => simp
    | some old => simp only [isReset, if_true, Option.some.injEq, exists_eq_left', holds_iff_mem]
  exact ⟨⟨fun a => (gone_iff a).mp, fun a heldAt => Or.inl ((gone_iff a).mpr heldAt),
    fun a holds => Or.inl (holds_newest a holds)⟩, holds_newest⟩

/-- An announcement added to a node makes those go that pruning drops.

Proof: pruning divides the announcements into kept and dropped ones, and the dropped ones are
those that go, unless one is the last reset. -/
theorem exchanges_of_known {old : Node} (notReset : ¬ann.header.isReset = true)
    (found : before.nodes.lookup ann.nodeIp = some old)
    (state : node.mutState = addAnnouncement ann old.mutState) :
    Exchanges before ann node ∧
      ((∀ a ∈ goneAnns before ann, node.holds a → a = ann) ↔
        CopiesSpent ann old.mutState.announcements old.mutState.resetMsg) := by
  have holds_iff : ∀ a, node.holds a ↔
      a ∈ (pruneAnnouncements ann old.mutState.announcements).1 ∨
        old.mutState.resetMsg = some a := by
    intro a
    rw [Node.holds, state, addAnnouncement_announcements, addAnnouncement_resetMsg]
  have gone_iff : ∀ a, a ∈ goneAnns before ann ↔
      a ∈ (pruneAnnouncements ann old.mutState.announcements).2 ∧
        some a ≠ old.mutState.resetMsg := by
    intro a
    simp only [goneAnns, found, notReset, Bool.false_eq_true, if_false, List.mem_filter,
      decide_eq_true_eq]
  have heldAt_iff : ∀ a, HeldAt before ann.nodeIp a ↔ old.holds a := by
    intro a
    simp only [HeldAt, found, Option.some.injEq, exists_eq_left']
  have distributed : ∀ a, a ∈ (pruneAnnouncements ann old.mutState.announcements).1 ∨
      a ∈ (pruneAnnouncements ann old.mutState.announcements).2 ↔
        a = ann ∨ a ∈ old.mutState.announcements := by
    intro a
    rw [← List.mem_append, (pruneAnnouncements_perm ann _).mem_iff, List.mem_cons]
  refine ⟨⟨?_, ?_, ?_⟩, ?_⟩
  · intro a wentAway
    obtain ⟨dropped, -⟩ := (gone_iff a).mp wentAway
    rcases (distributed a).mp (Or.inr dropped) with rfl | member
    · exact absurd dropped (not_dropped_newest _ _)
    · exact (heldAt_iff a).mpr (Or.inl member)
  · intro a heldAt
    rw [gone_iff, holds_iff]
    rcases (heldAt_iff a).mp heldAt with member | isReset
    · by_cases lasting : old.mutState.resetMsg = some a
      · exact Or.inr (Or.inr lasting)
      rcases (distributed a).mpr (Or.inr member) with kept | dropped
      · exact Or.inr (Or.inl kept)
      · exact Or.inl ⟨dropped, Ne.symm lasting⟩
    · exact Or.inr (Or.inr isReset)
  · intro a holds
    rcases (holds_iff a).mp holds with kept | isReset
    · exact ((distributed a).mp (Or.inl kept)).imp_right fun member =>
        (heldAt_iff a).mpr (Or.inl member)
    · exact Or.inr ((heldAt_iff a).mpr (Or.inr isReset))
  · rw [← dropped_not_kept_iff]
    simp only [gone_iff, holds_iff, and_imp]
    constructor
    · intro apart a dropped lost kept
      cases apart a dropped lost (Or.inl kept)
      exact not_dropped_newest _ _ dropped
    · rintro apart a dropped lost (kept | isReset)
      · exact absurd kept (apart a dropped lost)
      · exact absurd isReset.symm lost

/-- What is forgotten for its age is not offered any more. -/
theorem mem_forgotten_iff (expired : Node → Prop) [DecidablePred expired]
    (entries : List (Sigma fun _ : Ip6 => Node)) (anns : AnnList) (hash : AnnHash) :
    hash ∈ (entries.foldl (fun anns entry =>
        if expired entry.2 then forgetNode entry.2 anns else anns) anns).annHashesOrdered ↔
      hash ∈ anns.annHashesOrdered ∧
        ∀ entry ∈ entries, expired entry.2 → hash ∉ entry.2.mutState.hashes := by
  induction entries generalizing anns with
  | nil => simp
  | cons entry rest inductionHypothesis =>
    rw [List.foldl_cons, inductionHypothesis]
    simp only [List.mem_cons, forall_eq_or_imp]
    split
    · next old => simp only [forgetNode, AnnList.mem_delAnns, old, true_implies, and_assoc]
    · next young => simp only [young, false_implies, true_and]

/-- The loop of a cleaning keeps the list consistent, by induction on the nodes. -/
theorem AnnList.Consistent.forgotten (expired : Node → Prop) [DecidablePred expired]
    (entries : List (Sigma fun _ : Ip6 => Node)) {anns : AnnList} (consistent : anns.Consistent) :
    (entries.foldl (fun anns entry =>
      if expired entry.2 then forgetNode entry.2 anns else anns) anns).Consistent := by
  induction entries generalizing anns with
  | nil => exact consistent
  | cons entry rest inductionHypothesis =>
    rw [List.foldl_cons]
    apply inductionHypothesis
    split
    · exact consistent.delAnns _
    · exact consistent

/-- Timeouts keep the hashes offered in step.

Proof: what a stale node holds is taken off the list. A hash that another node holds too would
be that of an announcement about the same node, since hashes do not collide. -/
theorem Coherent.cleaned (collisionFree : CollisionFree crypto packets)
    (traceable : EveryNode (Traceable crypto packets) before) (coherent : Coherent before)
    (now : SystemTime) : Coherent (keepTableClean now before) := by
  have listed := (coherent_iff coherent.consistent).mp coherent
  have consistent : (keepTableClean now before).anns.Consistent :=
    coherent.consistent.forgotten (fun node => node.mutState.timestamp < now - globalTimeout) _
  have held : ∀ a, Held (keepTableClean now before) a ↔ ∃ ip node,
      before.nodes.lookup ip = some node ∧ ¬node.mutState.timestamp < now - globalTimeout ∧
        node.holds a := by
    intro a
    simp only [Held, keepTableClean, HashMap.lookup_retain, decide_eq_true_eq, and_assoc]
  rw [coherent_iff consistent]
  intro hash
  have offered := mem_forgotten_iff (fun node => node.mutState.timestamp < now - globalTimeout)
    before.nodes.entries before.anns hash
  apply offered.trans
  rw [listed]
  simp only [held, NodeMut.hashes_eq, List.mem_map, not_exists, not_and, ← holds_iff_mem]
  constructor
  · rintro ⟨⟨a, ⟨ip, node, found, holds⟩, rfl⟩, young⟩
    refine ⟨a, ⟨ip, node, found, fun old => ?_, holds⟩, rfl⟩
    exact young ⟨ip, node⟩ ((HashMap.mem_entries_iff before.nodes ip node).mpr found) old a holds
      rfl
  · rintro ⟨a, ⟨ip, node, found, young, holds⟩, rfl⟩
    refine ⟨⟨a, ⟨ip, node, found, holds⟩, rfl⟩, ?_⟩
    rintro ⟨other, stored⟩ member old b holdsOther same
    have foundOther := (HashMap.mem_entries_iff before.nodes other stored).mp member
    obtain ⟨about, delivered⟩ := traceable ip node found a holds
    obtain ⟨aboutOther, deliveredOther⟩ := traceable other stored foundOther b holdsOther
    cases collisionFree.eq_of_hash deliveredOther delivered same
    cases aboutOther.symm.trans about
    cases foundOther.symm.trans found
    exact young old

/-- What a step makes a node hold was held before or is delivered by it. -/
theorem EveryNode.traceable_step {event : Event}
    (traceable : EveryNode (Traceable crypto packets) before)
    (member : ∀ announce ∈ delivered [event], announce ∈ packets)
    (possible : step crypto before event = some after) :
    EveryNode (Traceable crypto packets) after := by
  have ofCore : ∀ ip node, Traceable crypto packets ip (Node.core node) ↔
      Traceable crypto packets ip node := fun _ _ => Iff.rfl
  cases step_effect possible with
  | applied announce source call ann node applies becomes =>
    rw [traceable.becomes_iff ofCore becomes]
    have newest : Delivered crypto packets ann :=
      ⟨announce, member announce List.mem_cons_self, applies.read⟩
    intro a holds
    have origin : a = ann ∨ HeldAt before ann.nodeIp a := by
      rcases appliedTo_cases applies.target with
        ⟨isReset, -, -, state⟩ | ⟨notReset, old, found, rfl⟩
      · exact (exchanges_of_reset isReset state).1.onlyNew a holds
      · exact (exchanges_of_known notReset found rfl).1.onlyNew a holds
    rcases origin with rfl | ⟨old, found, holdsOld⟩
    · exact ⟨rfl, newest⟩
    · exact traceable ann.nodeIp old found a holdsOld
  | cleaned now cleaned =>
    subst cleaned
    exact traceable.cleaned now
  | idle _ nodes anns refused => exact traceable.of_same_cores ofCore nodes

/-- Held announcements are the same where nodes are the same but for state hashes. -/
theorem held_congr
    (nodes : ∀ ip, (after.nodes.lookup ip).map Node.core = (before.nodes.lookup ip).map Node.core)
    (ann : Announcement) : Held after ann ↔ Held before ann := by
  have through : ∀ server, Held server ann ↔
      ∃ ip core, (server.nodes.lookup ip).map Node.core = some core ∧ core.holds ann := by
    intro server
    constructor
    · rintro ⟨ip, node, found, holds⟩
      exact ⟨ip, node.core, by rw [found, Option.map_some], holds⟩
    · rintro ⟨ip, core, found, holds⟩
      obtain ⟨node, lookup, rfl⟩ := Option.map_eq_some_iff.mp found
      exact ⟨ip, node, lookup, holds⟩
  simp only [through, nodes]

/-- One step keeps the hashes offered in step exactly when it leaves no copies behind.

Proof: a step that applies an announcement exchanges what its node holds, for a reset or for a
known node; a step that does not leaves the table as it was, or cleans it. -/
theorem step_coherent_iff {event : Event} (collisionFree : CollisionFree crypto packets)
    (traceable : EveryNode (Traceable crypto packets) before) (coherent : Coherent before)
    (member : ∀ announce ∈ delivered [event], announce ∈ packets)
    (possible : step crypto before event = some after) :
    Coherent after ↔ LeavesNoCopies crypto before event := by
  cases step_effect possible with
  | applied announce source call ann node applies becomes =>
    rw [remainingAnns_eq] at becomes
    have newest : Delivered crypto packets ann :=
      ⟨announce, member announce List.mem_cons_self, applies.read⟩
    have accepts := (accepts_iff call source before applies.read).mpr ⟨node, applies⟩
    have holdsNewest : node.holds ann := appliedTo_holds applies.target
    have holds : (updateLinks call.order ann node).holds ann := holdsNewest
    rcases appliedTo_cases applies.target with ⟨isReset, -, -, state⟩ | ⟨notReset, old, found, rfl⟩
    · obtain ⟨exchanges, onlyNewest⟩ : Exchanges before ann (updateLinks call.order ann node) ∧
          ∀ a, (updateLinks call.order ann node).holds a → a = ann :=
        exchanges_of_reset isReset state
      rw [becomes.coherent_iff collisionFree traceable coherent newest exchanges holds]
      apply iff_of_true (fun a _ => onlyNewest a)
      intro other read _ notReset
      cases Outcome.ok.inj (applies.read.symm.trans read)
      exact absurd isReset notReset
    · have state : (updateLinks call.order ann { old with
          mutState := addAnnouncement ann old.mutState }).mutState =
            addAnnouncement ann old.mutState := rfl
      obtain ⟨exchanges, spent_iff⟩ := exchanges_of_known notReset found state
      rw [becomes.coherent_iff collisionFree traceable coherent newest exchanges holds, spent_iff]
      constructor
      · intro spent other read _ _ stored lookup
        cases Outcome.ok.inj (applies.read.symm.trans read)
        cases found.symm.trans lookup
        exact spent
      · intro leaves
        exact leaves ann applies.read accepts notReset old found
  | cleaned now cleaned =>
    subst cleaned
    exact iff_of_true (coherent.cleaned collisionFree traceable now) trivial
  | idle _ nodes anns refused =>
    refine iff_of_true ⟨?_, anns ▸ coherent.consistent⟩ ?_
    · simp only [anns, held_congr nodes]
      exact coherent.listed
    · cases event with
      | announce announce source call =>
        exact fun ann read accepts => absurd accepts (refused announce source call ann rfl read)
      | keepTableClean => trivial
      | connect => trivial

end Run

/-- What one event delivers is delivered in its run. -/
theorem delivered_of_mem {events : List Event} {event : Event} (member : event ∈ events) :
    ∀ announce ∈ delivered [event], announce ∈ delivered events := by
  intro announce single
  obtain ⟨other, isEvent, found⟩ := List.mem_filterMap.mp single
  cases List.mem_singleton.mp isEvent
  exact List.mem_filterMap.mpr ⟨event, member, found⟩

/-- **Throughout a run the hashes offered to peers are those of the announcements held,
each once, exactly when no accepted announcement leaves copies behind**: where it is
added to a node, no announcement that the node holds more than once survives it.

Proof: the run is reduced to its steps, since every node of every state holds only what was
delivered. One step changes one node, and what the others hold is apart from it by the hashes. -/
theorem announcements_coherent_iff (crypto : Crypto) (events : List Event)
    (collisionFree : CollisionFree crypto (delivered events)) :
    (∀ state, (routeServer crypto).Reached events state → Coherent state) ↔
      ∀ state event next, (routeServer crypto).Taken events state event next →
        LeavesNoCopies crypto state event :=
  Machine.System.always_iff (routeServer crypto) events
    (EveryNode (Traceable crypto (delivered events))) Coherent (LeavesNoCopies crypto)
    (fun _ _ found => absurd found (by simp [routeServer, Server.new]))
    ⟨fun hash => by simp [routeServer, Server.new, AnnList.new, Held], AnnList.new_consistent⟩
    (fun _ _ _ member traceable _ possible =>
      traceable.traceable_step (delivered_of_mem member) possible)
    (fun _ _ _ member traceable coherent possible =>
      step_coherent_iff collisionFree traceable coherent (delivered_of_mem member) possible)

/-- A reset, a new peer that comes twice, and a keep-alive. -/
def copiedPeer : List Event :=
  [.announce Sample.resetWithPeer .gossip ⟨0, .ofEntries⟩,
    .announce Sample.newPeer .gossip ⟨0, .ofEntries⟩,
    .announce Sample.newPeer .gossip ⟨0, .ofEntries⟩,
    .announce Sample.keepAlive .gossip ⟨0, .ofEntries⟩]

/-- The packets of this run have different hashes. -/
theorem copied_peer_coherent_iff :
    (∀ state, (routeServer Sample.crypto).Reached copiedPeer state → Coherent state) ↔
      ∀ state event next, (routeServer Sample.crypto).Taken copiedPeer state event next →
        LeavesNoCopies Sample.crypto state event :=
  announcements_coherent_iff Sample.crypto copiedPeer (by unfold CollisionFree; decide +kernel)

/-- The keep-alive drops one of the copies, and with it the hash of the other. -/
theorem copied_peer_not_offered :
    ∃ state, (routeServer Sample.crypto).Reached copiedPeer state ∧ ¬Coherent state := by
  obtain ⟨state, reached, lost⟩ := (routeServer Sample.crypto).exists_reached_of_any copiedPeer
    (fun state => (state.nodes.lookup Sample.nodeIp).any fun node =>
      node.mutState.announcements.any fun ann => ann.hash ∉ state.anns.annHashesOrdered)
    (by decide +kernel)
  refine ⟨state, reached, fun coherent => ?_⟩
  obtain ⟨node, found, someLost⟩ := (Option.any_eq_true _ _).mp lost
  obtain ⟨ann, member, missing⟩ := List.any_eq_true.mp someLost
  refine of_decide_eq_true missing ((coherent.consistent.keys ann.hash).mpr ?_)
  exact (coherent.listed ann.hash).mpr ⟨ann, ⟨Sample.nodeIp, node, found, Or.inl member⟩, rfl⟩

end RouteServer.Snode
