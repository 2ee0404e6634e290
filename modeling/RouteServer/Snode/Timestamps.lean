import RouteServer.Snode.Run

/-!
# The times of a node

A node has the time of its latest announcement. An older announcement is refused,
wherever it comes from, and an announcement that is applied goes to the front of the
list or replaces it. So the list stays ordered by time, and the time of a node never
decreases while the node is known.
-/

namespace RouteServer.Snode

open Rust Keys Ann Encoding

/-- A node of an address. It has announcements, the latest first and with the time of
the node, none much older than it, all about its address, and a reset message. -/
structure WellTimed (ip : Ip6) (node : Node) : Prop where
  address : node.ipv6 = ip
  nonempty : node.mutState.announcements ≠ []
  ordered : node.mutState.announcements.Pairwise (fun newer older => annTime older ≤ annTime newer)
  latest : ∀ head ∈ node.mutState.announcements.head?, annTime head = node.mutState.timestamp
  recent : ∀ head ∈ node.mutState.announcements.head?, ∀ ann ∈ node.mutState.announcements,
    annTime head - agreedTimeout ≤ annTime ann
  own : ∀ ann ∈ node.mutState.announcements, ann.nodeIp = ip
  reset : ∃ ann, node.mutState.resetMsg = some ann ∧ ann.header.isReset = true

/-- No announcement of a node is later than the node. -/
theorem WellTimed.annTime_le {ip : Ip6} {node : Node} (timed : WellTimed ip node)
    {ann : Announcement} (member : ann ∈ node.mutState.announcements) :
    annTime ann ≤ node.mutState.timestamp := by
  cases list : node.mutState.announcements with
  | nil => exact absurd list timed.nonempty
  | cons head rest =>
    have latest := timed.latest head (by rw [list]; rfl)
    rw [list] at member
    rcases List.mem_cons.mp member with rfl | later
    · exact latest.le
    · have ordered := timed.ordered
      rw [list] at ordered
      exact ((List.pairwise_cons.mp ordered).1 ann later).trans latest.le

/-- A list with the latest announcement of a node at its front, before earlier ones.

Proof: field by field, for the announcement at the front and for those behind it. -/
theorem WellTimed.of_cons {ip : Ip6} {node : Node} {ann : Announcement}
    {kept : List Announcement} (address : node.ipv6 = ip)
    (announcements : node.mutState.announcements = ann :: kept)
    (timestamp : node.mutState.timestamp = annTime ann) (about : ann.nodeIp = ip)
    (ordered : kept.Pairwise (fun newer older => annTime older ≤ annTime newer))
    (earlier : ∀ a ∈ kept, annTime a ≤ annTime ann)
    (recent : ∀ a ∈ kept, annTime ann - agreedTimeout ≤ annTime a)
    (own : ∀ a ∈ kept, a.nodeIp = ip)
    (reset : ∃ a, node.mutState.resetMsg = some a ∧ a.header.isReset = true) :
    WellTimed ip node where
  address := address
  nonempty := by simp [announcements]
  ordered := by
    rw [announcements]
    exact List.pairwise_cons.mpr ⟨earlier, ordered⟩
  latest := by
    intro head first
    rw [announcements] at first
    cases first
    exact timestamp.symm
  recent := by
    intro head first a member
    rw [announcements] at first member
    cases first
    rcases List.mem_cons.mp member with rfl | later
    · exact Int.not_lt.mp (annTime_recent a)
    · exact recent a later
  own := by
    intro a member
    rw [announcements] at member
    rcases List.mem_cons.mp member with rfl | later
    · exact about
    · exact own a later
  reset := reset

/-- An announcement that is not older than its node leaves the node well timed. -/
theorem wellTimed_of_applied {server : Server} {ann : Announcement} {node : Node}
    (timed : EveryNode WellTimed server) (fresh : ¬Older server ann)
    (target : appliedTo server ann = some node) : WellTimed ann.nodeIp node := by
  rcases appliedTo_cases target with ⟨isReset, ip, -, state⟩ | ⟨-, old, found, rfl⟩
  · have none {holds : Announcement → Prop} : ∀ a ∈ [], holds a :=
      fun a member => absurd member List.not_mem_nil
    exact .of_cons ip (by rw [state]) (by rw [state]) rfl List.Pairwise.nil none none none
      ⟨ann, by rw [state], isReset⟩
  · have before := timed ann.nodeIp old found
    have notOlder : old.mutState.timestamp ≤ annTime ann :=
      Int.not_lt.mp fun older => fresh ⟨old, found, older⟩
    obtain ⟨kept, pruned, sublist, recent⟩ :=
      pruneAnnouncements_eq_cons ann old.mutState.announcements
    refine .of_cons before.address ?_ rfl rfl (before.ordered.sublist sublist) ?_ recent ?_
      before.reset
    · exact (addAnnouncement_announcements ann old.mutState).trans pruned
    · exact fun a member => (before.annTime_le (sublist.subset member)).trans notOlder
    · exact fun a member => before.own a (sublist.subset member)

/-- Every step leaves all nodes well timed. -/
theorem wellTimed_step {crypto : Crypto} {before after : Server} {event : Event}
    (timed : EveryNode WellTimed before) (possible : step crypto before event = some after) :
    EveryNode WellTimed after := by
  have ofCore : ∀ ip node, WellTimed ip node.core ↔ WellTimed ip node := fun ip node =>
    ⟨fun ⟨a, b, c, d, e, f, g⟩ => ⟨a, b, c, d, e, f, g⟩,
      fun ⟨a, b, c, d, e, f, g⟩ => ⟨a, b, c, d, e, f, g⟩⟩
  cases step_effect possible with
  | applied announce source call ann node applies becomes =>
    have timedNode := wellTimed_of_applied timed applies.passes.2 applies.target
    rw [timed.becomes_iff ofCore becomes]
    obtain ⟨address, nonempty, ordered, latest, recent, own, reset⟩ := timedNode
    exact ⟨address, nonempty, ordered, latest, recent, own, reset⟩
  | cleaned now cleaned =>
    subst cleaned
    exact timed.cleaned now
  | idle _ nodes anns refused => exact timed.of_same_cores ofCore nodes

/-- The node of an address is not set back in time from one state to another. -/
def NotSetBack (ip : Ip6) (before after : Server) : Prop :=
  ∀ node later, before.nodes.lookup ip = some node → after.nodes.lookup ip = some later →
    node.mutState.timestamp ≤ later.mutState.timestamp

/-- No step sets a node back in time.

Proof: an accepted announcement is newer than its node; other nodes keep their time, and so do
all nodes in the other steps. -/
theorem notSetBack_step {crypto : Crypto} {before after : Server} {event : Event} (ip : Ip6)
    (possible : step crypto before event = some after) : NotSetBack ip before after := by
  intro node later found foundLater
  have ofCores {same : Node} (stored : (after.nodes.lookup ip).map Node.core = some same.core) :
      later.mutState.timestamp = same.mutState.timestamp := by
    rw [foundLater] at stored
    have cores : later.core = same.core := Option.some.inj stored
    have times := congrArg (fun core : Node => core.mutState.timestamp) cores
    exact times
  cases step_effect possible with
  | applied announce source call ann applied applies becomes =>
    by_cases own : ip = ann.nodeIp
    · subst own
      have time : later.mutState.timestamp = annTime ann := by
        have stored := ofCores becomes.changed
        rcases appliedTo_cases applies.target with ⟨-, -, -, state⟩ | ⟨-, old, -, rfl⟩
        · rw [stored, updateLinks, state]
        · rw [stored]
          rfl
      rw [time]
      exact Int.not_lt.mp fun older => applies.passes.2 ⟨node, found, older⟩
    · cases found.symm.trans ((becomes.others ip own).symm.trans foundLater)
      exact le_rfl
  | cleaned now cleaned =>
    subst cleaned
    have kept := ((HashMap.lookup_retain _ before.nodes ip later).mp foundLater).1
    cases found.symm.trans kept
    exact le_rfl
  | idle _ nodes anns refused =>
    exact (ofCores ((nodes ip).trans (by rw [found, Option.map_some]))).ge

/-- A node is in the table throughout a run. -/
def Stays (crypto : Crypto) (ip : Ip6) (server : Server) (events : List Event) : Prop :=
  (routeServer crypto).Throughout (fun state => (state.nodes.lookup ip).isSome) server events

/-- **In every state that a run reaches all nodes are well timed, and from there on the
time of a node does not decrease as long as the node stays in the table.**

Proof: each step keeps nodes well timed, and does not set the time of a node that stays back; both
go through the run by induction. -/
theorem nodes_well_timed (crypto : Crypto) (events : List Event) (server : Server)
    (reached : (routeServer crypto).Reached events server) :
    EveryNode WellTimed server ∧
      ∀ ip later last, Stays crypto ip server later →
        (routeServer crypto).run server later = some last → NotSetBack ip server last := by
  constructor
  · refine Machine.System.reached_induction (EveryNode WellTimed) ?_ ?_ reached
    · exact fun ip node found => absurd found (by simp [routeServer, Server.new])
    · exact fun state event next taken timed => wellTimed_step timed taken.possible
  · intro ip later last stays ran
    refine stays.related ?_ ?_ (fun state event next => notSetBack_step ip) ran
    · intro state _ node same found foundSame
      cases found.symm.trans foundSame
      exact le_rfl
    · intro first second third known earlier after node foundLast found foundThird
      obtain ⟨middle, foundMiddle⟩ := Option.isSome_iff_exists.mp known
      exact (earlier node middle found foundMiddle).trans
        (after middle foundLast foundMiddle foundThird)

/-- A reset and a new peer leave well timed nodes, not set back by what follows. -/
theorem new_peer_well_timed :
    ∃ server, (routeServer Sample.crypto).Reached
        [.announce Sample.resetWithPeer .gossip ⟨0, .ofEntries⟩,
          .announce Sample.newPeer .gossip ⟨0, .ofEntries⟩] server ∧
      EveryNode WellTimed server ∧
      ∀ ip later last, Stays Sample.crypto ip server later →
        (routeServer Sample.crypto).run server later = some last → NotSetBack ip server last := by
  obtain ⟨server, reached, -⟩ := (routeServer Sample.crypto).exists_reached_of_any
    [.announce Sample.resetWithPeer .gossip ⟨0, .ofEntries⟩,
      .announce Sample.newPeer .gossip ⟨0, .ofEntries⟩] (fun _ => true) rfl
  exact ⟨server, reached, nodes_well_timed Sample.crypto _ server reached⟩

end RouteServer.Snode
