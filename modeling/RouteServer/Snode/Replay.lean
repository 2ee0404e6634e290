import RouteServer.Snode.Handling

/-!
# Replayed announcements

A packet reaches a route server by several ways, and a copy of a packet passes the
checks of age, since it is no older than itself. Every accepted announcement goes to
the front of the list of its node, and pruning keeps all copies of the newest one. So
a copy is absorbed only where it is refused.
-/

namespace RouteServer.Snode

open Rust Keys Ann Encoding

/-- The announcements held for an address. -/
def announcementsAt (server : Server) (ip : Ip6) : List Announcement :=
  ((server.nodes.lookup ip).map fun node => node.mutState.announcements).getD []

/-- If the result is an answer, it is the hash over the announcements that are held for
the address by then. -/
def AnswersFor (crypto : Crypto) (ip : Ip6) (result : Server × Handled) : Prop :=
  ∀ hash reason, result.2 = .replied hash reason →
    hash = announcementsHash crypto (announcementsAt result.1 ip)

/-- What does not depend on the times of a node is the same where its core is. -/
theorem lookup_core_map {α : Type} {before after : Server} {ip : Ip6}
    (same : (after.nodes.lookup ip).map Node.core = (before.nodes.lookup ip).map Node.core)
    (part : Node → α) (partOfCore : ∀ node, part node.core = part node) :
    (after.nodes.lookup ip).map part = (before.nodes.lookup ip).map part := by
  have through : part = part ∘ Node.core := funext fun node => (partOfCore node).symm
  rw [through, ← Option.map_map, same, Option.map_map]

/-- A server that is not changed has the same announcements of every node. -/
theorem Unchanged.announcementsAt {before after : Server} (unchanged : Unchanged before after)
    (ip : Ip6) : announcementsAt after ip = announcementsAt before ip :=
  congrArg (Option.getD · [])
    (lookup_core_map (unchanged.nodes ip) (fun node => node.mutState.announcements) fun _ => rfl)

/-- The announcements of a node are in its core. -/
theorem announcementsAt_of_core {server : Server} {ip : Ip6} {node : Node}
    (found : (server.nodes.lookup ip).map Node.core = some node.core) :
    announcementsAt server ip = node.mutState.announcements := by
  obtain ⟨stored, lookup, same⟩ := Option.map_eq_some_iff.mp found
  have state := congrArg (fun node => node.mutState.announcements) same
  simp only [announcementsAt, lookup, Option.map_some, Option.getD_some]
  exact state

/-- A reply answers for the node that it is about. -/
theorem reply_answers (crypto : Crypto) (ip : Ip6) (replyError : ReplyError) (server : Server) :
    AnswersFor crypto ip (reply crypto (some ip) replyError server) := by
  intro hash reason answer
  rw [(reply_unchanged crypto (some ip) replyError server).announcementsAt]
  unfold reply byIp at answer
  rw [announcementsAt]
  simp only [Option.bind_some] at answer
  cases found : server.nodes.lookup ip with
  | some node =>
    simp only [found, Option.map_some, Handled.replied.injEq] at answer
    exact answer.1.symm
  | none =>
    simp only [found, Option.map_none, Handled.replied.injEq] at answer
    exact answer.1.symm

/-- The answer about what is known of an address, which may be nothing. -/
theorem reply_known_answers (crypto : Crypto) (ip : Ip6) (replyError : ReplyError)
    (server : Server) :
    AnswersFor crypto ip
      (reply crypto ((byIp server.nodes ip).map Known.ip) replyError server) := by
  cases found : server.nodes.lookup ip with
  | some node =>
    simp only [byIp, found, Option.map_some]
    exact reply_answers crypto ip replyError server
  | none =>
    simp only [byIp, found, Option.map_none]
    intro hash reason answer
    cases answer
    rw [(reply_unchanged crypto none replyError server).announcementsAt]
    simp only [announcementsAt, found, Option.map_none, Option.getD_none]

/-- The answer to an accepted announcement or to one that is refused late.

Proof: the branches of the function, each of which finishes with the node or refuses the
announcement. -/
theorem accept_answers (crypto : Crypto) (call : Call) (scheme : Option EncodingScheme)
    (version : Option UInt16) (ann : Announcement) (replyError : ReplyError) (server : Server) :
    AnswersFor crypto ann.nodeIp (accept crypto call (byIp server.nodes ann.nodeIp) scheme version
      ann replyError server) := by
  have finishes : ∀ server, AnswersFor crypto ann.nodeIp
      (finish crypto call ann replyError server) := fun server =>
    reply_answers crypto ann.nodeIp replyError _
  have noAnswer : ∀ (server : Server) (outcome : Handled),
      (∀ hash reason, outcome ≠ .replied hash reason) →
      AnswersFor crypto ann.nodeIp (server, outcome) :=
    fun server outcome silent hash reason answer => absurd answer (silent hash reason)
  have refused : ∀ reason, AnswersFor crypto ann.nodeIp
      (reply crypto ((byIp server.nodes ann.nodeIp).map Known.ip) reason server) :=
    fun reason => reply_known_answers crypto ann.nodeIp reason server
  unfold accept
  split
  · exact refused replyError
  split
  · split
    · exact noAnswer _ _ (fun _ _ => Handled.noConfusion)
    · split
      · exact noAnswer _ _ (fun _ _ => Handled.noConfusion)
      · split
        · exact noAnswer _ _ (fun _ _ => Handled.noConfusion)
        · exact finishes _
  · split
    · exact finishes _
    · next missing =>
      have answered := refused .unknownNode
      rwa [missing] at answered

/-- Every answer to a packet that parses is the hash over the announcements held for
its node. -/
theorem handle_answers {crypto : Crypto} {announce : List UInt8} {ann : Announcement}
    (call : Call) (source : Source) (server : Server)
    (read : readAnnouncement crypto announce = .ok ann) :
    AnswersFor crypto ann.nodeIp (handleAnnounceImpl crypto call announce source server) := by
  rw [handle_of_read call source server read]
  by_cases passes : Passes call source server ann
  · rw [checked_of_passes passes]
    exact accept_answers crypto call _ _ ann .none (entered server ann)
  · rcases checked_of_not_passes passes with
      ⟨message, verdict⟩ | ⟨replyError, verdict⟩ | ⟨verdict, -⟩
    · rw [verdict]
      exact fun hash reason answer => absurd answer Handled.noConfusion
    · rw [verdict]
      exact reply_known_answers crypto ann.nodeIp replyError (entered server ann)
    · rw [verdict]
      exact accept_answers crypto call _ _ ann .none (entered server ann)

/-- An accepted announcement that is no reset is added to the known node. -/
theorem Accepts.applies {crypto : Crypto} {call : Call} {announce : List UInt8} {source : Source}
    {server : Server} {ann : Announcement} (accepts : Accepts call source server ann)
    (read : readAnnouncement crypto announce = .ok ann) (notReset : ¬ann.header.isReset = true) :
    ∃ node, server.nodes.lookup ann.nodeIp = some node ∧
      Applies crypto call announce source server ann
        { node with mutState := addAnnouncement ann node.mutState } := by
  obtain ⟨node, found⟩ := Option.isSome_iff_exists.mp ((applicable_iff_known notReset).mp accepts.2)
  refine ⟨node, found, read, accepts.1, ?_⟩
  simp only [appliedTo, notReset, Bool.false_eq_true, if_false, found, Option.map_some]

/-- What is not accepted is not applied. -/
theorem not_applies_of_not_accepts {crypto : Crypto} {call : Call} {announce : List UInt8}
    {source : Source} {server : Server} {ann : Announcement}
    (refused : ¬Accepts call source server ann)
    (read : readAnnouncement crypto announce = .ok ann) :
    ∀ other node, ¬Applies crypto call announce source server other node := by
  intro other node applies
  cases Outcome.ok.inj (read.symm.trans applies.read)
  exact refused ((accepts_iff call source server read).mpr ⟨node, applies⟩)

/-- An accepted announcement is held once more than before. -/
theorem count_of_accepts {crypto : Crypto} {call : Call} {announce : List UInt8} {source : Source}
    {server : Server} {ann : Announcement} (accepts : Accepts call source server ann)
    (read : readAnnouncement crypto announce = .ok ann) (notReset : ¬ann.header.isReset = true) :
    (announcementsAt (handleAnnounceImpl crypto call announce source server).1 ann.nodeIp).count
        ann = (announcementsAt server ann.nodeIp).count ann + 1 := by
  obtain ⟨node, found, applies⟩ := accepts.applies read notReset
  have after := announcementsAt_of_core (handle_becomes applies).changed
  have updated : (updateLinks call.order ann { node with
      mutState := addAnnouncement ann node.mutState }).mutState =
        addAnnouncement ann node.mutState := rfl
  rw [after, updated, addAnnouncement_announcements, count_pruneAnnouncements]
  simp only [announcementsAt, found, Option.map_some, Option.getD_some]

/-- What is admitted depends on the own node only. -/
theorem admits_of_selfNode {call : Call} {source : Source} {before after : Server}
    (same : after.selfNode = before.selfNode) (ann : Announcement) :
    Admits call source after ann ↔ Admits call source before ann := by
  unfold Admits
  rw [same]

/-- Whether an announcement is accepted does not depend on its having been handled.

Proof: by whether it is accepted. If it is, its node then has its time, so it is not older than
that; if it is not, the table is unchanged. -/
theorem accepts_handled_iff {crypto : Crypto} {announce : List UInt8} {ann : Announcement}
    (first second : Call) (source other : Source) (server : Server)
    (read : readAnnouncement crypto announce = .ok ann) (notReset : ¬ann.header.isReset = true) :
    Accepts second other (handleAnnounceImpl crypto first announce source server).1 ann ↔
      Accepts second other server ann := by
  by_cases accepts : Accepts first source server ann
  · obtain ⟨node, found, applies⟩ := accepts.applies read notReset
    have becomes := handle_becomes applies
    obtain ⟨stored, lookup, same⟩ := Option.map_eq_some_iff.mp becomes.changed
    have time : stored.mutState.timestamp = annTime ann :=
      congrArg (fun node => node.mutState.timestamp) same
    have fresh : ¬Older (handleAnnounceImpl crypto first announce source server).1 ann := by
      rintro ⟨found', lookup', older⟩
      rw [lookup] at lookup'
      cases lookup'
      rw [time] at older
      exact lt_irrefl _ older
    simp only [Accepts, Passes, applicable_iff_known notReset,
      admits_of_selfNode becomes.selfNode, fresh, accepts.1.2, lookup, found, Option.isSome_some]
  · have unchanged := handle_unchanged (not_applies_of_not_accepts accepts read)
    have times := lookup_core_map (unchanged.nodes ann.nodeIp)
      (fun node => node.mutState.timestamp) fun _ => rfl
    have older_iff : ∀ server, Older server ann ↔ ∃ time, annTime ann < time ∧
        (server.nodes.lookup ann.nodeIp).map (fun node => node.mutState.timestamp) = some time := by
      intro server
      simp only [Older, Option.map_eq_some_iff]
      constructor
      · rintro ⟨node, found, older⟩
        exact ⟨_, older, node, found, rfl⟩
      · rintro ⟨_, older, node, found, rfl⟩
        exact ⟨node, found, older⟩
    have known := congrArg Option.isSome (unchanged.nodes ann.nodeIp)
    rw [Option.isSome_map, Option.isSome_map] at known
    simp only [Accepts, Passes, applicable_iff_known notReset,
      admits_of_selfNode unchanged.selfNode, older_iff, times, known]

/-- **A second delivery leaves the announcements of a node as the first one left them
exactly when it is refused.** It is refused by the checks of its source, or because the
node is unknown or has a newer announcement.

Proof: a call that is accepted makes the list of its node longer by one, so it cannot leave the
list as it is. A call that is refused changes nothing, and whatever it answers names the hashes
that are there. -/
theorem replay_absorbed_iff {crypto : Crypto} {announce : List UInt8} {ann : Announcement}
    (first second : Call) (source other : Source) (server : Server)
    (read : readAnnouncement crypto announce = .ok ann) (notReset : ¬ann.header.isReset = true) :
    let once := (handleAnnounceImpl crypto first announce source server).1
    let twice := handleAnnounceImpl crypto second announce other once
    (announcementsAt twice.1 ann.nodeIp = announcementsAt once ann.nodeIp ∧
      ∀ hash reason, twice.2 = .replied hash reason →
        hash = announcementsHash crypto (announcementsAt once ann.nodeIp)) ↔
      ¬Accepts second other server ann := by
  intro once twice
  rw [← accepts_handled_iff first second source other server read notReset]
  constructor
  · rintro ⟨same, -⟩ accepts
    have grown := count_of_accepts accepts read notReset
    rw [same] at grown
    exact Nat.succ_ne_self _ grown.symm
  · intro refused
    have unchanged := handle_unchanged (not_applies_of_not_accepts refused read)
    have same := unchanged.announcementsAt ann.nodeIp
    refine ⟨same, fun hash reason answer => ?_⟩
    rw [← same]
    exact handle_answers second other once read hash reason answer

/-- The state after a reset has come by gossip. -/
def afterReset : Server :=
  (handleAnnounceImpl Sample.crypto ⟨0, .ofEntries⟩ Sample.resetWithPeer .gossip Server.new).1

/-- The state after a new peer has come in the same way. -/
def afterNewPeer : Server :=
  (handleAnnounceImpl Sample.crypto ⟨0, .ofEntries⟩ Sample.newPeer .gossip afterReset).1

/-- A copy that comes directly, before the server knows its own node, is absorbed. -/
theorem direct_copy_absorbed :
    announcementsAt (handleAnnounceImpl Sample.crypto ⟨0, .ofEntries⟩ Sample.newPeer .direct
      afterNewPeer).1 Sample.nodeIp = announcementsAt afterNewPeer Sample.nodeIp := by
  obtain ⟨ann, read, known⟩ := Outcome.exists_ok_of_any
    (readAnnouncement Sample.crypto Sample.newPeer)
    (fun ann => !ann.header.isReset && decide (ann.nodeIp = Sample.nodeIp)) (by decide +kernel)
  simp only [Bool.and_eq_true, Bool.not_eq_true', decide_eq_true_eq] at known
  obtain ⟨noReset, about⟩ := known
  have notReset : ¬ann.header.isReset = true := by simp [noReset]
  have noSelf : afterReset.selfNode.isSome = false := by decide +kernel
  have refused : ¬Accepts ⟨0, .ofEntries⟩ .direct afterReset ann := by
    rintro ⟨⟨⟨self, isSelf, -⟩, -⟩, -⟩
    rw [isSelf] at noSelf
    cases noSelf
  have absorbed := (replay_absorbed_iff ⟨0, .ofEntries⟩ ⟨0, .ofEntries⟩ .gossip .direct afterReset
    read notReset).mpr refused
  rw [about] at absorbed
  exact absorbed.1

/-- A second delivery of a new peer by gossip is added once more, and changes the state
hash in the answer. -/
theorem copy_is_added :
    let again :=
      handleAnnounceImpl Sample.crypto ⟨0, .ofEntries⟩ Sample.newPeer .gossip afterNewPeer
    announcementsAt again.1 Sample.nodeIp ≠ announcementsAt afterNewPeer Sample.nodeIp ∧
      again.2 ≠ .replied Sample.newPeerState .none := by
  constructor
  · intro same
    have lengths := congrArg List.length same
    revert lengths
    decide +kernel
  · decide +kernel

end RouteServer.Snode
