import RouteServer.Snode.Server

/-!
# Checks on announcements

An announcement passes if it is not older than the latest one of its node and, by
where it comes from, if it is meant for this server and of its time, or is not about
this server. The stages of the source come to exactly this.
-/

namespace RouteServer.Snode

open Rust Keys Ann Encoding

/-- An announcement older than the latest one of its node. -/
def Older (server : Server) (ann : Announcement) : Prop :=
  ∃ node, server.nodes.lookup ann.nodeIp = some node ∧ annTime ann < node.mutState.timestamp

/-- The checks that depend on the source. A direct packet is meant for this server and
its clock is close; gossip is not about this server. -/
def Admits (call : Call) (source : Source) (server : Server) (ann : Announcement) : Prop :=
  match source with
  | .direct => ∃ self, server.selfNode = some self ∧ ann.header.snodeIp = self.ipv6 ∧
      timeDiff call.now (annTime ann) ≤ maxClockskew
  | .gossip => ∀ self, server.selfNode = some self → ann.nodeIp ≠ self.ipv6

/-- All checks before an announcement is applied. -/
def Passes (call : Call) (source : Source) (server : Server) (ann : Announcement) : Prop :=
  Admits call source server ann ∧ ¬Older server ann

/-- The state after the address of a packet has been noted. -/
def entered (server : Server) (ann : Announcement) : Server :=
  { server with currentNode := some ann.nodeIp }

/-- A node is found under its own address. -/
theorem byIp_eq_some_iff (nodes : Nodes) (ip : Ip6) (known : Known) :
    byIp nodes ip = some known ↔ nodes.lookup ip = some known.node ∧ known.ip = ip := by
  simp only [byIp, Option.map_eq_some_iff]
  constructor
  · rintro ⟨node, found, rfl⟩
    exact ⟨found, rfl⟩
  · rintro ⟨found, rfl⟩
    exact ⟨known.node, found, rfl⟩

/-- The checks on an announcement that has been read. -/
abbrev checked (call : Call) (source : Source) (server : Server) (ann : Announcement) :
    Except String Intake :=
  check call source (entered server ann) (byIp server.nodes ann.nodeIp) ⟨some ann, .none⟩

/-- Only direct packets are rejected for their age. -/
theorem checkAge_of_young {source : Source} {server : Server} {ann : Announcement}
    (young : ¬(source = .direct ∧ Older server ann)) :
    checkAge source (byIp server.nodes ann.nodeIp) ⟨some ann, .none⟩ = ⟨some ann, .none⟩ := by
  rw [byIp]
  cases found : server.nodes.lookup ann.nodeIp with
  | none => rfl
  | some node => exact if_neg fun old => young ⟨old.1, node, found, old.2⟩

/-- An announcement that is older than what is known is refused as such. -/
theorem checkAge_of_old {server : Server} {ann : Announcement} (old : Older server ann) :
    checkAge .direct (byIp server.nodes ann.nodeIp) ⟨some ann, .none⟩ = ⟨none, .oldMessage⟩ := by
  obtain ⟨node, found, older⟩ := old
  rw [byIp]
  rw [found]
  exact if_pos ⟨rfl, older⟩

/-- An announcement that passes is not rejected. -/
theorem checked_of_passes {call : Call} {source : Source} {server : Server} {ann : Announcement}
    (passes : Passes call source server ann) :
    checked call source server ann = .ok ⟨some ann, .none⟩ := by
  obtain ⟨admits, fresh⟩ := passes
  rw [checked, check]
  rw [checkAge_of_young fun old => fresh old.2]
  cases source with
  | direct =>
    obtain ⟨self, isSelf, meant, close⟩ := admits
    simp only [checkSource, entered, Option.bind_some, isSelf, checkSnode, meant, ne_eq,
      not_true_eq_false, if_false, checkSkew, gt_iff_lt, not_lt.mpr close]
  | gossip =>
    simp only [checkSource, checkGossip, entered, Option.bind_some]
    cases isSelf : server.selfNode with
    | none => rfl
    | some self => exact congrArg Except.ok (if_neg (admits self isSelf))

/-- An announcement that does not pass is rejected, unless it comes by gossip and is
merely old.

Proof: by the source and by whether the server has a node of its own; the first check that fails
is the reason that is given. -/
theorem checked_of_not_passes {call : Call} {source : Source} {server : Server}
    {ann : Announcement} (refused : ¬Passes call source server ann) :
    (∃ message, checked call source server ann = .error message) ∨
      (∃ replyError, checked call source server ann = .ok ⟨none, replyError⟩) ∨
      (checked call source server ann = .ok ⟨some ann, .none⟩ ∧ Older server ann) := by
  rw [checked, check]
  cases source with
  | direct =>
    cases isSelf : server.selfNode with
    | none => exact Or.inl ⟨"no self_node", by simp [checkSource, entered, isSelf]⟩
    | some self =>
      refine Or.inr (Or.inl ?_)
      simp only [checkSource, entered, Option.bind_some, isSelf]
      by_cases old : Older server ann
      · rw [checkAge_of_old old]
        exact ⟨.oldMessage, rfl⟩
      · rw [checkAge_of_young fun both => old both.2]
        by_cases meant : ann.header.snodeIp = self.ipv6
        · have skewed : maxClockskew < timeDiff call.now (annTime ann) := by
            by_contra close
            exact refused ⟨⟨self, isSelf, meant, not_lt.mp close⟩, old⟩
          exact ⟨.excessiveClockSkew, by simp [checkSnode, checkSkew, meant, skewed]⟩
        · exact ⟨.wrongSnode, by simp [checkSnode, checkSkew, meant]⟩
  | gossip =>
    have young : ¬(Source.gossip = .direct ∧ Older server ann) := fun both => by cases both.1
    simp only [checkAge_of_young young, checkSource, checkGossip, entered, Option.bind_some]
    apply Or.inr
    cases isSelf : server.selfNode with
    | none =>
      refine Or.inr ⟨rfl, ?_⟩
      by_contra fresh
      refine refused ⟨fun self found => ?_, fresh⟩
      rw [isSelf] at found
      cases found
    | some self =>
      by_cases own : ann.nodeIp = self.ipv6
      · exact Or.inl ⟨.wrongSnode, by simp [own]⟩
      · refine Or.inr ⟨by simp [own], ?_⟩
        by_contra fresh
        refine refused ⟨fun other found => ?_, fresh⟩
        rw [isSelf] at found
        cases found
        exact own

/-- What passes is not stopped by its age. -/
theorem not_older_known {server : Server} {ann : Announcement} (fresh : ¬Older server ann) :
    ¬∃ node ∈ byIp server.nodes ann.nodeIp, node.node.mutState.timestamp > annTime ann := by
  rintro ⟨known, found, older⟩
  exact fresh ⟨known.node, ((byIp_eq_some_iff _ _ _).mp found).1, older⟩

end RouteServer.Snode
