import RouteServer.Snode.Handling

/-!
# Rejected packets

A call that applies an announcement answers without a reason. So a call that gives a
reason, or fails, has applied nothing: every node is what it was up to its state hash,
and the announcements offered are the same.
-/

namespace RouteServer.Snode

open Rust Keys Ann

/-- A call ends with a reason why its packet was not accepted, or with a failure. -/
def Handled.Rejects : Handled → Prop
  | .replied _ replyError => replyError ≠ .none
  | .failed _ => True
  | .panicked => False

instance : DecidablePred Handled.Rejects
  | .replied _ replyError => inferInstanceAs (Decidable (replyError ≠ .none))
  | .failed _ => inferInstanceAs (Decidable True)
  | .panicked => inferInstanceAs (Decidable False)

/-- An answer gives the reason it was asked to give. -/
theorem reply_rejects_iff (crypto : Crypto) (ip : Option Ip6) (replyError : ReplyError)
    (server : Server) : (reply crypto ip replyError server).2.Rejects ↔ replyError ≠ .none := by
  rw [reply]
  split <;> exact Iff.rfl

/-- What is finished without a reason is not rejected. -/
theorem finish_not_rejects (crypto : Crypto) (call : Call) (ann : Announcement)
    (server : Server) : ¬(finish crypto call ann .none server).2.Rejects := by
  rw [finish]
  rw [reply_rejects_iff]
  exact not_not.mpr rfl

/-- A call that applies an announcement does not reject it. -/
theorem not_rejects_of_applies {crypto : Crypto} {call : Call} {announce : List UInt8}
    {source : Source} {server : Server} {ann : Announcement} {node : Node}
    (applies : Applies crypto call announce source server ann node) :
    ¬(handleAnnounceImpl crypto call announce source server).2.Rejects := by
  rw [handle_finishes applies]
  exact finish_not_rejects crypto call ann _

/-- **Rejection is atomic.** A call that answers with a reason or fails leaves the nodes
with their announcements, times, reset messages and links, and the announcements offered,
as they were.

Proof: a call that changes anything has applied its announcement, and one that has applied it
answers without a reason. -/
theorem rejected_leaves_tables {crypto : Crypto} {call : Call} {announce : List UInt8}
    {source : Source} {server : Server}
    (rejects : (handleAnnounceImpl crypto call announce source server).2.Rejects) :
    Unchanged server (handleAnnounceImpl crypto call announce source server).1 := by
  apply handle_unchanged
  intro ann node applies
  exact not_rejects_of_applies applies rejects

/-- A new peer of a known node that comes directly, before the server knows its own node,
fails; bytes that are no packet are answered with a reason. Both leave the node as it
was. -/
theorem known_node_left :
    let server := (handleAnnounceImpl Sample.crypto ⟨0, .ofEntries⟩ Sample.resetWithPeer .gossip
      Server.new).1
    Unchanged server
        (handleAnnounceImpl Sample.crypto ⟨0, .ofEntries⟩ Sample.newPeer .direct server).1 ∧
      Unchanged server
        (handleAnnounceImpl Sample.crypto ⟨0, .ofEntries⟩ [0, 1, 2] .gossip server).1 :=
  ⟨rejected_leaves_tables (by decide +kernel), rejected_leaves_tables (by decide +kernel)⟩

end RouteServer.Snode
