import RouteServer.Machine.Runs
import RouteServer.Snode.Handling

/-!
# Runs of the route server

A route server starts with empty tables. It handles packets, forgets nodes that have
timed out, and learns its own node whenever it connects to the local one. A step
changes at most one node of the table, or removes some, or leaves all nodes as they
are but for their state hashes.
-/

namespace RouteServer.Snode

open Rust Keys Ann Encoding

/-- What happens to a route server. -/
inductive Event where
  | announce (announce : List UInt8) (source : Source) (call : Call)
  | keepTableClean (now : SystemTime)
  | connect (version : UInt16) (key : PublicKey) (encodingScheme : EncodingScheme) (ipv6 : Ip6)

/-- The own node after a connection to the local node. It never is in the table. -/
def connect (version : UInt16) (key : PublicKey) (encodingScheme : EncodingScheme) (ipv6 : Ip6)
    (server : Server) : Option Server :=
  match newNode server.nodes version key (some encodingScheme) (mktime 0xffffffffffffffff) ipv6
      none with
  | .ok selfNode => some { server with selfNode := some selfNode }
  | .error _ => none

/-- The state after an event. A call that fails or panics leaves a state as well. -/
def step (crypto : Crypto) (server : Server) : Event → Option Server
  | .announce announce source call => some (handleAnnounceImpl crypto call announce source server).1
  | .keepTableClean now => some (keepTableClean now server)
  | .connect version key encodingScheme ipv6 => connect version key encodingScheme ipv6 server

/-- The route server as a machine. -/
def routeServer (crypto : Crypto) : Machine.System Server Event where
  initial := Server.new
  step := step crypto

/-- The packets delivered by events. -/
def delivered (events : List Event) : List (List UInt8) :=
  events.filterMap fun
    | .announce announce _ _ => some announce
    | _ => none

/-- The three ways in which a step changes the tables. -/
inductive Effect (crypto : Crypto) (before after : Server) : Event → Prop
  | applied (announce : List UInt8) (source : Source) (call : Call) (ann : Announcement)
      (node : Node) (applies : Applies crypto call announce source before ann node)
      (becomes : Becomes before after ann.nodeIp (updateLinks call.order ann node)
        ((remainingAnns before ann).addAnn ann.hash ann.binary)) :
      Effect crypto before after (.announce announce source call)
  | cleaned (now : SystemTime) (cleaned : after = keepTableClean now before) :
      Effect crypto before after (.keepTableClean now)
  | idle (event : Event)
      (nodes : ∀ ip, (after.nodes.lookup ip).map Node.core = (before.nodes.lookup ip).map Node.core)
      (anns : after.anns = before.anns)
      (refused : ∀ announce source call ann, event = .announce announce source call →
        readAnnouncement crypto announce = .ok ann → ¬Accepts call source before ann) :
      Effect crypto before after event

/-- Every step has one of the three effects. -/
theorem step_effect {crypto : Crypto} {before after : Server} {event : Event}
    (possible : step crypto before event = some after) : Effect crypto before after event := by
  cases event with
  | announce announce source call =>
    cases possible
    by_cases applied : ∃ ann node, Applies crypto call announce source before ann node
    · obtain ⟨ann, node, applies⟩ := applied
      exact .applied announce source call ann node applies (handle_becomes applies)
    · have unchanged := handle_unchanged fun ann node applies => applied ⟨ann, node, applies⟩
      refine .idle _ unchanged.nodes unchanged.anns ?_
      rintro _ _ _ ann ⟨⟩ read accepts
      obtain ⟨node, applies⟩ := (accepts_iff call source before read).mp accepts
      exact applied ⟨ann, node, applies⟩
  | keepTableClean now =>
    cases possible
    exact .cleaned now rfl
  | connect version key encodingScheme ipv6 =>
    simp only [step, connect] at possible
    split at possible
    · cases possible
      exact .idle _ (fun _ => rfl) rfl (by rintro _ _ _ _ ⟨⟩)
    · cases possible

/-- A property of every node of the table, under the address it is stored for. -/
def EveryNode (holds : Ip6 → Node → Prop) (server : Server) : Prop :=
  ∀ ip node, server.nodes.lookup ip = some node → holds ip node

section EveryNode

variable {holds : Ip6 → Node → Prop} (ofCore : ∀ ip node, holds ip node.core ↔ holds ip node)

include ofCore in
/-- A property that ignores state hashes holds of what lookups find without them. -/
theorem everyNode_iff_core (server : Server) :
    EveryNode holds server ↔
      ∀ ip node, (server.nodes.lookup ip).map Node.core = some node → holds ip node := by
  constructor
  · intro every ip node found
    obtain ⟨stored, lookup, rfl⟩ := Option.map_eq_some_iff.mp found
    exact (ofCore ip stored).mpr (every ip stored lookup)
  · intro every ip node found
    exact (ofCore ip node).mp (every ip node.core (by rw [found, Option.map_some]))

include ofCore in

/-- What does not depend on the times of nodes is kept where their cores are. -/
theorem EveryNode.of_same_cores {before after : Server} (every : EveryNode holds before)
    (nodes : ∀ ip, (after.nodes.lookup ip).map Node.core = (before.nodes.lookup ip).map Node.core) :
    EveryNode holds after := by
  rw [everyNode_iff_core ofCore] at every ⊢
  intro ip node found
  exact every ip node ((nodes ip).symm.trans found)

include ofCore in
/-- After an announcement has been applied only the node it was applied to is in
question. -/
theorem EveryNode.becomes_iff {before after : Server} {ip : Ip6} {node : Node} {anns : AnnList}
    (every : EveryNode holds before) (becomes : Becomes before after ip node anns) :
    EveryNode holds after ↔ holds ip node := by
  constructor
  · intro everyAfter
    rw [everyNode_iff_core ofCore] at everyAfter
    exact (ofCore ip node).mp (everyAfter ip node.core becomes.changed)
  · intro holdsNode other stored found
    by_cases same : other = ip
    · subst same
      have changed := becomes.changed
      rw [found, Option.map_some] at changed
      rw [← ofCore, Option.some.inj changed, ofCore]
      exact holdsNode
    · exact every other stored ((becomes.others other same).symm.trans found)

omit ofCore in

/-- A cleaning takes nodes away and leaves the others. -/
theorem EveryNode.cleaned {server : Server} (every : EveryNode holds server) (now : SystemTime) :
    EveryNode holds (keepTableClean now server) := by
  intro ip node found
  exact every ip node ((HashMap.lookup_retain _ server.nodes ip node).mp found).1

end EveryNode

end RouteServer.Snode
