import RouteServer.Snode.LinkNumbers
import RouteServer.Snode.Run

/-!
# Sound nodes

In every run each node is stored under its own address, and no address has an empty list of
links. The search for routes relies on both.
-/

namespace RouteServer.Snode

open Rust Keys Ann Encoding

/-- A node as it is kept in the table. -/
structure Sound (ip : Ip6) (node : Node) : Prop where
  ownIp : node.ipv6 = ip
  tidy : Tidy node.inwardLinksByIp

/-- Recording link states keeps a node sound: links are changed in what they measured only. -/
theorem Sound.updateLinks {ip : Ip6} {node : Node} (sound : Sound ip node) (order : LinkOrder)
    (ann : Announcement) : Sound ip (updateLinks order ann node) where
  ownIp := sound.ownIp
  tidy := by
    intro other stored found
    rw [Snode.updateLinks, numbersOf_linkStateUpdate1] at found
    exact sound.tidy.applyPeers ann other stored found

/-- Every step keeps all nodes sound. -/
theorem sound_step {crypto : Crypto} {before after : Server} {event : Event}
    (every : EveryNode Sound before) (possible : step crypto before event = some after) :
    EveryNode Sound after := by
  have ofCore (ip : Ip6) (node : Node) : Sound ip node.core ↔ Sound ip node :=
    ⟨fun sound => ⟨sound.ownIp, sound.tidy⟩, fun sound => ⟨sound.ownIp, sound.tidy⟩⟩
  cases step_effect possible with
  | applied announce source call ann node applies becomes =>
    rw [every.becomes_iff ofCore becomes]
    refine Sound.updateLinks ?_ call.order ann
    rcases appliedTo_cases applies.target with ⟨_, ownIp, links, _⟩ | ⟨_, old, found, rfl⟩
    · have none (ip : Ip6) (stored : List Link) : node.inwardLinksByIp.lookup ip ≠ some stored := by
        rw [links, AList.lookup_empty]
        nofun
      refine ⟨ownIp, fun ip stored found => ?_⟩
      obtain ⟨earlier, lookup, _⟩ := Option.map_eq_some_iff.mp found
      exact absurd lookup (none ip earlier)
    · have sound := every ann.nodeIp old found
      exact ⟨sound.ownIp, sound.tidy⟩
  | cleaned now cleaned =>
    subst cleaned
    exact every.cleaned now
  | idle _ nodes anns refused => exact every.of_same_cores ofCore nodes

/-- All nodes of the table are sound, in every run. -/
theorem sound_of_reached {crypto : Crypto} {events : List Event} {server : Server}
    (reached : (routeServer crypto).Reached events server) : EveryNode Sound server := by
  refine Machine.System.reached_induction (EveryNode Sound) ?_ ?_ reached
  · intro ip node found
    cases found
  · exact fun state event next taken every => sound_step every taken.possible

end RouteServer.Snode
