import RouteServer.Peers.Answers

/-!
# Nothing is lost between two servers

Every announcement that a server lists is underway to a server that connected to it, from
before it is offered until its data is accepted, or was known there when it was offered. So
when both ends of the connection are at rest, the other server has received all of them,
provided that the connection is open and was not taken off the list of peers.
-/

namespace RouteServer.Peers

open Ann Machine.System
open Snode (AnnList)
open Snode.Msgpack (Message MessageData)

/-- What a task goes on with, once it does not wait any more. -/
def Task.stage : Task → Option Stage
  | .ready stage => some stage
  | .sending _ stage => some stage
  | _ => none

/-- The hashes that a task has read and still has to send. -/
def Task.invites (task : Task) : List Snode.Msgpack.AnnHash :=
  match task.stage with
  | some (.inviting chunks) => chunks.flatten
  | _ => []

/-- An offer that is still going to reach a listed connection. -/
def Offer.Covers (conn : ConnId) (offer : Offer) : Prop :=
  ∀ waiting ∈ offer.waiting, conn ∈ waiting

instance (conn : ConnId) (offer : Offer) : Decidable (offer.Covers conn) :=
  inferInstanceAs (Decidable (∀ waiting ∈ offer.waiting, conn ∈ waiting))

/-- The hashes that a server looks up for a connection and knows. -/
def foundKnown (conn : ConnId) (self : State) : Event → List Snode.Msgpack.AnnHash
  | .advance changed =>
    if changed = conn then
      match (self.conns conn).task with
      | .ready (.requesting (hash :: _)) => if hashKnown self.anns hash then [hash] else []
      | _ => []
    else []
  | _ => []

/-- What a server keeps: its list of announcements is consistent, and offers that were not made
wait for nothing. -/
structure State.Kept (state : State) : Prop where
  consistent : state.anns.Consistent
  spare : ∀ offer, state.offerCount ≤ offer → (state.offers offer).waiting = some []

/-- An announcement is looked up by its hash. -/
theorem get_sentHash (anns : AnnList) (hash : AnnHash) :
    get anns (sentHash hash) = anns.annByHash.lookup hash := by
  rw [get, listedHash, sentHash, dif_pos hash.sized, Option.bind_some]

/-- A new server holds nothing and made no offers. -/
theorem new_kept (seed : UInt64) : (State.new seed).Kept :=
  ⟨Snode.AnnList.new_consistent, fun _ _ => rfl⟩

/-- A step adds to the list of announcements or takes out of it consistently, and numbers its offers
in a row.

Proof: one case for each effect. An offer that is made takes the next number, so the numbers
stay in a row. -/
theorem Effect.kept {self next : State} {event : Event} (effect : Effect self event next)
    (kept : self.Kept) : next.Kept := by
  have moved {offer : Nat} {hash : AnnHash} {waiting left : Option (List ConnId)}
      (waits : self.offers offer = ⟨hash, waiting⟩) (pending : waiting ≠ some []) (other : Nat)
      (unmade : self.offerCount ≤ other) :
      (Function.update self.offers offer ⟨hash, left⟩ other).waiting = some [] := by
    by_cases same : other = offer
    · subst same
      have none := kept.spare other unmade
      rw [waits] at none
      exact absurd none pending
    · rw [Function.update_of_ne same]
      exact kept.spare other unmade
  cases effect with
  | added hash binary fresh =>
    constructor
    · have consistent := kept.consistent.addAnn hash binary
      rw [AnnList.addAnn, if_neg fresh] at consistent
      exact consistent
    · intro offer unmade
      have made : offer ≠ self.offerCount := Nat.ne_of_gt unmade
      simp only [Function.update_of_ne made]
      exact kept.spare offer (Nat.le_of_succ_le unmade)
  | deleted hash => exact ⟨kept.consistent.delAnns [hash], kept.spare⟩
  | peersListed offer hash waits => exact ⟨kept.consistent, moved waits (by rintro ⟨⟩)⟩
  | passed offer hash conn rest waits passes => exact ⟨kept.consistent, moved waits (by rintro ⟨⟩)⟩
  | offered offer hash conn rest waits incoming isOpen room =>
    exact ⟨kept.consistent, moved waits (by rintro ⟨⟩)⟩
  | _ => exact ⟨kept.consistent, kept.spare⟩

/-- An announcement that is listed after an event was listed before, or is offered now. -/
theorem Effect.lookup {self next : State} {event : Event} (effect : Effect self event next)
    {hash : AnnHash} {data : List UInt8} (holds : next.anns.annByHash.lookup hash = some data) :
    self.anns.annByHash.lookup hash = some data ∨
      next.offers self.offerCount = ⟨hash, none⟩ := by
  cases effect with
  | added added binary fresh =>
    by_cases same : hash = added
    · subst same
      exact .inr (Function.update_self _ _ _)
    · refine .inl ?_
      simpa only [AnnList.add, AList.lookup_insert_ne same] using holds
  | deleted deleted =>
    refine .inl ?_
    by_cases same : hash = deleted
    · subst same
      simp [AnnList.delAnn, AnnList.remove, AList.lookup_erase] at holds
    · simpa only [AnnList.delAnn, AnnList.remove, AList.lookup_erase_ne same] using holds
  | _ => exact .inl holds

/-- A connection that is listed after an event was listed before, or is made now. -/
theorem Effect.peers {self next : State} {event : Event} (effect : Effect self event next)
    {conn : ConnId} (listed : conn ∈ next.peers) :
    conn ∈ self.peers ∨ ∃ peerType now, event = .connect peerType now ∧ conn = self.connCount := by
  cases effect with
  | created peerType now =>
    rcases List.mem_append.mp listed with earlier | new
    · exact .inl earlier
    · exact .inr ⟨peerType, now, rfl, List.mem_singleton.mp new⟩
  | dropped dropped isClosed => exact .inl (List.mem_of_mem_filter listed)
  | pingDropped seq dropped rest waits => exact .inl (List.mem_of_mem_filter listed)
  | _ => exact .inl listed

/-- A message stays on its way, unless the event ends the connection. -/
theorem PeerChange.onWay {self : State} {conn : ConnId} {event : Event} {peer : Peer}
    (change : PeerChange self conn event peer) (unborn : self.Unborn)
    (silent : ∀ now message, event ≠ .read conn now message)
    (ends : peer.task = .closed → (self.conns conn).task = .closed) {wire : List Message}
    {message : Message} (among : message ∈ wire ++ (self.conns conn).unwritten) :
    message ∈ wire ++ written conn self event ++ peer.unwritten := by
  rcases change.unwritten unborn silent with ⟨rfl, _⟩ | ⟨added, perm, _⟩
  · cases change with
    | kept event elsewhere => exact absurd rfl elsewhere
    | disconnected stands => cases stands.symm.trans (ends rfl)
    | pushed event message elsewhere told isOpen room => cases elsewhere
  · rw [List.append_assoc]
    rcases List.mem_append.mp among with sent | waiting
    · exact List.mem_append_left _ sent
    · exact List.mem_append_right _ (perm.symm.subset (List.mem_append_left _ waiting))

/-- The same when a message is read. -/
theorem handleMessage_onWay {peer : Peer} (stands : peer.task = .ready .serving)
    (anns : AnnList) (now : Nat) (read : Message)
    (isOpen : (peer.handleMessage anns now read).task ≠ .closed) {wire : List Message}
    {message : Message} (among : message ∈ wire ++ peer.unwritten) :
    message ∈ wire ++ (peer.handleMessage anns now read).unwritten := by
  rcases handleMessage_unwritten stands anns now read with ⟨isClosed, _⟩ | replied
  · exact absurd isClosed isOpen
  · rw [replied, ← List.append_assoc]
    exact List.mem_append_left _ among

/-- A hash that a task is going to read, or has read and is going to send, stays one until it
is among the messages that are not written.

Proof: one case for each change. The hashes are read in pieces, and every piece is written as
one message. -/
theorem PeerChange.invites {self : State} {conn : ConnId} {event : Event} {peer : Peer}
    (change : PeerChange self conn event peer) (unborn : self.Unborn) {hash : AnnHash}
    (listed : hash ∈ self.anns.annHashesOrdered)
    (coming : (self.conns conn).task.stage = some .listing ∨
      sentHash hash ∈ (self.conns conn).task.invites) :
    (peer.task.stage = some .listing ∨ sentHash hash ∈ peer.task.invites) ∨
      ∃ message ∈ peer.unwritten, sentHash hash ∈ hashesOf message := by
  have idle {task : Task} (stands : (self.conns conn).task = task)
      (other : task.stage ≠ some .listing) (none : task.invites = []) : False := by
    rw [stands, none] at coming
    exact coming.elim other List.not_mem_nil
  cases change with
  | kept event elsewhere => exact .inl coming
  | created peerType now new =>
    have unused := unborn conn (Nat.le_of_eq new.symm)
    exact (idle (congrArg Peer.task unused) (by decide) rfl).elim
  | moved peer moved =>
    cases moved with
    | listed stands =>
      refine .inl (.inr ?_)
      have whole := (Pns.chunks_spec (by decide : 0 < 128)
        (self.anns.annHashesOrdered.map sentHash)).1
      simp only [Task.invites, Task.stage, whole]
      exact List.mem_map_of_mem listed
    | invited hashes chunks stands =>
      rw [stands] at coming
      rcases coming with listing | inviting
      · cases listing
      · rcases List.mem_append.mp inviting with now | later
        · exact .inr ⟨_, List.mem_append_right _ (List.mem_singleton_self _), now⟩
        · exact .inl (.inr later)
    | finished stage ended stands =>
      rcases ended with rfl | rfl
      · exact (idle stands nofun rfl).elim
      · exact (idle stands nofun rfl).elim
    | known known hashes stands knows => exact (idle stands nofun rfl).elim
    | sent message next stands room =>
      rw [stands] at coming
      exact .inl coming
  | requested wanted hashes stands unknown => exact (idle stands nofun rfl).elim
  | announced data stands => exact (idle stands nofun rfl).elim
  | wrote message queue stands first => exact (idle stands nofun rfl).elim
  | handled now message stands => exact (idle stands nofun rfl).elim
  | disconnected stands => exact (idle stands nofun rfl).elim
  | pushed event message elsewhere told isOpen room => exact .inl coming

/-- A hash that a task still has to look up is one until it is found known or requested.

Proof: one case for each change. The first wanted hash is the one that is looked up: it is
known, or a request goes out for it. -/
theorem PeerChange.wanted {self : State} {conn : ConnId} {event : Event} {peer : Peer}
    (change : PeerChange self conn event peer) (unborn : self.Unborn)
    {hash : Snode.Msgpack.AnnHash} (wants : hash ∈ (self.conns conn).task.wanted) :
    hash ∈ peer.task.wanted ∨ hash ∈ foundKnown conn self event ∨
      ∃ message ∈ peer.unwritten, message.data = .getData hash := by
  have idle {task : Task} (stands : (self.conns conn).task = task) (none : task.wanted = []) :
      False := by
    rw [stands, none] at wants
    cases wants
  cases change with
  | kept event elsewhere => exact .inl wants
  | created peerType now new =>
    have unused := unborn conn (Nat.le_of_eq new.symm)
    exact (idle (congrArg Peer.task unused) rfl).elim
  | moved peer moved =>
    cases moved with
    | listed stands => exact (idle stands rfl).elim
    | invited hashes chunks stands => exact (idle stands rfl).elim
    | finished stage ended stands =>
      rcases ended with rfl | rfl
      · exact (idle stands rfl).elim
      · exact (idle stands rfl).elim
    | known known hashes stands knows =>
      rw [stands] at wants
      rcases List.mem_cons.mp wants with rfl | later
      · refine .inr (.inl ?_)
        rw [foundKnown, if_pos rfl, stands]
        simp [knows]
      · exact .inl later
    | sent message next stands room =>
      rw [stands] at wants
      cases next with
      | requesting hashes => exact .inl wants
      | _ => cases wants
  | requested wanted hashes stands unknown =>
    rw [stands] at wants
    rcases List.mem_cons.mp wants with rfl | later
    · exact .inr (.inr ⟨_, List.mem_append_right _ (List.mem_singleton_self _), rfl⟩)
    · exact .inl later
  | announced data stands => exact (idle stands rfl).elim
  | wrote message queue stands first => exact (idle stands rfl).elim
  | handled now message stands => exact (idle stands rfl).elim
  | disconnected stands => exact (idle stands rfl).elim
  | pushed event message elsewhere told isOpen room => exact .inl wants

/-- A hash is going to be sent on a connection: as one of all hashes, or as one that was added. -/
inductive Coming (conn : ConnId) (self : State) (hash : AnnHash) : Prop where
  | invited (coming : (self.conns conn).task.stage = some .listing ∨
      sentHash hash ∈ (self.conns conn).task.invites)
  | offered (offer : Nat) (offers : (self.offers offer).hash = hash)
      (covers : (self.offers offer).Covers conn)

/-- An offer covers a listed connection until the hash is in its queue.

Proof: one case for each effect. Only the offer that is moved on loses its first receiver, which
has got the message or is outgoing or closed. -/
theorem Effect.covers {self next : State} {event : Event} (effect : Effect self event next)
    (kept : self.Kept) {conn : ConnId} (isIncoming : (self.conns conn).peerType = .incoming)
    (isAlive : (self.conns conn).task ≠ .closed) (listed : conn ∈ self.peers) {offer : Nat}
    (covers : (self.offers offer).Covers conn) :
    ((next.offers offer).hash = (self.offers offer).hash ∧ (next.offers offer).Covers conn) ∨
      ∃ message ∈ (next.conns conn).unwritten,
        sentHash (self.offers offer).hash ∈ hashesOf message := by
  have moved {changed : Nat} {hash : AnnHash} {before after : Option (List ConnId)}
      (waits : self.offers changed = ⟨hash, before⟩)
      (still : offer = changed → Offer.Covers conn ⟨hash, after⟩) :
      (Function.update self.offers changed ⟨hash, after⟩ offer).hash = (self.offers offer).hash ∧
        (Function.update self.offers changed ⟨hash, after⟩ offer).Covers conn := by
    by_cases same : offer = changed
    · subst same
      rw [Function.update_self, waits]
      exact ⟨rfl, still rfl⟩
    · rw [Function.update_of_ne same]
      exact ⟨rfl, covers⟩
  cases effect with
  | added hash binary fresh =>
    have made : offer ≠ self.offerCount := by
      rintro rfl
      cases covers [] (kept.spare _ (Nat.le_refl _))
    refine .inl ?_
    simp only [Function.update_of_ne made]
    exact ⟨trivial, covers⟩
  | peersListed changed hash waits =>
    exact .inl (moved waits fun _ waiting same => Option.some.inj same ▸ listed)
  | passed changed hash passedOver rest waits passes =>
    refine .inl (moved waits fun same waiting left => ?_)
    subst same
    rcases List.mem_cons.mp (covers (passedOver :: rest) (by rw [waits]; rfl)) with rfl | later
    · rcases passes with outgoing | isClosed
      · exact absurd isIncoming outgoing
      · exact absurd isClosed isAlive
    · exact Option.some.inj left ▸ later
  | offered changed hash receiver rest waits incoming isOpen room =>
    by_cases reaches : offer = changed ∧ conn = receiver
    · obtain ⟨rfl, rfl⟩ := reaches
      refine .inr ⟨⟨0, .inv [sentHash hash]⟩, ?_, ?_⟩
      · simp only [State.setPeer, Function.update_self, Peer.unwritten, Peer.push]
        exact List.mem_append_left _ (List.mem_append_right _ (List.mem_singleton_self _))
      · rw [waits]
        exact List.mem_singleton_self _
    · refine .inl (moved waits fun same waiting left => ?_)
      subst same
      rcases List.mem_cons.mp (covers (receiver :: rest) (by rw [waits]; rfl)) with rfl | later
      · exact absurd ⟨rfl, rfl⟩ reaches
      · exact Option.some.inj left ▸ later
  | _ => exact .inl ⟨rfl, covers⟩

/-- Where an announcement is between two servers. -/
inductive Underway (cl cr : ConnId) (requests : List (UInt64 × Snode.Msgpack.AnnHash))
    (known : List Snode.Msgpack.AnnHash) (answers : List (UInt64 × List UInt8)) (link : Link)
    (hash : AnnHash) (data : List UInt8) : Prop where
  | coming (coming : Coming cl link.left hash)
  | invited (message : Message) (among : message ∈ link.down cl)
      (names : sentHash hash ∈ hashesOf message)
  | wanted (wants : sentHash hash ∈ (link.right.conns cr).task.wanted)
  | requested (message : Message) (among : message ∈ link.up cr)
      (asks : message.data = .getData (sentHash hash))
  | answered (message : Message) (among : message ∈ link.down cl)
      (brings : message.data = .data data) (made : (message.id, sentHash hash) ∈ requests)
  | known (finds : sentHash hash ∈ known)
  | accepted (id : UInt64) (made : (id, sentHash hash) ∈ requests) (brought : (id, data) ∈ answers)

/-- The connection stands open between two servers, and is listed by the first one. The second
may not have made it yet. -/
structure Alive (cl cr : ConnId) (link : Link) : Prop where
  left : (link.left.conns cl).task ≠ .closed
  listed : cl ∈ link.left.peers
  right : (link.right.conns cr).task = .closed → link.right.connCount ≤ cr

section Underway

variable {cl cr : ConnId} {requests : List (UInt64 × Snode.Msgpack.AnnHash)}
  {known : List Snode.Msgpack.AnnHash} {answers : List (UInt64 × List UInt8)}
  {link : Link} {hash : AnnHash} {data : List UInt8}

/-- What was requested, found and accepted stays so. -/
theorem Underway.mono {requests' : List (UInt64 × Snode.Msgpack.AnnHash)}
    {known' : List Snode.Msgpack.AnnHash} {answers' : List (UInt64 × List UInt8)}
    (underway : Underway cl cr requests known answers link hash data)
    (made : requests ⊆ requests') (found : known ⊆ known') (brought : answers ⊆ answers') :
    Underway cl cr requests' known' answers' link hash data := by
  cases underway with
  | coming coming => exact .coming coming
  | invited message among names => exact .invited message among names
  | wanted wants => exact .wanted wants
  | requested message among asks => exact .requested message among asks
  | answered message among brings asked => exact .answered message among brings (made asked)
  | known finds => exact .known (found finds)
  | accepted id asked accepts => exact .accepted id (made asked) (brought accepts)

/-- A step of the server on the left.

Proof: by where the announcement is. What is still coming becomes an invitation or a queued
offer; everything else is on its way or at the other end, which the step does not change. -/
theorem Underway.left {event : Event} {server : State}
    (underway : Underway cl cr requests known answers link hash data)
    (unborn : link.left.Unborn) (kept : link.left.Kept)
    (incoming : (link.left.conns cl).peerType = .incoming) (alive : Alive cl cr link)
    (isOpen : (server.conns cl).task ≠ .closed)
    (holds : link.left.anns.annByHash.lookup hash = some data)
    (silent : ∀ now message, event ≠ .read cl now message)
    (stepped : Peers.step link.left event = some server) :
    Underway cl cr requests known answers
      { link with left := server, toRight := link.toRight ++ written cl link.left event }
      hash data := by
  have effect := step_effect stepped
  have change := effect.change cl
  have stays {message : Message} (among : message ∈ link.down cl) :
      message ∈ link.toRight ++ written cl link.left event ++ (server.conns cl).unwritten :=
    change.onWay unborn silent (fun isClosed => absurd isClosed isOpen) among
  cases underway with
  | coming coming =>
    cases coming with
    | invited coming =>
      have listed : hash ∈ link.left.anns.annHashesOrdered :=
        (kept.consistent.keys hash).mpr (AList.lookup_isSome.mp (by rw [holds]; rfl))
      rcases change.invites unborn listed coming with still | ⟨message, among, names⟩
      · exact .coming (.invited still)
      · exact .invited message (List.mem_append_right _ among) names
    | offered offer offers covers =>
      rcases effect.covers kept incoming alive.left alive.listed covers with
        ⟨same, still⟩ | ⟨message, among, names⟩
      · exact .coming (.offered offer (same.trans offers) still)
      · exact .invited message (List.mem_append_right _ among) (offers ▸ names)
  | invited message among names => exact .invited message (stays among) names
  | wanted wants => exact .wanted wants
  | requested message among asks => exact .requested message among asks
  | answered message among brings made => exact .answered message (stays among) brings made
  | known finds => exact .known finds
  | accepted id made brought => exact .accepted id made brought

/-- A step of the server on the right. -/
theorem Underway.right {event : Event} {server : State}
    (underway : Underway cl cr requests known answers link hash data)
    (unborn : link.right.Unborn)
    (ends : (server.conns cr).task = .closed → (link.right.conns cr).task = .closed)
    (silent : ∀ now message, event ≠ .read cr now message)
    (stepped : Peers.step link.right event = some server) :
    Underway cl cr requests (known ++ foundKnown cr link.right event) answers
      { link with right := server, toLeft := link.toLeft ++ written cr link.right event }
      hash data := by
  have change := (step_effect stepped).change cr
  cases underway with
  | coming coming => exact .coming coming
  | invited message among names => exact .invited message among names
  | wanted wants =>
    rcases change.wanted unborn wants with still | finds | ⟨message, among, asks⟩
    · exact .wanted still
    · exact .known (List.mem_append_right _ finds)
    · exact .requested message (List.mem_append_right _ among) asks
  | requested message among asks =>
    exact .requested message (change.onWay unborn silent ends among) asks
  | answered message among brings made => exact .answered message among brings made
  | known finds => exact .known (List.mem_append_left _ finds)
  | accepted id made brought => exact .accepted id made brought

/-- A message that the left end reads.

Proof: by where the announcement is. Only a request for it is used up, and that is answered with
its data. -/
theorem Underway.readLeft {now : Nat} {message : Message} {rest : List Message}
    (underway : Underway cl cr requests known answers link hash data)
    (first : link.toLeft = message :: rest)
    (stands : (link.left.conns cl).task = .ready .serving)
    (isOpen : ((link.left.conns cl).handleMessage link.left.anns now message).task ≠ .closed)
    (holds : link.left.anns.annByHash.lookup hash = some data)
    (asked : ∀ hash, message.data = .getData hash → (message.id, hash) ∈ requests) :
    Underway cl cr requests known answers { link with
      left := link.left.setPeer cl ((link.left.conns cl).handleMessage link.left.anns now message)
      toLeft := rest } hash data := by
  have down (other : Message) (among : other ∈ link.toRight ++
      ((link.left.conns cl).handleMessage link.left.anns now message).unwritten) :
      other ∈ Link.down cl { link with
        left :=
          link.left.setPeer cl ((link.left.conns cl).handleMessage link.left.anns now message)
        toLeft := rest } := by
    simp only [Link.down, State.setPeer, Function.update_self]
    exact among
  have stays {other : Message} (among : other ∈ link.down cl) :=
    down other (handleMessage_onWay stands link.left.anns now message isOpen among)
  cases underway with
  | coming coming =>
    cases coming with
    | invited coming =>
      rw [stands] at coming
      rcases coming with listing | inviting
      · cases listing
      · cases inviting
    | offered offer offers covers => exact .coming (.offered offer offers covers)
  | invited other among names => exact .invited other (stays among) names
  | wanted wants => exact .wanted wants
  | requested other among asks =>
    rw [Link.up, first, List.cons_append] at among
    rcases List.mem_cons.mp among with rfl | later
    · refine .answered ⟨other.id, .data data⟩ (down _ ?_) rfl (asked _ asks)
      have replied := (handleMessage_unwritten stands link.left.anns now other).resolve_left
        fun both => isOpen both.1
      have reply : replies link.left.anns other = [⟨other.id, .data data⟩] := by
        simp only [replies, asks, get_sentHash, holds, Option.getD_some]
      rw [replied, reply, ← List.append_assoc]
      exact List.mem_append_right _ (List.mem_singleton_self _)
    · exact .requested other later asks
  | answered other among brings made => exact .answered other (stays among) brings made
  | known finds => exact .known finds
  | accepted id made brought => exact .accepted id made brought

/-- A message that the right end reads.

Proof: by where the announcement is. An invitation becomes a wanted hash, an answer is accepted,
and what the right end holds or asks for stays. -/
theorem Underway.readRight {now : Nat} {message : Message} {rest : List Message}
    (underway : Underway cl cr requests known answers link hash data)
    (first : link.toRight = message :: rest)
    (stands : (link.right.conns cr).task = .ready .serving)
    (isOutgoing : (link.right.conns cr).peerType = .outgoing)
    (isOpen : ((link.right.conns cr).handleMessage link.right.anns now message).task ≠ .closed) :
    Underway cl cr requests known
      (answers ++ answerOf cr link.right (.read cr now message)) { link with
        right :=
          link.right.setPeer cr ((link.right.conns cr).handleMessage link.right.anns now message)
        toRight := rest } hash data := by
  cases underway with
  | coming coming => exact .coming coming
  | invited other among names =>
    rw [Link.down, first, List.cons_append] at among
    rcases List.mem_cons.mp among with rfl | later
    · refine .wanted ?_
      rw [hashesOf] at names
      split at names
      · next hashes invites =>
        simp only [State.setPeer, Function.update_self, Peer.handleMessage, invites, isOutgoing,
          if_true]
        exact names
      · cases names
    · exact .invited other later names
  | wanted wants =>
    rw [stands] at wants
    cases wants
  | requested other among asks =>
    refine .requested other ?_ asks
    have stays := handleMessage_onWay stands link.right.anns now message isOpen among
    simp only [Link.up, State.setPeer, Function.update_self]
    exact stays
  | answered other among brings made =>
    rw [Link.down, first, List.cons_append] at among
    rcases List.mem_cons.mp among with rfl | later
    · refine .accepted other.id made (List.mem_append_right _ ?_)
      have outstanding : other.id ∈ (link.right.conns cr).outstandingReqs := by
        by_contra unknown
        exact isOpen ((handleMessage_closed_iff stands _ _ _).mpr
          (.inr (.inr ⟨data, brings, isOutgoing, unknown⟩)))
      rw [answerOf, if_pos ⟨rfl, stands, isOutgoing⟩]
      simp only [answerIn, brings, if_pos outstanding]
      exact List.mem_singleton_self _
    · exact .answered other later brings made
  | known finds => exact .known finds
  | accepted id made brought => exact .accepted id made (List.mem_append_left _ brought)

end Underway

/-- A connection that is alive after an event was alive before, or was made just now.

Proof: by the effect of the step. Connections do not open again, so one that is open afterwards
was open before, unless the step made it. -/
theorem Alive.before {cl cr : ConnId} {link next : Link} {event : LinkEvent}
    (alive : Alive cl cr next) (effect : LinkEffect cl cr link event next) :
    Alive cl cr link ∨ (next.left.conns cl).task.stage = some .listing := by
  cases effect with
  | left event server permits stepped =>
    have effect := step_effect stepped
    have made {peerType : PeerType} {now : Nat} (connects : event = .connect peerType now)
        (new : cl = link.left.connCount) : (server.conns cl).task.stage = some .listing := by
      have incoming := permitted_fits permits connects new.symm
      subst connects incoming
      cases stepped
      simp only [State.createPeer, new, Function.update_self]
      rfl
    by_cases isClosed : (link.left.conns cl).task = .closed
    · rcases (effect.change cl).of_closed isClosed with same | ⟨peerType, now, connects, new⟩
      · exact absurd (same ▸ isClosed) alive.left
      · exact .inr (made connects new)
    · rcases effect.peers alive.listed with listed | ⟨peerType, now, connects, new⟩
      · exact .inl ⟨isClosed, listed, alive.right⟩
      · exact .inr (made connects new)
  | right event server permits stepped =>
    have effect := step_effect stepped
    refine .inl ⟨alive.left, alive.listed, fun isClosed => ?_⟩
    rcases (effect.change cr).of_closed isClosed with same | ⟨peerType, now, connects, new⟩
    · exact Nat.le_trans effect.connCount (alive.right (same ▸ isClosed))
    · exact Nat.le_of_eq new.symm
  | readLeft now message rest first stands =>
    exact .inl ⟨by rw [stands]; rintro ⟨⟩, alive.listed, alive.right⟩
  | readRight now message rest first stands =>
    exact .inl ⟨alive.left, alive.listed, fun isClosed => by cases stands.symm.trans isClosed⟩

section Run

variable {cl cr : ConnId} {seedLeft seedRight : UInt64} {events : List LinkEvent} {last : Link}

/-- The hashes that the server on the right has looked up for the connection and knew. -/
def knownFound (cl cr : ConnId) (seedLeft seedRight : UInt64) (events : List LinkEvent) :
    List Snode.Msgpack.AnnHash :=
  (peers seedRight).shown (foundKnown cr) (State.new seedRight)
    (rightEvents cl cr seedLeft seedRight events)

/-- In every run the list of the left server is consistent, by induction on the run. -/
theorem kept_of_run
    (ran : (linked cl cr seedLeft seedRight).run (Link.new seedLeft seedRight) events =
      some last) : last.left.Kept := by
  have keeps (link : Link) (event : LinkEvent) (next : Link) (kept : link.left.Kept)
      (possible : (linked cl cr seedLeft seedRight).step link event = some next) :
      next.left.Kept := by
    cases link_effect possible with
    | left event server permits stepped => exact (step_effect stepped).kept kept
    | right event server permits stepped => exact kept
    | readLeft now message rest first stands =>
      exact (step_effect (read_step stands now message)).kept kept
    | readRight now message rest first stands => exact kept
  have start : (Link.new seedLeft seedRight).left.Kept := new_kept seedLeft
  exact run_keeps keeps ran start

/-- In every run what the left server holds is under way to the right one or was brought to its end,
by induction on the run. -/
theorem underway_of_run
    (ran : (linked cl cr seedLeft seedRight).run (Link.new seedLeft seedRight) events =
      some last) (short : events.length ≤ 2 ^ 64) (alive : Alive cl cr last) {hash : AnnHash}
    {data : List UInt8} (holds : last.left.anns.annByHash.lookup hash = some data) :
    Underway cl cr (requestsMade cl cr seedLeft seedRight events)
      (knownFound cl cr seedLeft seedRight events)
      (answersAccepted cl cr seedLeft seedRight events) last hash data := by
  revert short alive holds hash data
  refine run_history (fun events link => events.length ≤ 2 ^ 64 → Alive cl cr link →
    ∀ {hash : AnnHash} {data : List UInt8}, link.left.anns.annByHash.lookup hash = some data →
      Underway cl cr (requestsMade cl cr seedLeft seedRight events)
        (knownFound cl cr seedLeft seedRight events)
        (answersAccepted cl cr seedLeft seedRight events) link hash data) ?_ ?_ ran
  · intro _ alive
    exact absurd rfl alive.left
  intro before link event next reached underway possible long aliveAfter hash data holds
  have short : before.length ≤ 2 ^ 64 := by
    rw [List.length_append, List.length_singleton] at long
    omega
  have effect : LinkEffect cl cr link event next := link_effect possible
  obtain ⟨unbornLeft, unbornRight⟩ := unborn_of_linked reached
  rcases aliveAfter.before effect with alive | listing
  case inr => exact .coming (.invited (.inl listing))
  have ordered := ordered_of_run reached short
  have traced := traced_of_run reached
  have underway := @underway short alive hash data
  rw [requestsMade, knownFound, answersAccepted, shown_right_snoc _ reached possible,
    shown_right_snoc _ reached possible, shown_right_snoc _ reached possible]
  rw [requestsMade, knownFound, answersAccepted] at underway
  cases effect with
  | left event server permits stepped =>
    rcases (step_effect stepped).lookup holds with earlier | offer
    · have incoming := ordered.leftType.of_task unbornLeft alive.left
      exact ((underway earlier).left unbornLeft (kept_of_run reached) incoming alive
        aliveAfter.left earlier (permitted_silent permits) stepped).mono
        (List.subset_append_left _ _) (List.subset_append_left _ _) (List.subset_append_left _ _)
    · refine .coming (.offered _ (by rw [offer]) fun left waiting => ?_)
      rw [offer] at waiting
      cases waiting
  | right event server permits stepped =>
    have ends (isClosed : (server.conns cr).task = .closed) :
        (link.right.conns cr).task = .closed := by
      rw [unbornRight cr (Nat.le_trans (step_effect stepped).connCount (aliveAfter.right isClosed))]
      rfl
    exact ((underway holds).right unbornRight ends (permitted_silent permits) stepped).mono
      (List.subset_append_left _ _) (by rw [rightSteps, shown_singleton]; exact List.Subset.refl _)
      (List.subset_append_left _ _)
  | readLeft now message rest first stands =>
    have asked (hash : Snode.Msgpack.AnnHash) (asks : message.data = .getData hash) :=
      traced.asked message (List.mem_append_left _ (first ▸ List.mem_cons_self)) hash asks
    have isOpen := aliveAfter.left
    simp only [State.setPeer, Function.update_self] at isOpen
    exact ((underway holds).readLeft first stands isOpen holds asked).mono
      (List.subset_append_left _ _) (List.subset_append_left _ _) (List.subset_append_left _ _)
  | readRight now message rest first stands =>
    have outgoing := ordered.rightType.of_task unbornRight (by rw [stands]; rintro ⟨⟩)
    have steps : rightSteps cr link (.readRight now) = [.read cr now message] := by
      rw [rightSteps, first]
      rfl
    have isOpen :
        ((link.right.conns cr).handleMessage link.right.anns now message).task ≠ .closed := by
      intro isClosed
      have unmade := aliveAfter.right (by
        simp only [State.setPeer, Function.update_self]
        exact isClosed)
      rw [unbornRight cr unmade] at stands
      cases stands
    exact ((underway holds).readRight first stands outgoing isOpen).mono
      (List.subset_append_left _ _) (List.subset_append_left _ _)
      (by rw [steps, shown_singleton]; exact List.Subset.refl _)

/-- The announcements that the server on the right has handed on from the connection. -/
def handedOnRight (cl cr : ConnId) (seedLeft seedRight : UInt64) (events : List LinkEvent) :
    List (List UInt8) :=
  (peers seedRight).shown (handedOn cr) (State.new seedRight)
    (rightEvents cl cr seedLeft seedRight events)

/-- Both ends of a listed connection wait for messages, none is on its way, and no offer is
going to be made on it. -/
def AtRest (cl cr : ConnId) (link : Link) : Prop :=
  (link.left.conns cl).task = .ready .serving ∧ (link.right.conns cr).task = .ready .serving ∧
    link.down cl = [] ∧ link.up cr = [] ∧ cl ∈ link.left.peers ∧
      ∀ offer < link.left.offerCount, ¬(link.left.offers offer).Covers cl

instance (cl cr : ConnId) (link : Link) : Decidable (AtRest cl cr link) :=
  inferInstanceAs (Decidable (_ ∧ _ ∧ _ ∧ _ ∧ _ ∧ _))

/-- An offer that covers a connection was made. -/
theorem Offer.Covers.made {self : State} (kept : self.Kept) {conn : ConnId} {offer : Nat}
    (covers : (self.offers offer).Covers conn) : offer < self.offerCount := by
  by_contra unmade
  cases covers [] (kept.spare offer (Nat.le_of_not_lt unmade))

/-- When a connection is at rest, the second server has received every announcement that the
first one lists: it knew the hash when it was offered, or its request for the hash brought the
packet, which it handed on.

Proof: what the first server holds is on its way at some stage or came to its end, in every run.
At rest nothing is on its way, so it came to its end. -/
theorem nothing_is_lost
    (ran : (linked cl cr seedLeft seedRight).run (Link.new seedLeft seedRight) events =
      some last) (short : events.length ≤ 2 ^ 64) (rests : AtRest cl cr last) {hash : AnnHash}
    {data : List UInt8} (holds : get last.left.anns (sentHash hash) = some data) :
    sentHash hash ∈ knownFound cl cr seedLeft seedRight events ∨
      (∃ id, (id, sentHash hash) ∈ requestsMade cl cr seedLeft seedRight events ∧
        (id, data) ∈ answersAccepted cl cr seedLeft seedRight events) ∧
      data ∈ handedOnRight cl cr seedLeft seedRight events := by
  obtain ⟨leftServes, rightServes, noneDown, noneUp, listed, noOffer⟩ := rests
  have alive : Alive cl cr last := by
    refine ⟨by rw [leftServes]; nofun, listed, fun isClosed => ?_⟩
    cases rightServes.symm.trans isClosed
  rw [get_sentHash] at holds
  cases underway_of_run ran short alive holds with
  | coming coming =>
    cases coming with
    | invited coming =>
      rw [leftServes] at coming
      rcases coming with listing | inviting
      · cases listing
      · cases inviting
    | offered offer offers covers =>
      exact absurd covers (noOffer offer (covers.made (kept_of_run ran)))
  | invited message among names =>
    rw [noneDown] at among
    cases among
  | wanted wants =>
    rw [rightServes] at wants
    cases wants
  | requested message among asks =>
    rw [noneUp] at among
    cases among
  | answered message among brings made =>
    rw [noneDown] at among
    cases among
  | known finds => exact .inl finds
  | accepted id made brought =>
    refine .inr ⟨⟨id, made, brought⟩, ?_⟩
    have accounts := accounts_of_run (right_ran ran) (rightEvents_short short) cr
    have handed := accounts.handed
    rw [rightServes] at handed
    rw [handedOnRight, ← List.append_nil ((peers seedRight).shown _ _ _)]
    exact handed ▸ List.mem_map_of_mem brought

end Run

/-- An exchange of one announcement comes to rest with the announcement handed on. -/
theorem nothing_is_lost_in_exchange : ∃ last : Link,
    (linked 0 0 0 0).run (Link.new 0 0)
        (exchange ++ [LinkEvent.readRight 0, .right (.advance 0)]) = some last ∧
      (exchange ++ [LinkEvent.readRight 0, .right (.advance 0)]).length ≤ 2 ^ 64 ∧
      AtRest 0 0 last ∧ get last.left.anns (sentHash someHash) = some [7] ∧
      (sentHash someHash ∈
          knownFound 0 0 0 0 (exchange ++ [LinkEvent.readRight 0, .right (.advance 0)]) ∨
        [7] ∈
          handedOnRight 0 0 0 0 (exchange ++ [LinkEvent.readRight 0, .right (.advance 0)])) := by
  have possible : ((linked 0 0 0 0).run (Link.new 0 0)
      (exchange ++ [LinkEvent.readRight 0, .right (.advance 0)])).any (fun last => decide
        (AtRest 0 0 last ∧ get last.left.anns (sentHash someHash) = some [7])) = true := by
    decide +kernel
  have short : (exchange ++ [LinkEvent.readRight 0, .right (.advance 0)]).length ≤ 2 ^ 64 := by
    decide
  obtain ⟨last, ran, passes⟩ := (Option.any_eq_true _ _).mp possible
  obtain ⟨rests, holds⟩ := of_decide_eq_true passes
  have arrived := nothing_is_lost ran short rests holds
  exact ⟨last, ran, short, rests, holds, arrived.imp_right And.right⟩

end RouteServer.Peers
