import Mathlib.Tactic.SplitIfs
import RouteServer.Peers.Connections

/-!
# What an event does

Every event has one of the effects listed here, each with what was true before it. From this
list follows what an event does to one connection, so no invariant has to look into the steps.
-/

namespace RouteServer.Peers

open Ann
open Snode (AnnList)
open Snode.Msgpack (Message MessageData)

/-- What the task of a connection does by itself, and the connection afterwards. -/
inductive Moved (self : State) (conn : ConnId) : Peer → Prop where
  | listed (stands : (self.conns conn).task = .ready .listing) :
      Moved self conn { self.conns conn with
        task := .ready (.inviting (Pns.chunks 128 (self.anns.annHashesOrdered.map sentHash))) }
  | invited (hashes : List Snode.Msgpack.AnnHash) (chunks : List (List Snode.Msgpack.AnnHash))
      (stands : (self.conns conn).task = .ready (.inviting (hashes :: chunks))) :
      Moved self conn
        { self.conns conn with task := .sending ⟨0, .inv hashes⟩ (.inviting chunks) }
  | finished (stage : Stage) (ended : stage = .inviting [] ∨ stage = .requesting [])
      (stands : (self.conns conn).task = .ready stage) :
      Moved self conn { self.conns conn with task := .ready .serving }
  | known (hash : Snode.Msgpack.AnnHash) (hashes : List Snode.Msgpack.AnnHash)
      (stands : (self.conns conn).task = .ready (.requesting (hash :: hashes)))
      (knows : hashKnown self.anns hash = true) :
      Moved self conn { self.conns conn with task := .ready (.requesting hashes) }
  | sent (message : Message) (next : Stage)
      (stands : (self.conns conn).task = .sending message next)
      (room : (self.conns conn).msgQueue.length < queueSize) :
      Moved self conn { (self.conns conn).push message with task := .ready next }

/-- What an event does to the state. -/
inductive Effect (self : State) : Event → State → Prop where
  | created (peerType : PeerType) (now : Nat) :
      Effect self (.connect peerType now) (self.createPeer peerType now)
  | moved (conn : ConnId) (peer : Peer) (moved : Moved self conn peer) :
      Effect self (.advance conn) (self.setPeer conn peer)
  | requested (conn : ConnId) (hash : Snode.Msgpack.AnnHash)
      (hashes : List Snode.Msgpack.AnnHash)
      (stands : (self.conns conn).task = .ready (.requesting (hash :: hashes)))
      (unknown : hashKnown self.anns hash = false) :
      Effect self (.advance conn) { self.setPeer conn { self.conns conn with
          outstandingReqs := insert self.msgIdSeq (self.conns conn).outstandingReqs
          task := .sending ⟨self.msgIdSeq, .getData hash⟩ (.requesting hashes) } with
        msgIdSeq := self.msgIdSeq + 1 }
  | announced (conn : ConnId) (data : List UInt8)
      (stands : (self.conns conn).task = .announcing data)
      (room : self.announces.length < announceQueueSize) :
      Effect self (.advance conn)
        { self.setPeer conn { self.conns conn with task := .ready .serving } with
          announces := self.announces ++ [data] }
  | wrote (conn : ConnId) (message : Message) (queue : List Message)
      (stands : (self.conns conn).task = .ready .serving)
      (first : (self.conns conn).msgQueue = message :: queue) :
      Effect self (.write conn) (self.setPeer conn { self.conns conn with msgQueue := queue })
  | handled (conn : ConnId) (now : Nat) (message : Message)
      (stands : (self.conns conn).task = .ready .serving) :
      Effect self (.read conn now message)
        (self.setPeer conn ((self.conns conn).handleMessage self.anns now message))
  | disconnected (conn : ConnId) (stands : (self.conns conn).task = .ready .serving) :
      Effect self (.disconnect conn) (self.setPeer conn (self.conns conn).close)
  | dropped (conn : ConnId) (isClosed : (self.conns conn).task = .closed) :
      Effect self (.dropPeer conn) (self.dropPeer conn)
  | readded (hash : AnnHash) (binary : List UInt8) (listed : hash ∈ self.anns.annHashesOrdered) :
      Effect self (.addAnn hash binary) self
  | added (hash : AnnHash) (binary : List UInt8) (fresh : hash ∉ self.anns.annHashesOrdered) :
      Effect self (.addAnn hash binary) { self with
        anns := self.anns.add hash binary
        offers := Function.update self.offers self.offerCount ⟨hash, none⟩
        offerCount := self.offerCount + 1 }
  | deleted (hash : AnnHash) :
      Effect self (.delAnn hash) { self with anns := self.anns.delAnn hash }
  | peersListed (offer : Nat) (hash : AnnHash) (waits : self.offers offer = ⟨hash, none⟩) :
      Effect self (.listPeers offer)
        { self with offers := Function.update self.offers offer ⟨hash, some self.peers⟩ }
  | passed (offer : Nat) (hash : AnnHash) (conn : ConnId) (rest : List ConnId)
      (waits : self.offers offer = ⟨hash, some (conn :: rest)⟩)
      (passes : (self.conns conn).peerType ≠ .incoming ∨ (self.conns conn).task = .closed) :
      Effect self (.offerNext offer)
        { self with offers := Function.update self.offers offer ⟨hash, some rest⟩ }
  | offered (offer : Nat) (hash : AnnHash) (conn : ConnId) (rest : List ConnId)
      (waits : self.offers offer = ⟨hash, some (conn :: rest)⟩)
      (incoming : (self.conns conn).peerType = .incoming)
      (isOpen : (self.conns conn).task ≠ .closed)
      (room : (self.conns conn).msgQueue.length < queueSize) :
      Effect self (.offerNext offer) (State.setPeer conn
        ((self.conns conn).push ⟨0, .inv [sentHash hash]⟩)
        { self with offers := Function.update self.offers offer ⟨hash, some rest⟩ })
  | timedOut (now : Nat) (pings : Pings) (idle : self.pings = ⟨[], none, []⟩) :
      Effect self (.timeOut now) { self with pings := pings }
  | numbered (conn : ConnId) (rest dropList : List ConnId)
      (waits : self.pings = ⟨conn :: rest, none, dropList⟩) :
      Effect self .pingNext { self with
        pings := ⟨conn :: rest, some self.msgIdSeq, dropList⟩
        msgIdSeq := self.msgIdSeq + 1 }
  | pingPassed (seq : UInt64) (conn : ConnId) (rest dropList : List ConnId)
      (waits : self.pings = ⟨conn :: rest, some seq, dropList⟩)
      (isClosed : (self.conns conn).task = .closed) :
      Effect self .pingNext { self with pings := ⟨rest, none, dropList⟩ }
  | pinged (seq : UInt64) (conn : ConnId) (rest dropList : List ConnId)
      (waits : self.pings = ⟨conn :: rest, some seq, dropList⟩)
      (isOpen : (self.conns conn).task ≠ .closed)
      (room : (self.conns conn).msgQueue.length < queueSize) :
      Effect self .pingNext (State.setPeer conn ((self.conns conn).push ⟨seq, .ping⟩)
        { self with pings := ⟨rest, none, dropList⟩ })
  | pingDropped (seq : Option UInt64) (conn : ConnId) (rest : List ConnId)
      (waits : self.pings = ⟨[], seq, conn :: rest⟩) :
      Effect self .pingNext { self.dropPeer conn with pings := ⟨[], seq, rest⟩ }
  | taken (data : List UInt8) (rest : List (List UInt8)) (first : self.announces = data :: rest) :
      Effect self .takeAnnounce { self with announces := rest }

/-- A task that goes on changes its own peer, case by case of where it stands.

Proof: one case for each stage of the task. -/
theorem advance_effect {self next : State} {conn : ConnId}
    (stepped : self.advance conn = some next) : Effect self (.advance conn) next := by
  rw [State.advance] at stepped
  dsimp only at stepped
  cases stands : (self.conns conn).task with
  | ready stage =>
    rw [stands] at stepped
    dsimp only at stepped
    match stage with
    | .listing =>
      cases stepped
      exact .moved conn _ (.listed stands)
    | .inviting [] =>
      cases stepped
      exact .moved conn _ (.finished _ (.inl rfl) stands)
    | .inviting (hashes :: chunks) =>
      cases stepped
      exact .moved conn _ (.invited hashes chunks stands)
    | .requesting [] =>
      cases stepped
      exact .moved conn _ (.finished _ (.inr rfl) stands)
    | .requesting (hash :: hashes) =>
      rw [State.runStage] at stepped
      split_ifs at stepped with knows <;> cases stepped
      · exact .moved conn _ (.known hash hashes stands knows)
      · exact .requested conn hash hashes stands (Bool.eq_false_iff.mpr knows)
    | .serving => cases stepped
  | sending message next =>
    rw [stands] at stepped
    dsimp only at stepped
    split_ifs at stepped with room
    cases stepped
    exact .moved conn _ (.sent message next stands room)
  | announcing data =>
    rw [stands] at stepped
    dsimp only at stepped
    split_ifs at stepped with room
    cases stepped
    exact .announced conn data stands room
  | closed =>
    rw [stands] at stepped
    cases stepped

/-- The round of pings changes only itself and the peer whose turn it is. -/
theorem pingNext_effect {self next : State} (stepped : self.pingNext = some next) :
    Effect self .pingNext next := by
  rw [State.pingNext] at stepped
  dsimp only at stepped
  split at stepped
  · next conn rest dropList waits =>
    cases stepped
    exact .numbered conn rest dropList waits
  · next conn rest seq dropList waits =>
    split_ifs at stepped with isClosed room
    · cases stepped
      exact .pingPassed seq conn rest dropList waits isClosed
    · cases stepped
      exact .pinged seq conn rest dropList waits isClosed room
  · next seq conn rest waits =>
    cases stepped
    exact .pingDropped seq conn rest waits
  · cases stepped

/-- Every event has one of the effects.

Proof: one case for each event; an event that is not possible in the state leaves no next state. -/
theorem step_effect {self next : State} {event : Event} (stepped : step self event = some next) :
    Effect self event next := by
  cases event with
  | connect peerType now =>
    cases stepped
    exact .created peerType now
  | advance conn => exact advance_effect stepped
  | write conn =>
    rw [step, State.write] at stepped
    split at stepped
    · next stands first =>
      cases stepped
      exact .wrote conn _ _ stands first
    · cases stepped
  | read conn now message =>
    rw [step, State.read] at stepped
    split at stepped
    · next stands =>
      cases stepped
      exact .handled conn now message stands
    · cases stepped
  | disconnect conn =>
    rw [step, State.disconnect] at stepped
    split at stepped
    · next stands =>
      cases stepped
      exact .disconnected conn stands
    · cases stepped
  | dropPeer conn =>
    rw [step] at stepped
    split_ifs at stepped with isClosed
    cases stepped
    exact .dropped conn isClosed
  | addAnn hash binary =>
    cases stepped
    have listed_iff : (self.anns.annHashesOrdered.any fun other => other = hash) = true ↔
        hash ∈ self.anns.annHashesOrdered := by
      simp
    rw [State.addAnn]
    split_ifs with listed
    · exact .readded hash binary (listed_iff.mp listed)
    · exact .added hash binary (mt listed_iff.mpr listed)
  | delAnn hash =>
    cases stepped
    exact .deleted hash
  | listPeers offer =>
    rw [step, State.listPeers] at stepped
    split at stepped
    · next hash waits =>
      cases stepped
      exact .peersListed offer hash waits
    · cases stepped
  | offerNext offer =>
    rw [step, State.offerNext] at stepped
    dsimp only at stepped
    split at stepped
    · next hash conn rest waits =>
      split_ifs at stepped with passes room
      · cases stepped
        exact .passed offer hash conn rest waits passes
      · cases stepped
        obtain ⟨incoming, isOpen⟩ := not_or.mp passes
        exact .offered offer hash conn rest waits (not_not.mp incoming) isOpen room
    · cases stepped
  | timeOut now =>
    rw [step, State.timeOut] at stepped
    split at stepped
    · next idle =>
      cases stepped
      exact .timedOut now _ idle
    · cases stepped
  | pingNext => exact pingNext_effect stepped
  | takeAnnounce =>
    rw [step, State.takeAnnounce] at stepped
    split at stepped
    · next data rest first =>
      cases stepped
      exact .taken data rest first
    · cases stepped

/-- The connection whose task takes the step. -/
def Event.actor : Event → Option ConnId
  | .advance conn => some conn
  | .write conn => some conn
  | .read conn _ _ => some conn
  | .disconnect conn => some conn
  | _ => none

/-- What is put into the queue of a connection by another task: a ping, or a hash that is
offered to it next. -/
def Told (self : State) (conn : ConnId) (message : Message) : Prop :=
  message.data = .ping ∨ ∃ offer hash rest, message.data = .inv [sentHash hash] ∧
    self.offers offer = ⟨hash, some (conn :: rest)⟩ ∧ (self.conns conn).peerType = .incoming

/-- What an event does to one connection, and the connection afterwards. -/
inductive PeerChange (self : State) (conn : ConnId) : Event → Peer → Prop where
  | kept (event : Event) (elsewhere : event.actor ≠ some conn) :
      PeerChange self conn event (self.conns conn)
  | created (peerType : PeerType) (now : Nat) (new : conn = self.connCount) :
      PeerChange self conn (.connect peerType now)
        ⟨peerType, now, ∅, [], Peer.greeting peerType⟩
  | moved (peer : Peer) (moved : Moved self conn peer) : PeerChange self conn (.advance conn) peer
  | requested (hash : Snode.Msgpack.AnnHash) (hashes : List Snode.Msgpack.AnnHash)
      (stands : (self.conns conn).task = .ready (.requesting (hash :: hashes)))
      (unknown : hashKnown self.anns hash = false) :
      PeerChange self conn (.advance conn) { self.conns conn with
        outstandingReqs := insert self.msgIdSeq (self.conns conn).outstandingReqs
        task := .sending ⟨self.msgIdSeq, .getData hash⟩ (.requesting hashes) }
  | announced (data : List UInt8) (stands : (self.conns conn).task = .announcing data) :
      PeerChange self conn (.advance conn) { self.conns conn with task := .ready .serving }
  | wrote (message : Message) (queue : List Message)
      (stands : (self.conns conn).task = .ready .serving)
      (first : (self.conns conn).msgQueue = message :: queue) :
      PeerChange self conn (.write conn) { self.conns conn with msgQueue := queue }
  | handled (now : Nat) (message : Message) (stands : (self.conns conn).task = .ready .serving) :
      PeerChange self conn (.read conn now message)
        ((self.conns conn).handleMessage self.anns now message)
  | disconnected (stands : (self.conns conn).task = .ready .serving) :
      PeerChange self conn (.disconnect conn) (self.conns conn).close
  | pushed (event : Event) (message : Message) (elsewhere : event.actor = none)
      (told : Told self conn message)
      (isOpen : (self.conns conn).task ≠ .closed)
      (room : (self.conns conn).msgQueue.length < queueSize) :
      PeerChange self conn event ((self.conns conn).push message)

/-- A change of one connection is no change of the others. -/
theorem PeerChange.of_setPeer {self : State} {event : Event} {changed conn : ConnId} {peer : Peer}
    (actor : event.actor = some changed ∨ event.actor = none)
    (change : PeerChange self changed event peer) :
    PeerChange self conn event (Function.update self.conns changed peer conn) := by
  by_cases same : conn = changed
  · subst same
    rw [Function.update_self]
    exact change
  · rw [Function.update_of_ne same]
    refine .kept event fun acts => same ?_
    rcases actor with acting | nobody
    · exact Option.some.inj (acts.symm.trans acting)
    · cases nobody.symm.trans acts

/-- An effect is a change of every connection. -/
theorem Effect.change {self next : State} {event : Event} (effect : Effect self event next)
    (conn : ConnId) : PeerChange self conn event (next.conns conn) := by
  cases effect with
  | created peerType now => exact .of_setPeer (.inr rfl) (.created peerType now rfl)
  | moved changed peer moved => exact .of_setPeer (.inl rfl) (.moved peer moved)
  | requested changed hash hashes stands unknown =>
    exact .of_setPeer (.inl rfl) (.requested hash hashes stands unknown)
  | announced changed data stands room =>
    exact .of_setPeer (.inl rfl) (.announced data stands)
  | wrote changed message queue stands first =>
    exact .of_setPeer (.inl rfl) (.wrote message queue stands first)
  | handled changed now message stands =>
    exact .of_setPeer (.inl rfl) (.handled now message stands)
  | disconnected changed stands => exact .of_setPeer (.inl rfl) (.disconnected stands)
  | offered offer hash changed rest waits incoming isOpen room =>
    exact .of_setPeer (.inr rfl)
      (.pushed _ _ rfl (.inr ⟨offer, hash, rest, rfl, waits, incoming⟩) isOpen room)
  | pinged seq changed rest dropList waits isOpen room =>
    exact .of_setPeer (.inr rfl) (.pushed _ _ rfl (.inl rfl) isOpen room)
  | _ => exact .kept _ nofun

/-- Connections that were not made yet are unused. -/
def State.Unborn (self : State) : Prop := ∀ conn, self.connCount ≤ conn → self.conns conn = .unused

/-- No connection is ever forgotten. -/
theorem Effect.connCount {self next : State} {event : Event} (effect : Effect self event next) :
    self.connCount ≤ next.connCount := by
  cases effect with
  | created peerType now => exact Nat.le_succ _
  | _ => exact Nat.le_refl _

/-- A change of a connection that is closed is none, or it is made. -/
theorem PeerChange.of_closed {self : State} {conn : ConnId} {event : Event} {peer : Peer}
    (change : PeerChange self conn event peer) (isClosed : (self.conns conn).task = .closed) :
    peer = self.conns conn ∨
      ∃ peerType now, event = .connect peerType now ∧ conn = self.connCount := by
  cases change with
  | kept event elsewhere => exact .inl rfl
  | created peerType now new => exact .inr ⟨peerType, now, rfl, new⟩
  | moved peer moved => cases moved <;> cases isClosed.symm.trans ‹_›
  | pushed event message elsewhere told isOpen room => exact absurd isClosed isOpen
  | _ => cases isClosed.symm.trans ‹_›

/-- A connection that was never made stays as it was at first. -/
theorem unborn_step {self next : State} {event : Event} (unborn : self.Unborn)
    (stepped : step self event = some next) : next.Unborn := by
  intro conn unmade
  have effect := step_effect stepped
  have unused := unborn conn (Nat.le_trans effect.connCount unmade)
  rcases (effect.change conn).of_closed (by rw [unused]; rfl) with same | ⟨_, _, rfl, made⟩
  · rw [same, unused]
  · cases stepped
    rw [made] at unmade
    exact absurd unmade (Nat.not_succ_le_self _)

end RouteServer.Peers
