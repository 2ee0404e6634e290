import Mathlib.Data.List.Perm.Basic
import RouteServer.Peers.Requests

/-!
# Two route servers and a connection between them

One server connected to the other, and what one end of the connection writes is read at the
other end in the same order. Otherwise both are any route servers: they have any other
connections, on which they read anything, and they learn and forget announcements at any time.

What an end has not written yet is in its queue, or is the message that its task waits to put
there. A task that moves on, and a task elsewhere that sends to the connection, only add to it.
-/

namespace RouteServer.Peers

open Ann Machine.System
open Snode.Msgpack (Message MessageData)

/-- The two servers, and the messages on their way. -/
structure Link where
  left : State
  right : State
  toRight : List Message
  toLeft : List Message

/-- What happens to the servers, other than that an end of the connection reads a message. -/
inductive LinkEvent where
  | left (event : Event)
  | right (event : Event)
  | readLeft (now : Nat)
  | readRight (now : Nat)

/-- The message that an event writes on a connection. -/
def written (conn : ConnId) (self : State) : Event → List Message
  | .write changed => if changed = conn then (self.conns conn).msgQueue.take 1 else []
  | _ => []

/-- A connection is made as one of its type, and reads from the other end only. -/
def permitted (conn : ConnId) (peerType : PeerType) (self : State) : Event → Bool
  | .read changed _ _ => changed ≠ conn
  | .connect made _ => self.connCount ≠ conn || made = peerType
  | _ => true

/-- One event. The left end, of the server that was connected to, is its connection `cl`; the
right end is the connection `cr` of the other. -/
def Link.step (cl cr : ConnId) (link : Link) : LinkEvent → Option Link
  | .left event =>
    if permitted cl .incoming link.left event then
      (Peers.step link.left event).map fun next =>
        { link with left := next, toRight := link.toRight ++ written cl link.left event }
    else none
  | .right event =>
    if permitted cr .outgoing link.right event then
      (Peers.step link.right event).map fun next =>
        { link with right := next, toLeft := link.toLeft ++ written cr link.right event }
    else none
  | .readLeft now =>
    match link.toLeft with
    | message :: rest =>
      (Peers.step link.left (.read cl now message)).map fun next =>
        { link with left := next, toLeft := rest }
    | [] => none
  | .readRight now =>
    match link.toRight with
    | message :: rest =>
      (Peers.step link.right (.read cr now message)).map fun next =>
        { link with right := next, toRight := rest }
    | [] => none

/-- Two servers that were just started. -/
def Link.new (seedLeft seedRight : UInt64) : Link := ⟨.new seedLeft, .new seedRight, [], []⟩

/-- The two servers as a machine. -/
def linked (cl cr : ConnId) (seedLeft seedRight : UInt64) : Machine.System Link LinkEvent where
  initial := Link.new seedLeft seedRight
  step := Link.step cl cr

/-- The message that a task waits to put into its queue. -/
def Task.pending : Task → List Message
  | .sending message _ => [message]
  | _ => []

/-- What a connection has not written yet. -/
def Peer.unwritten (peer : Peer) : List Message := peer.msgQueue ++ peer.task.pending

/-- The messages on their way to the right end, from the left task on. -/
def Link.down (cl : ConnId) (link : Link) : List Message :=
  link.toRight ++ (link.left.conns cl).unwritten

/-- The messages on their way to the left end, from the right task on. -/
def Link.up (cr : ConnId) (link : Link) : List Message :=
  link.toLeft ++ (link.right.conns cr).unwritten

/-- What an event adds to what a connection has to write, other than replies. -/
inductive Emitted (self : State) (conn : ConnId) : Event → List Message → Prop where
  | nothing (event : Event) (quiet : requestOf conn self event = []) :
      Emitted self conn event []
  | greeting (peerType : PeerType) (now : Nat) (new : conn = self.connCount) :
      Emitted self conn (.connect peerType now) (Peer.greeting peerType).pending
  | invitation (hashes : List Snode.Msgpack.AnnHash) (chunks : List (List Snode.Msgpack.AnnHash))
      (stands : (self.conns conn).task = .ready (.inviting (hashes :: chunks))) :
      Emitted self conn (.advance conn) [⟨0, .inv hashes⟩]
  | request (hash : Snode.Msgpack.AnnHash) (hashes : List Snode.Msgpack.AnnHash)
      (stands : (self.conns conn).task = .ready (.requesting (hash :: hashes)))
      (unknown : hashKnown self.anns hash = false) :
      Emitted self conn (.advance conn) [⟨self.msgIdSeq, .getData hash⟩]
  | pushed (event : Event) (message : Message) (elsewhere : event.actor = none)
      (told : Told self conn message) :
      Emitted self conn event [message]

/-- Nothing is written to a connection by the steps of others. -/
theorem written_elsewhere {conn : ConnId} {event : Event} (elsewhere : event.actor ≠ some conn)
    (self : State) : written conn self event = [] := by
  cases event with
  | write changed => exact if_neg fun same => elsewhere (congrArg some same)
  | _ => rfl

/-- A task that only moves asks for nothing. -/
theorem Moved.requestOf_nil {self : State} {conn : ConnId} {peer : Peer}
    (moved : Moved self conn peer) : requestOf conn self (.advance conn) = [] := by
  rw [requestOf, if_pos rfl, moved.asked_nil]

/-- A task that moves on puts the message it waited for into the queue, or waits for the next. -/
theorem Moved.unwritten {self : State} {conn : ConnId} {peer : Peer}
    (moved : Moved self conn peer) : ∃ added,
      peer.unwritten = (self.conns conn).unwritten ++ added ∧
        Emitted self conn (.advance conn) added := by
  have quiet := moved.requestOf_nil
  cases moved with
  | listed stands =>
    refine ⟨[], ?_, .nothing _ quiet⟩
    rw [Peer.unwritten, Peer.unwritten, stands]
    simp [Task.pending]
  | invited hashes chunks stands =>
    refine ⟨_, ?_, .invitation hashes chunks stands⟩
    rw [Peer.unwritten, Peer.unwritten, stands]
    simp [Task.pending]
  | finished stage ended stands =>
    refine ⟨[], ?_, .nothing _ quiet⟩
    rw [Peer.unwritten, Peer.unwritten, stands]
    simp [Task.pending]
  | known hash hashes stands knows =>
    refine ⟨[], ?_, .nothing _ quiet⟩
    rw [Peer.unwritten, Peer.unwritten, stands]
    simp [Task.pending]
  | sent message next stands room =>
    refine ⟨[], ?_, .nothing _ quiet⟩
    rw [Peer.unwritten, Peer.unwritten, stands]
    simp [Task.pending, Peer.push]

/-- What an event does to what a connection has to write: some is written, some is added, or
all is lost with the connection.

Proof: one case for each change. -/
theorem PeerChange.unwritten {self : State} {conn : ConnId} {event : Event} {peer : Peer}
    (change : PeerChange self conn event peer) (unborn : self.Unborn)
    (silent : ∀ now message, event ≠ .read conn now message) :
    (event = .disconnect conn ∧ peer.unwritten = []) ∨
      ∃ added, (written conn self event ++ peer.unwritten).Perm
        ((self.conns conn).unwritten ++ added) ∧ Emitted self conn event added := by
  cases change with
  | kept event elsewhere =>
    refine .inr ⟨[], ?_, .nothing event (shows_nothing elsewhere self).1⟩
    rw [written_elsewhere elsewhere, List.nil_append, List.append_nil]
  | created peerType now new =>
    refine .inr ⟨_, ?_, .greeting peerType now new⟩
    rw [unborn conn (Nat.le_of_eq new.symm)]
    exact List.Perm.refl _
  | moved peer moved =>
    obtain ⟨added, same, emitted⟩ := moved.unwritten
    exact .inr ⟨added, List.Perm.of_eq same, emitted⟩
  | requested hash hashes stands unknown =>
    refine .inr ⟨_, ?_, .request hash hashes stands unknown⟩
    rw [Peer.unwritten, Peer.unwritten, stands]
    simp [written, Task.pending]
  | announced data stands =>
    refine .inr ⟨[], ?_, .nothing _ ?_⟩
    · rw [Peer.unwritten, Peer.unwritten, stands]
      simp [written, Task.pending]
    · rw [requestOf, if_pos rfl, asked, stands]
  | wrote message queue stands first =>
    refine .inr ⟨[], ?_, .nothing _ rfl⟩
    rw [Peer.unwritten, Peer.unwritten, stands]
    simp [written, Task.pending, first]
  | handled now message stands => exact absurd rfl (silent now message)
  | disconnected stands => exact .inl ⟨rfl, rfl⟩
  | pushed event message elsewhere told isOpen room =>
    refine .inr ⟨[message], ?_, .pushed event message elsewhere told⟩
    rw [written_elsewhere (by simp [elsewhere]), List.nil_append]
    simp only [Peer.unwritten, Peer.push, List.append_assoc]
    exact (List.perm_append_comm).append_left _

/-- What is replied to a message. -/
def replies (anns : Snode.AnnList) (message : Message) : List Message :=
  match message.data with
  | .getData hash => [⟨message.id, .data ((get anns hash).getD [])⟩]
  | .ping => [⟨message.id, .ack⟩]
  | _ => []

/-- What handling a message does to what a connection has to write: a reply is added, or all is
lost with the connection.

Proof: one case for each kind of message, with the branches of its handler. -/
theorem handleMessage_unwritten {peer : Peer} (stands : peer.task = .ready .serving)
    (anns : Snode.AnnList) (now : Nat) (message : Message) :
    ((peer.handleMessage anns now message).task = .closed ∧
      (peer.handleMessage anns now message).unwritten = []) ∨
      (peer.handleMessage anns now message).unwritten =
        peer.unwritten ++ replies anns message := by
  rw [Peer.handleMessage, replies]
  dsimp only
  cases message.data with
  | data data =>
    dsimp only
    split_ifs
    · exact .inr (by simp [Peer.unwritten, stands, Task.pending])
    · exact .inl ⟨rfl, rfl⟩
    · exact .inr (by simp [Peer.unwritten, stands, Task.pending])
  | inv hashes =>
    dsimp only
    split_ifs
    · exact .inr (by simp [Peer.unwritten, stands, Task.pending])
    · exact .inr (by simp [Peer.unwritten, stands, Task.pending])
  | hello number =>
    dsimp only
    split_ifs
    · exact .inr (by simp [Peer.unwritten, stands, Task.pending])
    · exact .inl ⟨rfl, rfl⟩
  | olleh number =>
    dsimp only
    split_ifs
    · exact .inl ⟨rfl, rfl⟩
    · exact .inr (by simp [Peer.unwritten, stands, Task.pending])
  | getData hash => exact .inr (by simp [Peer.unwritten, stands, Task.pending])
  | ping => exact .inr (by simp [Peer.unwritten, stands, Task.pending])
  | ack => exact .inr (by simp [Peer.unwritten, stands, Task.pending])

/-- When handling a message ends in an error. -/
theorem handleMessage_closed_iff {peer : Peer} (stands : peer.task = .ready .serving)
    (anns : Snode.AnnList) (now : Nat) (message : Message) :
    (peer.handleMessage anns now message).task = .closed ↔
      (∃ number, message.data = .hello number ∧ peer.peerType = .incoming) ∨
        (∃ number, message.data = .olleh number ∧ peer.peerType = .outgoing) ∨
          ∃ data, message.data = .data data ∧ peer.peerType = .outgoing ∧
            message.id ∉ peer.outstandingReqs := by
  rw [Peer.handleMessage]
  dsimp only
  cases kind : message.data <;> cases role : peer.peerType <;>
    simp [Peer.close, stands, apply_ite Peer.task]

/-- Of what was on its way some is kept, and what the event emits is added. -/
theorem PeerChange.stream {self : State} {conn : ConnId} {event : Event} {peer : Peer}
    (change : PeerChange self conn event peer) (unborn : self.Unborn)
    (silent : ∀ now message, event ≠ .read conn now message) (wire : List Message) :
    ∃ kept added, kept.Sublist (wire ++ (self.conns conn).unwritten) ∧
      (wire ++ written conn self event ++ peer.unwritten).Perm (kept ++ added) ∧
        Emitted self conn event added := by
  rcases change.unwritten unborn silent with ⟨rfl, lost⟩ | ⟨added, perm, emitted⟩
  · refine ⟨wire, [], List.sublist_append_left _ _, ?_, .nothing _ rfl⟩
    rw [lost, List.append_nil]
    exact List.Perm.refl _
  · refine ⟨_, added, List.Sublist.refl _, ?_, emitted⟩
    rw [List.append_assoc, List.append_assoc]
    exact perm.append_left wire

/-- The same when a message is read. -/
theorem handleMessage_stream {peer : Peer} (stands : peer.task = .ready .serving)
    (anns : Snode.AnnList) (now : Nat) (message : Message) (wire : List Message) :
    ∃ kept added, kept.Sublist (wire ++ peer.unwritten) ∧
      wire ++ (peer.handleMessage anns now message).unwritten = kept ++ added ∧
        (added = [] ∨ added = replies anns message) := by
  rcases handleMessage_unwritten stands anns now message with ⟨_, lost⟩ | replied
  · exact ⟨wire, [], List.sublist_append_left _ _, by rw [lost], .inl rfl⟩
  · exact ⟨_, _, List.Sublist.refl _, by rw [replied, List.append_assoc], .inr rfl⟩

/-- A connection is of a type, once it is made. -/
def Typed (conn : ConnId) (peerType : PeerType) (self : State) : Prop :=
  conn < self.connCount → (self.conns conn).peerType = peerType

/-- A message does not change the type of a peer. -/
theorem handleMessage_peerType (peer : Peer) (anns : Snode.AnnList) (now : Nat)
    (message : Message) : (peer.handleMessage anns now message).peerType = peer.peerType := by
  rw [Peer.handleMessage]
  dsimp only
  cases message.data <;> simp [Peer.close, apply_ite Peer.peerType]

/-- A connection keeps its type. -/
theorem PeerChange.peerType_eq {self : State} {conn : ConnId} {event : Event} {peer : Peer}
    (change : PeerChange self conn event peer)
    (made : ∀ peerType now, event ≠ .connect peerType now) :
    peer.peerType = (self.conns conn).peerType := by
  cases change with
  | created peerType now new => exact absurd rfl (made peerType now)
  | moved peer moved => cases moved <;> rfl
  | handled now message stands => exact handleMessage_peerType _ _ _ _
  | _ => rfl

/-- Only a new connection adds to their number. -/
theorem Effect.connCount_eq {self next : State} {event : Event} (effect : Effect self event next)
    (made : ∀ peerType now, event ≠ .connect peerType now) : next.connCount = self.connCount := by
  cases effect with
  | created peerType now => exact absurd rfl (made peerType now)
  | _ => rfl

/-- A connection keeps its type. -/
theorem typed_step {self next : State} {event : Event} {conn : ConnId} {peerType : PeerType}
    (typed : Typed conn peerType self) (stepped : step self event = some next)
    (fits : ∀ made now, event = .connect made now → self.connCount = conn → made = peerType) :
    Typed conn peerType next := by
  intro made
  by_cases connects : ∃ peerType now, event = .connect peerType now
  · obtain ⟨role, now, rfl⟩ := connects
    cases stepped
    by_cases same : conn = self.connCount
    · simp only [State.createPeer, same, Function.update_self]
      exact fits role now rfl same.symm
    · simp only [State.createPeer, Function.update_of_ne same]
      exact typed (Nat.lt_of_le_of_ne (Nat.lt_succ_iff.mp made) same)
  · have other (role : PeerType) (now : Nat) : event ≠ .connect role now :=
      fun same => connects ⟨role, now, same⟩
    have effect := step_effect stepped
    rw [(effect.change conn).peerType_eq other]
    exact typed (effect.connCount_eq other ▸ made)

/-- What is emitted greets as the connection was made. -/
theorem Emitted.greets {self : State} {conn : ConnId} {event : Event} {added : List Message}
    {peerType : PeerType} (emitted : Emitted self conn event added)
    (permits : permitted conn peerType self event = true) {message : Message}
    (among : message ∈ added) (number : UInt64) :
    (message.data = .hello number → peerType = .incoming) ∧
      (message.data = .olleh number → peerType = .outgoing) := by
  cases emitted with
  | nothing event quiet => cases among
  | greeting made now new =>
    have same : made = peerType := by simpa [permitted, new] using permits
    subst same
    cases made
    · rw [List.mem_singleton.mp among]
      exact ⟨fun _ => rfl, nofun⟩
    · rw [List.mem_singleton.mp among]
      exact ⟨nofun, fun _ => rfl⟩
  | invitation hashes chunks stands =>
    rw [List.mem_singleton.mp among]
    exact ⟨nofun, nofun⟩
  | request hash hashes stands unknown =>
    rw [List.mem_singleton.mp among]
    exact ⟨nofun, nofun⟩
  | pushed event pushed elsewhere told =>
    rw [List.mem_singleton.mp among]
    rcases told with data | ⟨_, _, _, data, _⟩ <;> rw [data] <;> exact ⟨nofun, nofun⟩

/-- A reply asks for nothing. -/
theorem replies_ask_not (anns : Snode.AnnList) (message : Message) {reply : Message}
    (among : reply ∈ replies anns message) (hash : Snode.Msgpack.AnnHash) :
    reply.data ≠ .getData hash := by
  rw [replies] at among
  split at among
  · rw [List.mem_singleton.mp among]
    exact nofun
  · rw [List.mem_singleton.mp among]
    exact nofun
  · cases among

/-- A reply is no greeting. -/
theorem replies_greet_not (anns : Snode.AnnList) (message : Message) {reply : Message}
    (among : reply ∈ replies anns message) (number : UInt64) :
    reply.data ≠ .hello number ∧ reply.data ≠ .olleh number := by
  rw [replies] at among
  split at among
  · rw [List.mem_singleton.mp among]
    exact ⟨nofun, nofun⟩
  · rw [List.mem_singleton.mp among]
    exact ⟨nofun, nofun⟩
  · cases among

/-- The steps of the server on the right. -/
def rightSteps (cr : ConnId) (link : Link) : LinkEvent → List Event
  | .right event => [event]
  | .readRight now => (link.toRight.take 1).map (.read cr now)
  | _ => []

section Steps

variable {cl cr : ConnId} {link next : Link}

/-- What one event does: a server takes a step, or the next message is read at one end. -/
inductive LinkEffect (cl cr : ConnId) (link : Link) : LinkEvent → Link → Prop where
  | left (event : Event) (server : State) (permits : permitted cl .incoming link.left event = true)
      (stepped : Peers.step link.left event = some server) :
      LinkEffect cl cr link (.left event)
        { link with left := server, toRight := link.toRight ++ written cl link.left event }
  | right (event : Event) (server : State)
      (permits : permitted cr .outgoing link.right event = true)
      (stepped : Peers.step link.right event = some server) :
      LinkEffect cl cr link (.right event)
        { link with right := server, toLeft := link.toLeft ++ written cr link.right event }
  | readLeft (now : Nat) (message : Message) (rest : List Message)
      (first : link.toLeft = message :: rest)
      (stands : (link.left.conns cl).task = .ready .serving) :
      LinkEffect cl cr link (.readLeft now) { link with
        left := link.left.setPeer cl ((link.left.conns cl).handleMessage link.left.anns now message)
        toLeft := rest }
  | readRight (now : Nat) (message : Message) (rest : List Message)
      (first : link.toRight = message :: rest)
      (stands : (link.right.conns cr).task = .ready .serving) :
      LinkEffect cl cr link (.readRight now) { link with
        right :=
          link.right.setPeer cr ((link.right.conns cr).handleMessage link.right.anns now message)
        toRight := rest }

/-- A message is read by a task that waits for messages. -/
theorem read_eq {self server : State} {conn : ConnId} {now : Nat} {message : Message}
    (stepped : Peers.step self (.read conn now message) = some server) :
    (self.conns conn).task = .ready .serving ∧
      server = self.setPeer conn ((self.conns conn).handleMessage self.anns now message) := by
  cases step_effect stepped with
  | handled conn now message stands => exact ⟨stands, rfl⟩

/-- A peer that serves reads any message. -/
theorem read_step {self : State} {conn : ConnId}
    (stands : (self.conns conn).task = .ready .serving) (now : Nat) (message : Message) :
    Peers.step self (.read conn now message) =
      some (self.setPeer conn ((self.conns conn).handleMessage self.anns now message)) := by
  rw [Peers.step, State.read, stands]

/-- What a step of the link changes, event by event.

Proof: one case for each event of the link: a step of one of the servers, or one end reading
what the other has written. -/
theorem link_effect {event : LinkEvent} (stepped : link.step cl cr event = some next) :
    LinkEffect cl cr link event next := by
  cases event with
  | left event =>
    rw [Link.step] at stepped
    split_ifs at stepped with permits
    obtain ⟨server, possible, rfl⟩ := Option.map_eq_some_iff.mp stepped
    exact .left event server permits possible
  | right event =>
    rw [Link.step] at stepped
    split_ifs at stepped with permits
    obtain ⟨server, possible, rfl⟩ := Option.map_eq_some_iff.mp stepped
    exact .right event server permits possible
  | readLeft now =>
    rw [Link.step] at stepped
    split at stepped
    · next message rest first =>
      obtain ⟨server, possible, rfl⟩ := Option.map_eq_some_iff.mp stepped
      obtain ⟨stands, rfl⟩ := read_eq possible
      exact .readLeft now message rest first stands
    · cases stepped
  | readRight now =>
    rw [Link.step] at stepped
    split at stepped
    · next message rest first =>
      obtain ⟨server, possible, rfl⟩ := Option.map_eq_some_iff.mp stepped
      obtain ⟨stands, rfl⟩ := read_eq possible
      exact .readRight now message rest first stands
    · cases stepped

/-- The server on the right takes its steps. -/
theorem right_steps {seedLeft seedRight : UInt64} {event : LinkEvent}
    (stepped : (linked cl cr seedLeft seedRight).step link event = some next) :
    (peers seedRight).run link.right (rightSteps cr link event) = some next.right := by
  cases link_effect stepped with
  | left event server permits possible => rfl
  | right event server permits possible =>
    rw [rightSteps, run_singleton]
    exact possible
  | readLeft now message rest first stands => rfl
  | readRight now message rest first stands =>
    rw [rightSteps, first, List.take_succ_cons, List.take_zero, List.map_singleton, run_singleton]
    exact read_step stands now message

/-- The servers do not read by themselves on the linked connection. -/
theorem permitted_silent {self : State} {conn : ConnId} {peerType : PeerType} {event : Event}
    (permits : permitted conn peerType self event = true) (now : Nat) (message : Message) :
    event ≠ .read conn now message := by
  rintro rfl
  simp [permitted] at permits

/-- The linked connection is made with its own type. -/
theorem permitted_fits {self : State} {conn : ConnId} {peerType made : PeerType} {event : Event}
    (permits : permitted conn peerType self event = true) {now : Nat}
    (connects : event = .connect made now) (new : self.connCount = conn) : made = peerType := by
  subst connects
  simpa [permitted, new] using permits

end Steps

section Run

variable {cl cr : ConnId} {seedLeft seedRight : UInt64}

/-- The steps of the server on the right in a run of both. -/
def rightEvents (cl cr : ConnId) (seedLeft seedRight : UInt64) (events : List LinkEvent) :
    List Event :=
  (linked cl cr seedLeft seedRight).shown (rightSteps cr) (Link.new seedLeft seedRight) events

/-- The requests that the server on the right has made on the connection. -/
def requestsMade (cl cr : ConnId) (seedLeft seedRight : UInt64) (events : List LinkEvent) :
    List (UInt64 × Snode.Msgpack.AnnHash) :=
  (peers seedRight).shown (requestOf cr) (State.new seedRight)
    (rightEvents cl cr seedLeft seedRight events)

/-- The answers that it has accepted. -/
def answersAccepted (cl cr : ConnId) (seedLeft seedRight : UInt64) (events : List LinkEvent) :
    List (UInt64 × List UInt8) :=
  (peers seedRight).shown (answerOf cr) (State.new seedRight)
    (rightEvents cl cr seedLeft seedRight events)

variable {events : List LinkEvent} {last : Link}

/-- What the right server does on the link is a run of its own. -/
theorem right_ran
    (ran : (linked cl cr seedLeft seedRight).run (Link.new seedLeft seedRight) events =
      some last) :
    (peers seedRight).run (State.new seedRight) (rightEvents cl cr seedLeft seedRight events) =
      some last.right :=
  run_part (fun _ _ _ possible => right_steps possible) ran

/-- The run of the right server is no longer than that of the link. -/
theorem rightEvents_short (short : events.length ≤ 2 ^ 64) :
    (rightEvents cl cr seedLeft seedRight events).length ≤ 2 ^ 64 := by
  refine Nat.le_trans (length_shown_le (fun link event => ?_) _ events) short
  cases event with
  | readRight now =>
    rw [rightSteps, List.length_map]
    exact List.length_take_le 1 _
  | _ => simp [rightSteps]

/-- Connections that were never made are as at first on both sides. -/
theorem unborn_of_linked
    (ran : (linked cl cr seedLeft seedRight).run (Link.new seedLeft seedRight) events =
      some last) : last.left.Unborn ∧ last.right.Unborn := by
  have keeps (link : Link) (event : LinkEvent) (next : Link)
      (unborn : link.left.Unborn ∧ link.right.Unborn)
      (possible : (linked cl cr seedLeft seedRight).step link event = some next) :
      next.left.Unborn ∧ next.right.Unborn := by
    cases link_effect possible with
    | left event server permits stepped => exact ⟨unborn_step unborn.1 stepped, unborn.2⟩
    | right event server permits stepped => exact ⟨unborn.1, unborn_step unborn.2 stepped⟩
    | readLeft now message rest first stands =>
      exact ⟨unborn_step unborn.1 (read_step stands now message), unborn.2⟩
    | readRight now message rest first stands =>
      exact ⟨unborn.1, unborn_step unborn.2 (read_step stands now message)⟩
  have start : (Link.new seedLeft seedRight).left.Unborn ∧
      (Link.new seedLeft seedRight).right.Unborn := ⟨fun _ _ => rfl, fun _ _ => rfl⟩
  exact run_keeps keeps ran start

/-- What the server on the right shows in a run that goes one step further. -/
theorem shown_right_snoc {ω : Type} (shows : State → Event → List ω) {before : List LinkEvent}
    {link next : Link} {event : LinkEvent}
    (reached : (linked cl cr seedLeft seedRight).run (Link.new seedLeft seedRight) before =
      some link) (possible : (linked cl cr seedLeft seedRight).step link event = some next) :
    (peers seedRight).shown shows (State.new seedRight)
        (rightEvents cl cr seedLeft seedRight (before ++ [event])) =
      (peers seedRight).shown shows (State.new seedRight)
          (rightEvents cl cr seedLeft seedRight before) ++
        (peers seedRight).shown shows link.right (rightSteps cr link event) := by
  have longer : rightEvents cl cr seedLeft seedRight (before ++ [event]) =
      rightEvents cl cr seedLeft seedRight before ++ rightSteps cr link event :=
    shown_snoc reached possible
  rw [longer, shown_append (right_ran reached)]

end Run

end RouteServer.Peers
