import RouteServer.Peers.Delivery

/-!
# Connections that stall

A queue never holds more than it is made for. A task that waits for room in its own queue is
the only one that takes messages out of it, so it waits for good, and with it every task that
waits for room in the same queue; the task that sends pings then pings and drops no connection
any more. An `INV` with more unknown hashes than there is room for always leads to this.

A connection that was silent for too long is taken off the list of peers but stays open. It is
told of no further announcement.
-/

namespace RouteServer.Peers

open Ann Machine.System
open Snode.Msgpack (Message MessageData)

/-- The queues hold no more than they are made for. -/
structure Bounded (state : State) : Prop where
  queues : ∀ conn, (state.conns conn).msgQueue.length ≤ queueSize
  announces : state.announces.length ≤ announceQueueSize

/-- A message that is read may take what waits in the queue out of it, but puts nothing in. -/
theorem handleMessage_queue (peer : Peer) (anns : Snode.AnnList) (now : Nat) (message : Message) :
    (peer.handleMessage anns now message).msgQueue.length ≤ peer.msgQueue.length := by
  rw [Peer.handleMessage]
  dsimp only
  cases message.data with
  | hello number =>
    dsimp only
    split_ifs
    · exact Nat.le_refl _
    · exact Nat.zero_le _
  | olleh number =>
    dsimp only
    split_ifs
    · exact Nat.zero_le _
    · exact Nat.le_refl _
  | inv hashes =>
    dsimp only
    split_ifs <;> exact Nat.le_refl _
  | data data =>
    dsimp only
    split_ifs
    · exact Nat.le_refl _
    · exact Nat.zero_le _
    · exact Nat.le_refl _
  | _ => exact Nat.le_refl _

/-- A queue that is not too long stays so, since what is put in waits for room. -/
theorem PeerChange.queue {self : State} {conn : ConnId} {event : Event} {peer : Peer}
    (change : PeerChange self conn event peer)
    (bounded : (self.conns conn).msgQueue.length ≤ queueSize) :
    peer.msgQueue.length ≤ queueSize := by
  have pushes (message : Message) (room : (self.conns conn).msgQueue.length < queueSize) :
      ((self.conns conn).msgQueue ++ [message]).length ≤ queueSize := by
    rw [List.length_append, List.length_singleton]
    exact room
  cases change with
  | created peerType now new => exact Nat.zero_le _
  | moved peer moved =>
    cases moved with
    | sent message next stands room => exact pushes message room
    | _ => exact bounded
  | wrote message queue stands first =>
    rw [first] at bounded
    exact Nat.le_of_succ_le bounded
  | handled now message stands => exact Nat.le_trans (handleMessage_queue _ _ _ _) bounded
  | disconnected stands => exact Nat.zero_le _
  | pushed event message elsewhere told isOpen room => exact pushes message room
  | _ => exact bounded

/-- No queue outgrows its bound in a step. -/
theorem Bounded.step {self next : State} {event : Event} (bounded : Bounded self)
    (stepped : step self event = some next) : Bounded next := by
  have effect := step_effect stepped
  refine ⟨fun conn => (effect.change conn).queue (bounded.queues conn), ?_⟩
  have before := bounded.announces
  cases effect with
  | announced conn data stands room =>
    rw [List.length_append, List.length_singleton]
    exact room
  | taken data rest first =>
    rw [first] at before
    exact Nat.le_of_succ_le before
  | _ => exact before

/-- A task waits for room in its own queue. -/
def Blocked (conn : ConnId) (self : State) : Prop :=
  (∃ message next, (self.conns conn).task = .sending message next) ∧
    queueSize ≤ (self.conns conn).msgQueue.length

/-- Where a task waits for room in its own queue nothing changes its peer. -/
theorem PeerChange.of_blocked {self : State} {conn : ConnId} {event : Event} {peer : Peer}
    (change : PeerChange self conn event peer) (unborn : self.Unborn)
    (blocked : Blocked conn self) : peer = self.conns conn := by
  obtain ⟨⟨message, next, waits⟩, full⟩ := blocked
  cases change with
  | kept event elsewhere => rfl
  | created peerType now new =>
    rw [unborn conn (Nat.le_of_eq new.symm)] at waits
    cases waits
  | moved peer moved =>
    cases moved with
    | sent message next stands room => omega
    | _ => cases waits.symm.trans ‹_›
  | pushed event message elsewhere told isOpen room => omega
  | _ => cases waits.symm.trans ‹_›

/-- What waits on a connection: an offer that comes to it next, and a ping that is being sent. -/
def OfferWaits (conn : ConnId) (self : State) (offer : Nat) : Prop :=
  ∃ hash rest, self.offers offer = ⟨hash, some (conn :: rest)⟩

def PingWaits (conn : ConnId) (self : State) : Prop :=
  ∃ seq rest dropList, self.pings = ⟨conn :: rest, some seq, dropList⟩

/-- A task that waits has not ended. -/
theorem Blocked.isOpen {conn : ConnId} {self : State} (blocked : Blocked conn self) :
    (self.conns conn).task ≠ .closed := by
  obtain ⟨⟨message, next, waits⟩, _⟩ := blocked
  rw [waits]
  nofun

/-- An offer that waits for a blocked peer stays where it is. -/
theorem Effect.offers_of_blocked {self next : State} {event : Event}
    (effect : Effect self event next) (kept : self.Kept) {conn : ConnId}
    (blocked : Blocked conn self) (isIncoming : (self.conns conn).peerType = .incoming)
    {offer : Nat} (waits : OfferWaits conn self offer) : next.offers offer = self.offers offer := by
  obtain ⟨hash, rest, waits⟩ := waits
  cases effect with
  | added added binary fresh =>
    refine Function.update_of_ne ?_ _ _
    rintro rfl
    have none := kept.spare _ (Nat.le_refl _)
    rw [waits] at none
    cases none
  | peersListed changed other pending =>
    refine Function.update_of_ne ?_ _ _
    rintro rfl
    cases waits.symm.trans pending
  | passed changed other passedOver left pending passes =>
    refine Function.update_of_ne ?_ _ _
    rintro rfl
    cases waits.symm.trans pending
    exact passes.elim (fun outgoing => outgoing isIncoming) blocked.isOpen
  | offered changed other receiver left pending incoming isOpen room =>
    refine Function.update_of_ne ?_ _ _
    rintro rfl
    cases waits.symm.trans pending
    exact absurd room (Nat.not_lt_of_le blocked.2)
  | _ => rfl

/-- A round of pings that waits for a blocked peer stays where it is. -/
theorem Effect.pings_of_blocked {self next : State} {event : Event}
    (effect : Effect self event next) {conn : ConnId} (blocked : Blocked conn self)
    (waits : PingWaits conn self) : next.pings = self.pings := by
  obtain ⟨seq, rest, dropList, waits⟩ := waits
  cases effect with
  | timedOut now pings idle => cases waits.symm.trans idle
  | numbered other left drops pending => cases waits.symm.trans pending
  | pingPassed number other left drops pending isClosed =>
    cases waits.symm.trans pending
    exact absurd isClosed blocked.isOpen
  | pinged number other left drops pending isOpen room =>
    cases waits.symm.trans pending
    exact absurd room (Nat.not_lt_of_le blocked.2)
  | pingDropped number other left pending => cases waits.symm.trans pending
  | _ => rfl

section Run

variable {seed : UInt64} {before after : List Event} {state last : State}

/-- In every run of one server its list is consistent. -/
theorem kept_of_peers (ran : (peers seed).run (State.new seed) before = some state) :
    state.Kept := by
  have keeps (state : State) (event : Event) (next : State) (kept : state.Kept)
      (possible : (peers seed).step state event = some next) : next.Kept :=
    (step_effect possible).kept kept
  exact run_keeps keeps ran (new_kept seed)

/-- No queue outgrows its bound in a run. -/
theorem bounded_of_run (ran : (peers seed).run (State.new seed) before = some state) :
    Bounded state := by
  have keeps (state : State) (event : Event) (next : State) (bounded : Bounded state)
      (possible : (peers seed).step state event = some next) : Bounded next :=
    bounded.step possible
  exact run_keeps keeps ran ⟨fun _ => Nat.zero_le _, Nat.zero_le _⟩

/-- A task that waits for room in its own queue waits for good: whatever happens, the connection
stays as it is, and so does every offer and every round of pings that waits on it.

Proof: every step leaves a blocked peer as it is, and an offer or a round of pings that waits for
it cannot go on, so all of it holds to the end of the run. -/
theorem blocked_for_good {conn : ConnId}
    (reached : (peers seed).run (State.new seed) before = some state)
    (blocked : Blocked conn state) (ran : (peers seed).run state after = some last) :
    last.conns conn = state.conns conn ∧
      (∀ offer, OfferWaits conn state offer → (state.conns conn).peerType = .incoming →
        last.offers offer = state.offers offer) ∧
      (PingWaits conn state → last.pings = state.pings) := by
  have keeps (middle : State) (event : Event) (next : State)
      (holds : (middle.Unborn ∧ middle.Kept) ∧ middle.conns conn = state.conns conn ∧
        (∀ offer, OfferWaits conn state offer → (state.conns conn).peerType = .incoming →
          middle.offers offer = state.offers offer) ∧
        (PingWaits conn state → middle.pings = state.pings))
      (possible : (peers seed).step middle event = some next) :
      (next.Unborn ∧ next.Kept) ∧ next.conns conn = state.conns conn ∧
        (∀ offer, OfferWaits conn state offer → (state.conns conn).peerType = .incoming →
          next.offers offer = state.offers offer) ∧
        (PingWaits conn state → next.pings = state.pings) := by
    obtain ⟨⟨unborn, kept⟩, same, offers, pings⟩ := holds
    have effect := step_effect possible
    have stillBlocked : Blocked conn middle := by
      rw [Blocked, same]
      exact blocked
    refine ⟨⟨unborn_step unborn possible, effect.kept kept⟩,
      ((effect.change conn).of_blocked unborn stillBlocked).trans same,
      fun offer waits isIncoming => ?_, fun waits => ?_⟩
    · have unchanged := offers offer waits isIncoming
      refine (effect.offers_of_blocked kept stillBlocked (same ▸ isIncoming) ?_).trans unchanged
      rw [OfferWaits, unchanged]
      exact waits
    · have unchanged := pings waits
      refine (effect.pings_of_blocked stillBlocked ?_).trans unchanged
      rw [PingWaits, unchanged]
      exact waits
  exact (run_keeps keeps ran
    ⟨⟨unborn_of_run reached, kept_of_peers reached⟩, rfl, fun _ _ _ => rfl, fun _ => rfl⟩).2

end Run

/-- A task that asks for hashes and has at least so many messages in its queue or to come. -/
def Chokes (count : Nat) (peer : Peer) : Prop :=
  (∃ left, peer.task = .ready (.requesting left) ∧ count ≤ peer.msgQueue.length + left.length) ∨
    ∃ message left, peer.task = .sending message (.requesting left) ∧
      count ≤ peer.msgQueue.length + 1 + left.length

/-- The steps of others find nothing known for a connection. -/
theorem foundKnown_elsewhere {conn : ConnId} {event : Event} (elsewhere : event.actor ≠ some conn)
    (self : State) : foundKnown conn self event = [] := by
  cases event with
  | advance changed => exact if_neg fun same => elsewhere (congrArg some same)
  | _ => rfl

/-- A task with more to come than its queue holds goes on asking, and writes nothing.

Proof: one case for each change. A hash that is looked up leaves the list of the task: if it is
known it is counted, and if not it adds a message to the queue. -/
theorem PeerChange.chokes {self : State} {conn : ConnId} {event : Event} {peer : Peer}
    (change : PeerChange self conn event peer) (unborn : self.Unborn) {count : Nat}
    (bounded : (self.conns conn).msgQueue.length ≤ queueSize)
    (chokes : Chokes count (self.conns conn)) (many : queueSize < count) :
    Chokes (count - (foundKnown conn self event).length) peer ∧ written conn self event = [] := by
  have idle {task : Task} (stands : (self.conns conn).task = task)
      (other : ∀ left, task.stage ≠ some (.requesting left)) : False := by
    rcases chokes with ⟨left, asks, _⟩ | ⟨message, left, asks, _⟩
    · exact other left (by rw [← stands, asks]; rfl)
    · exact other left (by rw [← stands, asks]; rfl)
  cases change with
  | kept event elsewhere =>
    rw [foundKnown_elsewhere elsewhere]
    exact ⟨chokes, written_elsewhere elsewhere self⟩
  | created peerType now new =>
    have unused := unborn conn (Nat.le_of_eq new.symm)
    have none (left : List Snode.Msgpack.AnnHash) :
        Peer.unused.task.stage ≠ some (.requesting left) := by
      rintro ⟨⟩
    exact (idle (congrArg Peer.task unused) none).elim
  | moved peer moved =>
    refine ⟨?_, rfl⟩
    rw [foundKnown, if_pos rfl]
    cases moved with
    | listed stands => exact (idle stands (by rintro _ ⟨⟩)).elim
    | invited hashes chunks stands => exact (idle stands (by rintro _ ⟨⟩)).elim
    | finished stage ended stands =>
      rcases ended with rfl | rfl
      · exact (idle stands (by rintro _ ⟨⟩)).elim
      · rcases chokes with ⟨left, asks, more⟩ | ⟨message, left, asks, _⟩
        · cases stands.symm.trans asks
          rw [List.length_nil] at more
          omega
        · cases stands.symm.trans asks
    | known hash hashes stands knows =>
      rcases chokes with ⟨left, asks, more⟩ | ⟨message, left, asks, _⟩
      · cases stands.symm.trans asks
        rw [List.length_cons] at more
        simp only [stands, knows, if_true, List.length_singleton]
        exact .inl ⟨hashes, rfl, by dsimp only; omega⟩
      · cases stands.symm.trans asks
    | sent message next stands room =>
      rcases chokes with ⟨left, asks, _⟩ | ⟨message, left, asks, more⟩
      · cases stands.symm.trans asks
      · cases stands.symm.trans asks
        rw [stands]
        refine .inl ⟨left, rfl, ?_⟩
        simp only [Peer.push, List.length_append, List.length_singleton]
        exact more
  | requested hash hashes stands unknown =>
    refine ⟨?_, rfl⟩
    rcases chokes with ⟨left, asks, more⟩ | ⟨message, left, asks, _⟩
    · cases stands.symm.trans asks
      rw [List.length_cons] at more
      refine .inr ⟨_, hashes, rfl, ?_⟩
      simp only [foundKnown, stands, unknown, if_true]
      exact Nat.le_trans (Nat.sub_le _ _) (by omega)
    · cases stands.symm.trans asks
  | announced data stands => exact (idle stands (by rintro _ ⟨⟩)).elim
  | wrote message queue stands first => exact (idle stands (by rintro _ ⟨⟩)).elim
  | handled now message stands => exact (idle stands (by rintro _ ⟨⟩)).elim
  | disconnected stands => exact (idle stands (by rintro _ ⟨⟩)).elim
  | pushed event message elsewhere told isOpen room =>
    have other : event.actor ≠ some conn := by
      rw [elsewhere]
      rintro ⟨⟩
    rw [foundKnown_elsewhere other]
    refine ⟨?_, written_elsewhere other self⟩
    simp only [Chokes, Peer.push, List.length_append, List.length_singleton]
    rcases chokes with ⟨left, asks, more⟩ | ⟨message, left, asks, more⟩
    · exact .inl ⟨left, asks, by rw [List.length_nil]; omega⟩
    · exact .inr ⟨message, left, asks, by rw [List.length_nil]; omega⟩

section Run

variable {seed : UInt64} {before after : List Event} {state last : State}

/-- As long as fewer hashes are found to be known than there are too many, the task goes on asking
and writes nothing, by induction on the run. -/
theorem chokes_of_run {conn : ConnId} {count : Nat}
    (reached : (peers seed).run (State.new seed) before = some state)
    (chokes : Chokes count (state.conns conn))
    (ran : (peers seed).run state after = some last)
    (many : queueSize + ((peers seed).shown (foundKnown conn) state after).length < count) :
    Chokes (count - ((peers seed).shown (foundKnown conn) state after).length) (last.conns conn) ∧
      (peers seed).shown (written conn) state after = [] := by
  revert many
  refine run_history (fun after middle =>
    queueSize + ((peers seed).shown (foundKnown conn) state after).length < count →
      Chokes (count - ((peers seed).shown (foundKnown conn) state after).length)
          (middle.conns conn) ∧
        (peers seed).shown (written conn) state after = []) ?_ ?_ ran
  · exact fun _ => ⟨chokes, rfl⟩
  intro earlier middle event next toMiddle still possible many
  rw [shown_snoc toMiddle possible, List.length_append] at many ⊢
  obtain ⟨chokes, silent⟩ := still (by omega)
  have whole : (peers seed).run (State.new seed) (before ++ earlier) = some middle := by
    rw [run_append, reached, Option.bind_some, toMiddle]
  obtain ⟨further, none⟩ := ((step_effect possible).change conn).chokes (unborn_of_run whole)
    ((bounded_of_run whole).queues conn) chokes (by omega)
  rw [shown_snoc toMiddle possible, silent, none, ← Nat.sub_sub]
  exact ⟨further, rfl⟩

/-- When there is room in the queue, the next step puts the message there. -/
theorem send_step {conn : ConnId} {message : Message} {stage : Stage}
    (stands : (state.conns conn).task = .sending message stage)
    (room : (state.conns conn).msgQueue.length < queueSize) :
    (peers seed).step state (.advance conn) =
      some (state.setPeer conn { (state.conns conn).push message with task := .ready stage }) := by
  simp only [peers, Peers.step, State.advance, stands, room, if_true]

/-- A `PING` that is read is going to be answered. -/
theorem ping_step {conn : ConnId} (stands : (state.conns conn).task = .ready .serving)
    (now : Nat) (id : UInt64) :
    (peers seed).step state (.read conn now ⟨id, .ping⟩) =
      some (state.setPeer conn { state.conns conn with
        lastMsgTime := now
        task := .sending ⟨id, .ack⟩ .serving }) := by
  simp only [peers, Peers.step, State.read, stands, Peer.handleMessage]

/-- Of two changes of one peer the last is left. -/
theorem setPeer_setPeer (conn : ConnId) (first second : Peer) (self : State) :
    (self.setPeer conn first).setPeer conn second = self.setPeer conn second := by
  simp only [State.setPeer, Function.update_idem]

/-- As many `PING`s as there is room for, each read and answered, and one more. -/
def answeredPings (conn : ConnId) (now : Nat) : Nat → List Event
  | 0 => [.read conn now ⟨0, .ping⟩]
  | room + 1 => .read conn now ⟨0, .ping⟩ :: .advance conn :: answeredPings conn now room

/-- When the other end sends `PING`s and no answer is written, the task blocks as soon as there is
no room for an answer. Nothing but the connection has changed.

Proof: induction on the room. One `PING` is read and its answer is put into the queue, which
leaves room for one less. -/
theorem pings_block {conn : ConnId} (now room : Nat)
    (stands : (state.conns conn).task = .ready .serving)
    (free : (state.conns conn).msgQueue.length + room = queueSize) :
    ∃ peer, (peers seed).run state (answeredPings conn now room) =
        some (state.setPeer conn peer) ∧
      Blocked conn (state.setPeer conn peer) ∧ peer.peerType = (state.conns conn).peerType := by
  induction room generalizing state with
  | zero =>
    refine ⟨_, (run_singleton _ _ _).trans (ping_step stands now 0), ?_, rfl⟩
    simp only [Blocked, State.setPeer, Function.update_self]
    exact ⟨⟨_, _, rfl⟩, Nat.le_of_eq free.symm⟩
  | succ room inductionHypothesis =>
    have reads := @ping_step seed state conn stands now 0
    generalize asked : state.setPeer conn _ = middle at reads
    have sending : (middle.conns conn).task = .sending ⟨0, .ack⟩ .serving := by
      simp only [← asked, State.setPeer, Function.update_self]
    have queue : (middle.conns conn).msgQueue = (state.conns conn).msgQueue := by
      simp only [← asked, State.setPeer, Function.update_self]
    have sends := @send_step seed middle conn _ _ sending (by rw [queue]; omega)
    generalize answered : middle.setPeer conn _ = next at sends
    have ready : (next.conns conn).task = .ready .serving := by
      simp only [← answered, State.setPeer, Function.update_self]
    have longer : (next.conns conn).msgQueue.length + room = queueSize := by
      simp only [← answered, State.setPeer, Function.update_self, Peer.push, queue,
        List.length_append, List.length_singleton]
      omega
    obtain ⟨peer, ran, blocked, same⟩ := inductionHypothesis ready longer
    rw [← answered, ← asked, setPeer_setPeer, setPeer_setPeer] at ran blocked
    refine ⟨peer, ?_, blocked, ?_⟩
    · rw [answeredPings, run, reads, Option.bind_some, run, sends, Option.bind_some, ← answered,
        ← asked, setPeer_setPeer]
      exact ran
    · rw [same]
      simp only [← answered, ← asked, State.setPeer, Function.update_self, Peer.push]

/-- When an `INV` has more hashes than there is room for in the queue, apart from those that
are found known, the connection neither reads nor writes any more, whatever happens.

Proof: each message that would be written needs room in a queue that only the same task empties. A
hash that is found to be known makes no message, and there are not enough of these. -/
theorem requests_never_end {conn : ConnId} {hashes : List Snode.Msgpack.AnnHash}
    (reached : (peers seed).run (State.new seed) before = some state)
    (stands : (state.conns conn).task = .ready (.requesting hashes))
    (ran : (peers seed).run state after = some last)
    (many : queueSize + ((peers seed).shown (foundKnown conn) state after).length <
      (state.conns conn).msgQueue.length + hashes.length) :
    (last.conns conn).task ≠ .ready .serving ∧
      (peers seed).shown (written conn) state after = [] := by
  obtain ⟨chokes, silent⟩ :=
    chokes_of_run reached (.inl ⟨hashes, stands, Nat.le_refl _⟩) ran many
  refine ⟨fun serves => ?_, silent⟩
  rcases chokes with ⟨left, asks, _⟩ | ⟨message, left, asks, _⟩ <;> cases serves.symm.trans asks

end Run

/-- Hashes that are never known, and events by which a connection is asked to look them up. -/
def unknownHashes : List Snode.Msgpack.AnnHash := List.replicate 1025 ⟨List.replicate 64 7⟩

def overwhelmed : List Event :=
  [.connect .outgoing 0, .advance 0, .read 0 0 ⟨0, .inv unknownHashes⟩]

/-- A message with too many unknown hashes leads to a task that asks for them. -/
theorem overwhelmed_reached : ∃ state : State,
    (peers 0).run (State.new 0) overwhelmed = some state ∧
      (state.conns 0).task = .ready (.requesting unknownHashes) ∧
      (state.conns 0).msgQueue.length = 1 := by
  have possible : ((peers 0).run (State.new 0) overwhelmed).any (fun state => decide
      ((state.conns 0).task = .ready (.requesting unknownHashes) ∧
        (state.conns 0).msgQueue.length = 1)) = true := by
    decide +kernel
  obtain ⟨state, ran, passes⟩ := (Option.any_eq_true _ _).mp possible
  exact ⟨state, ran, of_decide_eq_true passes⟩

/-- With too many unknown hashes the task has not ended its requests after an announcement of
another hash. -/
theorem requests_never_end_overwhelmed : ∃ state last : State,
    (peers 0).run (State.new 0) overwhelmed = some state ∧
      (peers 0).run state [.addAnn someHash [7]] = some last ∧
      (last.conns 0).task ≠ .ready .serving := by
  obtain ⟨state, reached, stands, queue⟩ := overwhelmed_reached
  have ran : (peers 0).run state [.addAnn someHash [7]] = some (state.addAnn someHash [7]) := rfl
  have many : queueSize +
      ((peers 0).shown (foundKnown 0) state [.addAnn someHash [7]]).length <
        (state.conns 0).msgQueue.length + unknownHashes.length := by
    rw [shown_singleton, queue, unknownHashes, List.length_replicate]
    exact (by decide : 1024 + 0 < 1 + 1025)
  exact ⟨state, _, reached, ran, (requests_never_end reached stands ran many).1⟩

/-- A connection that was made by the other end waits for messages, an offer comes to it next, and
a ping is about to be sent to it. -/
def awaited : List Event :=
  [.connect .incoming 0, .advance 0, .advance 0, .advance 0, .addAnn someHash [7], .listPeers 0,
    .timeOut 21, .pingNext]

/-- A server can get to where an offer and a round of pings both wait for an incoming peer. -/
theorem awaited_reached : ∃ state : State,
    (peers 0).run (State.new 0) awaited = some state ∧
      (state.conns 0).task = .ready .serving ∧ (state.conns 0).msgQueue.length = 1 ∧
      (state.conns 0).peerType = .incoming ∧ OfferWaits 0 state 0 ∧ PingWaits 0 state := by
  have possible : ((peers 0).run (State.new 0) awaited).any (fun state => decide
      ((state.conns 0).task = .ready .serving ∧ (state.conns 0).msgQueue.length = 1 ∧
        (state.conns 0).peerType = .incoming ∧ (state.offers 0).waiting = some [0] ∧
        state.pings.pingList = [0] ∧ state.pings.seq = some 0)) = true := by
    decide +kernel
  obtain ⟨state, ran, passes⟩ := (Option.any_eq_true _ _).mp possible
  obtain ⟨stands, queue, incoming, offer, left, number⟩ := of_decide_eq_true passes
  refine ⟨state, ran, stands, queue, incoming, ⟨(state.offers 0).hash, [], ?_⟩, ⟨0, [],
    state.pings.dropList, ?_⟩⟩
  · rw [← offer]
  · rw [← left, ← number]

/-- The other end sends `PING`s and reads nothing: then the offer and the round of pings wait for
good, and a new connection does not change that. -/
theorem blocked_for_good_overwhelmed : ∃ before, ∃ state last : State,
    (peers 0).run (State.new 0) before = some state ∧ Blocked 0 state ∧
      OfferWaits 0 state 0 ∧ PingWaits 0 state ∧
      (peers 0).run state [.connect .incoming 22] = some last ∧
      last.conns 0 = state.conns 0 ∧ last.offers 0 = state.offers 0 ∧
      last.pings = state.pings := by
  obtain ⟨state, toHere, stands, queue, incoming, offer, ping⟩ := awaited_reached
  have room : (state.conns 0).msgQueue.length + 1023 = queueSize := by
    rw [queue]
    rfl
  obtain ⟨peer, further, blocked, same⟩ := @pings_block 0 state 0 21 1023 stands room
  have reached : (peers 0).run (State.new 0) (awaited ++ answeredPings 0 21 1023) =
      some (state.setPeer 0 peer) := by
    rw [run_append, toHere, Option.bind_some, further]
  have ran : (peers 0).run (state.setPeer 0 peer) [.connect .incoming 22] =
      some ((state.setPeer 0 peer).createPeer .incoming 22) := rfl
  have stillIncoming : ((state.setPeer 0 peer).conns 0).peerType = .incoming := by
    simp only [State.setPeer, Function.update_self, same, incoming]
  obtain ⟨unchanged, offers, pings⟩ := blocked_for_good reached blocked ran
  exact ⟨_, _, _, reached, blocked, offer, ping, ran, unchanged, offers 0 offer stillIncoming,
    pings ping⟩

/-- A connection is not going to be told of any announcement. -/
structure Untold (conn : ConnId) (state : State) : Prop where
  made : conn < state.connCount
  unlisted : conn ∉ state.peers
  noOffer : ∀ offer, ∀ waiting ∈ (state.offers offer).waiting, conn ∉ waiting
  notListing : (state.conns conn).task.stage ≠ some .listing
  noInvites : (state.conns conn).task.invites = []
  silent : ∀ message ∈ (state.conns conn).unwritten, hashesOf message = []

/-- A reply lists no hashes. -/
theorem replies_hashes {anns : Snode.AnnList} {message reply : Message}
    (among : reply ∈ replies anns message) : hashesOf reply = [] := by
  rw [replies] at among
  split at among
  · rw [List.mem_singleton.mp among]
    rfl
  · rw [List.mem_singleton.mp among]
    rfl
  · cases among

/-- A message that is read starts no listing and no invitation. -/
theorem handleMessage_stage {peer : Peer} (stands : peer.task = .ready .serving)
    (anns : Snode.AnnList) (now : Nat) (message : Message) :
    (peer.handleMessage anns now message).task.stage ≠ some .listing ∧
      (peer.handleMessage anns now message).task.invites = [] := by
  rw [Peer.handleMessage]
  dsimp only
  cases message.data with
  | getData hash => exact ⟨by rintro ⟨⟩, rfl⟩
  | ping => exact ⟨by rintro ⟨⟩, rfl⟩
  | ack =>
    dsimp only
    rw [stands]
    exact ⟨by rintro ⟨⟩, rfl⟩
  | _ =>
    dsimp only
    split_ifs <;> simp [Peer.close, stands, Task.stage, Task.invites]

/-- What is emitted to a peer that is told nothing lists no hashes. -/
theorem Emitted.untold {self : State} {conn : ConnId} {event : Event} {added : List Message}
    (emitted : Emitted self conn event added) (untold : Untold conn self) :
    ∀ message ∈ added, hashesOf message = [] := by
  intro message among
  cases emitted with
  | nothing event quiet => cases among
  | greeting peerType now new => exact absurd untold.made (Nat.not_lt_of_le (Nat.le_of_eq new.symm))
  | invitation hashes chunks stands =>
    rw [List.mem_singleton.mp among]
    have none := untold.noInvites
    rw [stands] at none
    exact (List.append_eq_nil_iff.mp none).1
  | request hash hashes stands unknown =>
    rw [List.mem_singleton.mp among]
    rfl
  | pushed event pushed elsewhere told =>
    rw [List.mem_singleton.mp among]
    rcases told with data | ⟨offer, hash, rest, data, waits, _⟩
    · rw [hashesOf, data]
    · refine absurd List.mem_cons_self (untold.noOffer offer (conn :: rest) ?_)
      rw [waits]
      rfl

/-- Nothing is written to such a peer, or left to write, that lists hashes. -/
theorem PeerChange.untold {self : State} {conn : ConnId} {event : Event} {peer : Peer}
    (change : PeerChange self conn event peer) (unborn : self.Unborn)
    (untold : Untold conn self) :
    ∀ message ∈ written conn self event ++ peer.unwritten, hashesOf message = [] := by
  intro message among
  by_cases reads : ∃ now message, event = .read conn now message
  · obtain ⟨now, read, rfl⟩ := reads
    cases change with
    | kept event elsewhere => exact absurd rfl elsewhere
    | handled now read stands =>
      change message ∈ (Peer.handleMessage self.anns now read (self.conns conn)).unwritten at among
      rcases handleMessage_unwritten stands self.anns now read with ⟨_, lost⟩ | replied
      · rw [lost] at among
        cases among
      · rw [replied] at among
        rcases List.mem_append.mp among with earlier | new
        · exact untold.silent message earlier
        · exact replies_hashes new
    | pushed event message elsewhere told isOpen room => cases elsewhere
  · rcases change.unwritten unborn (fun now read same => reads ⟨now, read, same⟩) with
      ⟨rfl, lost⟩ | ⟨added, perm, emitted⟩
    · rw [lost] at among
      cases among
    · rcases List.mem_append.mp (perm.subset among) with earlier | new
      · exact untold.silent message earlier
      · exact emitted.untold untold message new

/-- The task of such a peer begins no listing. -/
theorem PeerChange.stage {self : State} {conn : ConnId} {event : Event} {peer : Peer}
    (change : PeerChange self conn event peer) (untold : Untold conn self) :
    peer.task.stage ≠ some .listing ∧ peer.task.invites = [] := by
  have before := untold.noInvites
  cases change with
  | kept event elsewhere => exact ⟨untold.notListing, before⟩
  | created peerType now new => exact absurd untold.made (Nat.not_lt_of_le (Nat.le_of_eq new.symm))
  | moved peer moved =>
    cases moved with
    | listed stands => exact absurd (by rw [stands]; rfl) untold.notListing
    | invited hashes chunks stands =>
      rw [stands] at before
      exact ⟨nofun, (List.append_eq_nil_iff.mp before).2⟩
    | finished stage ended stands => exact ⟨nofun, rfl⟩
    | known hash hashes stands knows => exact ⟨nofun, rfl⟩
    | sent message next stands room =>
      have notListing := untold.notListing
      rw [stands] at before notListing
      exact ⟨notListing, before⟩
  | requested hash hashes stands unknown => exact ⟨nofun, rfl⟩
  | announced data stands => exact ⟨nofun, rfl⟩
  | wrote message queue stands first => exact ⟨untold.notListing, before⟩
  | handled now message stands => exact handleMessage_stage stands self.anns now message
  | disconnected stands => exact ⟨nofun, rfl⟩
  | pushed event message elsewhere told isOpen room => exact ⟨untold.notListing, before⟩

/-- A connection that is told nothing more stays so in a step: its task makes no listing, offers go
to others, and nothing that it has left to write lists hashes.

Proof: field by field, by the effect of the step. An offer goes to connections on the list, and
this one is not on it. -/
theorem Untold.step {conn : ConnId} {self next : State} {event : Event}
    (untold : Untold conn self) (unborn : self.Unborn)
    (stepped : Peers.step self event = some next) : Untold conn next := by
  have effect := step_effect stepped
  have change := effect.change conn
  obtain ⟨notListing, noInvites⟩ := change.stage untold
  refine ⟨Nat.lt_of_lt_of_le untold.made effect.connCount, fun listed => ?_, ?_, notListing,
    noInvites, fun message among =>
      change.untold unborn untold message (List.mem_append_right _ among)⟩
  · rcases effect.peers listed with earlier | ⟨_, _, _, new⟩
    · exact untold.unlisted earlier
    · exact absurd untold.made (Nat.not_lt_of_le (Nat.le_of_eq new.symm))
  · have updated {changed : Nat} {offered : Offer}
        (none : ∀ waiting ∈ offered.waiting, conn ∉ waiting) (offer : Nat) :
        ∀ waiting ∈ (Function.update self.offers changed offered offer).waiting,
          conn ∉ waiting := by
      by_cases same : offer = changed
      · subst same
        rw [Function.update_self]
        exact none
      · rw [Function.update_of_ne same]
        exact untold.noOffer offer
    have shorter {offer : Nat} {hash : AnnHash} {first : ConnId} {rest : List ConnId}
        (waits : self.offers offer = ⟨hash, some (first :: rest)⟩) : conn ∉ rest := by
      intro among
      refine untold.noOffer offer (first :: rest) ?_ (List.mem_cons_of_mem _ among)
      rw [waits]
      rfl
    cases effect with
    | added hash binary fresh => exact updated nofun
    | peersListed changed hash waits =>
      exact updated fun waiting same => Option.some.inj same ▸ untold.unlisted
    | passed changed hash first rest waits passes =>
      exact updated fun waiting same => Option.some.inj same ▸ shorter waits
    | offered changed hash first rest waits incoming isOpen room =>
      exact updated fun waiting same => Option.some.inj same ▸ shorter waits
    | _ => exact untold.noOffer

section Run

variable {seed : UInt64} {before after : List Event} {state last : State}

/-- A connection that is off the list of peers while no hash is on its way to be sent there is
told of none any more, however long it stays open and whatever is announced.

Proof: offers are made to the peers of the list, so the invariant is that the connection is on no
list of this kind and has nothing left to send that names a hash. -/
theorem never_told_again {conn : ConnId}
    (reached : (peers seed).run (State.new seed) before = some state)
    (untold : Untold conn state) (ran : (peers seed).run state after = some last) :
    ∀ message ∈ (peers seed).shown (written conn) state after, hashesOf message = [] := by
  suffices holds : (last.Unborn ∧ Untold conn last) ∧
      ∀ message ∈ (peers seed).shown (written conn) state after, hashesOf message = [] from holds.2
  refine run_history (fun after middle => (middle.Unborn ∧ Untold conn middle) ∧
    ∀ message ∈ (peers seed).shown (written conn) state after, hashesOf message = []) ?_ ?_ ran
  · exact ⟨⟨unborn_of_run reached, untold⟩, nofun⟩
  · rintro earlier middle event next toMiddle ⟨⟨unborn, untold⟩, silent⟩ possible
    refine ⟨⟨unborn_step unborn possible, untold.step unborn possible⟩, fun message among => ?_⟩
    rw [shown_snoc toMiddle possible] at among
    rcases List.mem_append.mp among with old | new
    · exact silent message old
    · exact ((step_effect possible).change conn).untold unborn untold message
        (List.mem_append_left _ new)

end Run

/-- Events by which a connection that stays open is taken off the list, and an announcement. -/
def fallenSilent : List Event :=
  [.connect .incoming 0, .advance 0, .advance 0, .advance 0, .timeOut 61, .pingNext]

def announcedThen : List Event := [.addAnn someHash [7], .listPeers 0, .write 0]

/-- A connection that fell silent is told nothing of an announcement that comes in then. -/
theorem never_told_again_fallen_silent : ∃ state last : State,
    (peers 0).run (State.new 0) fallenSilent = some state ∧
      (peers 0).run state announcedThen = some last ∧
      ∀ message ∈ (peers 0).shown (written 0) state announcedThen, hashesOf message = [] := by
  have possible : ((peers 0).run (State.new 0) fallenSilent).any (fun state => decide
      (0 < state.connCount ∧ 0 ∉ state.peers ∧ state.offerCount = 0 ∧
        (state.conns 0).task.stage ≠ some .listing ∧ (state.conns 0).task.invites = [] ∧
        ∀ message ∈ (state.conns 0).unwritten, hashesOf message = [])) = true := by
    decide +kernel
  obtain ⟨state, reached, passes⟩ := (Option.any_eq_true _ _).mp possible
  obtain ⟨made, unlisted, none, notListing, noInvites, silent⟩ := of_decide_eq_true passes
  have untold : Untold 0 state := by
    refine ⟨made, unlisted, fun offer waiting among => ?_, notListing, noInvites, silent⟩
    have spare := (kept_of_peers reached).spare offer (none ▸ Nat.zero_le offer)
    cases spare.symm.trans among
    exact List.not_mem_nil
  have further : ((peers 0).run (State.new 0) (fallenSilent ++ announcedThen)).isSome = true := by
    decide +kernel
  rw [run_append, reached, Option.bind_some] at further
  obtain ⟨last, ran⟩ := Option.isSome_iff_exists.mp further
  exact ⟨state, last, reached, ran, never_told_again reached untold ran⟩

end RouteServer.Peers
