import RouteServer.Peers.Order

/-!
# What an answer carries

Between two servers that run this code, an answer that is accepted carries what the other
server held for the hash of the request when it read the request: the packet that it listed
under the hash, or no bytes if it listed none any more.
-/

namespace RouteServer.Peers

open Ann Machine.System
open Snode.Msgpack (Message MessageData)

/-- The answer that is given to a message: the number and the hash of the request, and the
data. -/
def answerTo (anns : Snode.AnnList) (message : Message) :
    List (UInt64 × Snode.Msgpack.AnnHash × List UInt8) :=
  match message.data with
  | .getData hash => [(message.id, hash, (get anns hash).getD [])]
  | _ => []

/-- The answer that the left end gives when it reads a message. -/
def answerGiven (link : Link) : LinkEvent → List (UInt64 × Snode.Msgpack.AnnHash × List UInt8)
  | .readLeft _ => (link.toLeft.take 1).flatMap (answerTo link.left.anns)
  | _ => []

/-- The answers that the server on the left has given on the connection. -/
def answersGiven (cl cr : ConnId) (seedLeft seedRight : UInt64) (events : List LinkEvent) :
    List (UInt64 × Snode.Msgpack.AnnHash × List UInt8) :=
  (linked cl cr seedLeft seedRight).shown answerGiven (Link.new seedLeft seedRight) events

/-- What is true of the messages on their way, given the requests, the answers to them and the
answers that were accepted. -/
structure Traced (requests : List (UInt64 × Snode.Msgpack.AnnHash))
    (given : List (UInt64 × Snode.Msgpack.AnnHash × List UInt8))
    (answers : List (UInt64 × List UInt8)) (up down : List Message) : Prop where
  asked : ∀ message ∈ up, ∀ hash, message.data = .getData hash → (message.id, hash) ∈ requests
  answered : ∀ answer ∈ given, (answer.1, answer.2.1) ∈ requests
  carried : ∀ message ∈ down, ∀ data, message.data = .data data →
    ∃ hash, (message.id, hash, data) ∈ given
  accepted : ∀ answer ∈ answers, ∃ hash, (answer.1, hash, answer.2) ∈ given

/-- What is emitted of its own accord brings no announcement. -/
theorem Emitted.noData {self : State} {conn : ConnId} {event : Event} {added : List Message}
    (emitted : Emitted self conn event added) {message : Message} (among : message ∈ added)
    (data : List UInt8) : message.data ≠ .data data := by
  intro brings
  have numbered : answerId message = some message.id := by rw [answerId, brings]
  have listed : message.id ∈ added.filterMap answerId :=
    List.mem_filterMap.mpr ⟨message, among, numbered⟩
  rw [emitted.ids.1] at listed
  cases listed

/-- What asks for a hash is a request. -/
theorem Emitted.requests {self : State} {conn : ConnId} {event : Event} {added : List Message}
    (emitted : Emitted self conn event added) {message : Message} (among : message ∈ added)
    {hash : Snode.Msgpack.AnnHash} (asks : message.data = .getData hash) :
    (message.id, hash) ∈ requestOf conn self event := by
  cases emitted with
  | nothing event quiet => cases among
  | greeting peerType now new =>
    cases peerType <;> cases List.mem_singleton.mp among <;> cases asks
  | invitation hashes chunks stands =>
    cases List.mem_singleton.mp among
    cases asks
  | request wanted hashes stands unknown =>
    cases List.mem_singleton.mp among
    cases asks
    rw [requestOf, if_pos rfl, asked, stands]
    simp [unknown]
  | pushed event pushed elsewhere told =>
    cases List.mem_singleton.mp among
    rcases told with data | ⟨_, _, _, data, _⟩ <;> cases data.symm.trans asks

/-- An answer has the number of the request, and the hash that was asked for. -/
theorem of_mem_answerTo {anns : Snode.AnnList} {message : Message}
    {answer : UInt64 × Snode.Msgpack.AnnHash × List UInt8}
    (among : answer ∈ answerTo anns message) :
    message.id = answer.1 ∧ message.data = .getData answer.2.1 := by
  rw [answerTo] at among
  split at among
  · next hash asks =>
    rw [List.mem_singleton.mp among]
    exact ⟨rfl, asks⟩
  · cases among

/-- A reply that brings an announcement is an answer to what was asked. -/
theorem mem_answerTo_of_replies {anns : Snode.AnnList} {message reply : Message}
    {data : List UInt8} (among : reply ∈ replies anns message) (brings : reply.data = .data data) :
    ∃ hash, (reply.id, hash, data) ∈ answerTo anns message := by
  rw [replies] at among
  split at among
  · next hash asks =>
    rw [answerTo, asks]
    cases List.mem_singleton.mp among
    cases brings
    exact ⟨hash, List.mem_singleton_self _⟩
  · cases List.mem_singleton.mp among
    cases brings
  · cases among

section Traced

variable {requests fresh : List (UInt64 × Snode.Msgpack.AnnHash)}
  {given more : List (UInt64 × Snode.Msgpack.AnnHash × List UInt8)}
  {answers brought : List (UInt64 × List UInt8)} {up down up' down' : List Message}

/-- Messages may be lost. Others may be added that ask for what is requested, or bring data
that is given.

Proof: field by field, for what was there before and for what is new. -/
theorem Traced.step (traced : Traced requests given answers up down)
    (upward : ∀ message ∈ up', message ∈ up ∨
      ∀ hash, message.data = .getData hash → (message.id, hash) ∈ fresh)
    (downward : ∀ message ∈ down', message ∈ down ∨
      ∀ data, message.data = .data data → ∃ hash, (message.id, hash, data) ∈ more)
    (answered : ∀ answer ∈ more, (answer.1, answer.2.1) ∈ requests)
    (accepted : ∀ answer ∈ brought, ∃ hash, (answer.1, hash, answer.2) ∈ given) :
    Traced (requests ++ fresh) (given ++ more) (answers ++ brought) up' down' where
  asked := by
    intro message among hash asks
    rcases upward message among with earlier | new
    · exact List.mem_append_left _ (traced.asked message earlier hash asks)
    · exact List.mem_append_right _ (new hash asks)
  answered := by
    intro answer among
    rcases List.mem_append.mp among with earlier | new
    · exact List.mem_append_left _ (traced.answered answer earlier)
    · exact List.mem_append_left _ (answered answer new)
  carried := by
    intro message among data brings
    rcases downward message among with earlier | new
    · obtain ⟨hash, gave⟩ := traced.carried message earlier data brings
      exact ⟨hash, List.mem_append_left _ gave⟩
    · obtain ⟨hash, gave⟩ := new data brings
      exact ⟨hash, List.mem_append_right _ gave⟩
  accepted := by
    intro answer among
    rcases List.mem_append.mp among with earlier | new
    · obtain ⟨hash, gave⟩ := traced.accepted answer earlier
      exact ⟨hash, List.mem_append_left _ gave⟩
    · obtain ⟨hash, gave⟩ := accepted answer new
      exact ⟨hash, List.mem_append_left _ gave⟩

end Traced

/-- What is on its way after an event other than reading was before, or is emitted. -/
theorem PeerChange.among {self : State} {conn : ConnId} {event : Event} {peer : Peer}
    (change : PeerChange self conn event peer) (unborn : self.Unborn)
    (silent : ∀ now message, event ≠ .read conn now message) (wire : List Message) :
    ∃ added, Emitted self conn event added ∧
      ∀ message ∈ wire ++ written conn self event ++ peer.unwritten,
        message ∈ wire ++ (self.conns conn).unwritten ∨ message ∈ added := by
  obtain ⟨kept, added, fewer, perm, emitted⟩ := change.stream unborn silent wire
  refine ⟨added, emitted, fun message among => ?_⟩
  rcases List.mem_append.mp (perm.subset among) with earlier | new
  · exact .inl (fewer.subset earlier)
  · exact .inr new

section Run

variable {cl cr : ConnId} {seedLeft seedRight : UInt64} {events : List LinkEvent} {last : Link}

/-- In every run the messages under way are traced to requests and answers, by induction on the run.
-/
theorem traced_of_run
    (ran : (linked cl cr seedLeft seedRight).run (Link.new seedLeft seedRight) events =
      some last) :
    Traced (requestsMade cl cr seedLeft seedRight events)
      (answersGiven cl cr seedLeft seedRight events)
      (answersAccepted cl cr seedLeft seedRight events) (last.up cr) (last.down cl) := by
  have none {α : Type} {claim : α → Prop} : ∀ item ∈ ([] : List α), claim item :=
    fun _ among => absurd among List.not_mem_nil
  refine run_history (fun events link => Traced (requestsMade cl cr seedLeft seedRight events)
    (answersGiven cl cr seedLeft seedRight events)
    (answersAccepted cl cr seedLeft seedRight events) (link.up cr) (link.down cl))
    ⟨none, none, none, none⟩ ?_ ran
  intro before link event next reached traced possible
  obtain ⟨unbornLeft, unbornRight⟩ := unborn_of_linked reached
  rw [requestsMade, answersAccepted, answersGiven, shown_right_snoc _ reached possible,
    shown_right_snoc _ reached possible, shown_snoc reached possible]
  rw [requestsMade, answersAccepted, answersGiven] at traced
  cases link_effect possible with
  | left event server permits stepped =>
    obtain ⟨added, emitted, downward⟩ := ((step_effect stepped).change cl).among unbornLeft
      (permitted_silent permits) link.toRight
    change Traced (_ ++ []) (_ ++ []) (_ ++ []) _ _
    refine traced.step (fun _ among => .inl among) (fun message among => ?_) none none
    exact (downward message among).imp_right fun new data brings =>
      absurd brings (emitted.noData new data)
  | right event server permits stepped =>
    obtain ⟨added, emitted, upward⟩ := ((step_effect stepped).change cr).among unbornRight
      (permitted_silent permits) link.toLeft
    simp only [rightSteps, shown_singleton, answerOf_silent (permitted_silent permits)]
    change Traced (_ ++ _) (_ ++ []) (_ ++ []) _ _
    refine traced.step (fun message among => ?_) (fun _ among => .inl among) none none
    exact (upward message among).imp_right fun new hash asks => emitted.requests new asks
  | readLeft now message rest first stands =>
    obtain ⟨kept, added, fewer, same, replied⟩ :=
      handleMessage_stream stands link.left.anns now message link.toRight
    rw [Link.up, first, List.cons_append] at traced
    simp only [Link.up, Link.down, State.setPeer, Function.update_self, answerGiven, first,
      List.take_succ_cons, List.take_zero, List.flatMap_singleton]
    rw [same]
    change Traced (_ ++ []) (_ ++ _) (_ ++ []) _ _
    refine traced.step (fun _ among => .inl (List.mem_cons_of_mem _ among))
      (fun reply among => ?_) (fun answer gave => ?_) none
    · refine (List.mem_append.mp among).imp (fun earlier => fewer.subset earlier) fun new => ?_
      rcases replied with rfl | rfl
      · cases new
      · exact fun data brings => mem_answerTo_of_replies new brings
    · obtain ⟨number, asks⟩ := of_mem_answerTo gave
      exact number ▸ traced.asked message List.mem_cons_self _ asks
  | readRight now message rest first stands =>
    obtain ⟨kept, added, fewer, same, replied⟩ :=
      handleMessage_stream stands link.right.anns now message link.toLeft
    rw [Link.down, first, List.cons_append] at traced
    simp only [Link.up, Link.down, State.setPeer, Function.update_self, rightSteps, first,
      List.take_succ_cons, List.take_zero, List.map_singleton, shown_singleton]
    rw [same]
    change Traced (_ ++ []) (_ ++ []) (_ ++ _) _ _
    refine traced.step (fun reply among => ?_)
      (fun _ among => .inl (List.mem_cons_of_mem _ among)) none (fun answer accepted => ?_)
    · refine (List.mem_append.mp among).imp (fun earlier => fewer.subset earlier) fun new => ?_
      rcases replied with rfl | rfl
      · cases new
      · exact fun hash asks => absurd asks (replies_ask_not _ message new hash)
    · obtain ⟨number, brings⟩ := of_mem_answerOf accepted
      exact number ▸ traced.carried message List.mem_cons_self _ brings

/-- Every answer that is accepted was asked for. It carries what the other server held for the hash
of the request, and there is no other request that it could answer.

Proof: an answer that is accepted was given, and one that was given was asked for, by the trace of
the run. Numbers of requests do not repeat, so the request is the only one. -/
theorem answers_carry_what_was_held
    (ran : (linked cl cr seedLeft seedRight).run (Link.new seedLeft seedRight) events =
      some last) (short : events.length ≤ 2 ^ 64) :
    ∀ answer ∈ answersAccepted cl cr seedLeft seedRight events,
      ∃ hash, (answer.1, hash) ∈ requestsMade cl cr seedLeft seedRight events ∧
        (answer.1, hash, answer.2) ∈ answersGiven cl cr seedLeft seedRight events ∧
        ∀ request ∈ requestsMade cl cr seedLeft seedRight events,
          request.1 = answer.1 ↔ request = (answer.1, hash) := by
  intro answer among
  have traced := traced_of_run ran
  obtain ⟨hash, gave⟩ := traced.accepted answer among
  have asked := traced.answered _ gave
  have distinct := distinct_requests (right_ran ran) (rightEvents_short short) cr
  refine ⟨hash, asked, gave, fun request made => ⟨fun number => ?_, fun same => by rw [same]⟩⟩
  exact List.inj_on_of_nodup_map distinct made asked number

end Run

/-- In an exchange of one announcement the answer is accepted, and it carries what was held. -/
theorem answer_carries_what_was_held : ∃ last : Link,
    (linked 0 0 0 0).run (Link.new 0 0) (exchange ++ [LinkEvent.readRight 0]) = some last ∧
      (exchange ++ [LinkEvent.readRight 0]).length ≤ 2 ^ 64 ∧
      ∀ answer ∈ answersAccepted 0 0 0 0 (exchange ++ [LinkEvent.readRight 0]), ∃ hash,
        (answer.1, hash) ∈ requestsMade 0 0 0 0 (exchange ++ [LinkEvent.readRight 0]) ∧
        (answer.1, hash, answer.2) ∈
          answersGiven 0 0 0 0 (exchange ++ [LinkEvent.readRight 0]) := by
  have possible : ((linked 0 0 0 0).run (Link.new 0 0)
      (exchange ++ [LinkEvent.readRight 0])).isSome = true := by decide +kernel
  have short : (exchange ++ [LinkEvent.readRight 0]).length ≤ 2 ^ 64 := by decide
  obtain ⟨last, ran⟩ := Option.isSome_iff_exists.mp possible
  refine ⟨last, ran, short, fun answer accepted => ?_⟩
  obtain ⟨hash, asked, gave, _⟩ := answers_carry_what_was_held ran short answer accepted
  exact ⟨hash, asked, gave⟩

end RouteServer.Peers
