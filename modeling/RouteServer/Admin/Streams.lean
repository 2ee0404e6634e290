import RouteServer.Admin.Slots

/-!
# Streams

A response that names a stream opens it with an empty queue. What is put into the queue
afterwards are the messages that name the stream and answer no request, without a gap, until
another response opens the stream anew. The queue may be given up earlier, and its receiver
may lag behind.
-/

namespace RouteServer.Admin

open Rust Bencode

/-- A response that opens a stream: it answers a request, tells of no error and names it. -/
def reopens (streamId : Text) (self : State) (event : Event) : Bool :=
  match event with
  | .message msg =>
    match received msg with
    | some (_, info) =>
      (self.requests.lookup info.txid).isSome && info.error.isNone && info.streamId == some streamId
    | none => false
  | _ => false

/-- A message of a stream: it names the stream and answers no request. -/
def streamMessage (streamId : Text) (self : State) (event : Event) : Option Dict :=
  match event with
  | .message msg =>
    match received msg with
    | some (message, info) =>
      if (self.requests.lookup info.txid).isNone && info.streamId == some streamId then some message
      else none
    | none => none
  | _ => none

section

variable {streamId : Text} {self : State} {msg : List UInt8} {message : Dict}
  {info : MessageMetadata}

/-- A message opens a stream again if it answers a request without an error and names the stream. -/
theorem reopens_message (read : received msg = some (message, info)) :
    reopens streamId self (.message msg) =
      ((self.requests.lookup info.txid).isSome && info.error.isNone &&
        info.streamId == some streamId) := by
  rw [reopens, read]

/-- A message is for a stream if it answers no request and names the stream. -/
theorem streamMessage_message (read : received msg = some (message, info)) :
    streamMessage streamId self (.message msg) =
      if (self.requests.lookup info.txid).isNone && info.streamId == some streamId then some message
      else none := by
  rw [streamMessage, read]

end

/-- What is picked from the events of a run up to the response that opens a stream anew. -/
def untilReopened (streamId : Text) (pick : State → Event → Option Dict) :
    State → List Event → List Dict
  | _, [] => []
  | self, event :: rest =>
    if reopens streamId self event then []
    else
      (pick self event).toList ++
        match step self event with
        | some next => untilReopened streamId pick next rest
        | none => []

/-- The messages of a stream in a run, up to the response that opens it anew. -/
def streamMessages (streamId : Text) : State → List Event → List Dict :=
  untilReopened streamId (streamMessage streamId)

/-- A queue that no stream holds any more. -/
def Ended (channel : ChannelId) (self : State) : Prop :=
  Released self.streams self.channelCount channel

/-- Nothing is put into a queue that has ended. -/
theorem Ended.step {channel : ChannelId} {self next : State} {event : Event}
    (ended : Ended channel self) (stepped : step self event = some next) :
    Ended channel next ∧ (next.channels channel).sent = (self.channels channel).sent := by
  by_cases isMessage : event.IsMessage
  · obtain ⟨msg, rfl⟩ := isMessage
    rcases step_message stepped with ⟨-, rfl⟩ | ⟨message, info, -, rfl⟩
    · exact ⟨ended, rfl⟩
    · have onward := route_streams message info self
      dsimp only at onward
      rcases onward with ⟨streams, channels, count, -⟩ |
        ⟨streamId, held, -, -, found, count, ⟨streams, channels⟩ | ⟨streams, channels⟩⟩ |
        ⟨streamId, slot, -, -, -, count, streams, channels⟩ <;>
        rw [Ended, streams, channels, count]
      · exact ⟨ended, rfl⟩
      · have other : channel ≠ held := by
          rintro rfl
          exact ended.unheld _ found
        rw [Function.update_of_ne other]
        exact ⟨ended, rfl⟩
      · exact ⟨Released.erase ended streamId, rfl⟩
      · rw [Function.update_of_ne (Nat.ne_of_lt ended.old)]
        exact ⟨Released.insert ended streamId, rfl⟩
  · obtain ⟨sent, count, streams | streams⟩ := quiet_step stepped isMessage <;>
      rw [Ended, streams, count]
    · exact ⟨ended, sent channel⟩
    · exact ⟨Released.retain ended _, sent channel⟩

/-- Nothing is sent over a channel that has ended, by induction on the run. -/
theorem Ended.run {channel : ChannelId} {self last : State} {events : List Event}
    (ended : Ended channel self) (ran : dispatcher.run self events = some last) :
    Ended channel last ∧ (last.channels channel).sent = (self.channels channel).sent := by
  let holds (state : State) : Prop :=
    Ended channel state ∧ (state.channels channel).sent = (self.channels channel).sent
  have kept : ∀ state event next, holds state → dispatcher.step state event = some next →
      holds next := fun state event next kept stepped =>
    ⟨(kept.1.step stepped).1, (kept.1.step stepped).2.trans kept.2⟩
  exact Machine.System.run_keeps kept ran ⟨ended, rfl⟩

/-- An event that is no message neither opens a stream nor is for one. -/
theorem reopens_of_quiet {streamId : Text} {self : State} {event : Event}
    (quiet : ¬event.IsMessage) :
    reopens streamId self event = false ∧ streamMessage streamId self event = none := by
  cases event with
  | message msg => exact absurd ⟨msg, rfl⟩ quiet
  | _ => exact ⟨rfl, rfl⟩

/-- What an event does to an open stream: it is opened anew, its queue grows by the message
of the stream, or it is given up.

Proof: a message is split by what it does to the streams: nothing, one stream, or a new one; in
each case by whether that is the stream in question. No two streams share a queue, so a message
for another stream goes into another queue. Events other than messages put nothing into queues. -/
theorem subscribed_step {streamId : Text} {channel : ChannelId} {self next : State}
    {event : Event} (sound : Sound self)
    (subscribed : self.streams.lookup streamId = some channel)
    (stepped : step self event = some next) :
    (reopens streamId self event = true ∧ Ended channel next ∧
        (next.channels channel).sent = (self.channels channel).sent) ∨
      reopens streamId self event = false ∧
        ((next.streams.lookup streamId = some channel ∧ (next.channels channel).sent =
            (self.channels channel).sent ++ (streamMessage streamId self event).toList) ∨
          Ended channel next ∧
            (next.channels channel).sent = (self.channels channel).sent) := by
  have handles : Handles self.streams self.channelCount := sound.channels
  have new : channel ≠ self.channelCount := Nat.ne_of_lt (handles.old streamId channel subscribed)
  by_cases isMessage : event.IsMessage
  · obtain ⟨msg, rfl⟩ := isMessage
    rcases step_message stepped with ⟨unread, rfl⟩ | ⟨message, info, read, rfl⟩
    · rw [reopens, streamMessage, unread]
      exact Or.inr ⟨rfl, Or.inl ⟨subscribed, (List.append_nil _).symm⟩⟩
    · have onward := route_streams message info self
      dsimp only at onward
      rcases onward with ⟨streams, channels, count, idle⟩ |
        ⟨named, held, names, unasked, found, count, ⟨streams, channels⟩ | ⟨streams, channels⟩⟩ |
        ⟨named, slot, names, asked, noError, count, streams, channels⟩
      · have apart : reopens streamId self (.message msg) = false ∧
            streamMessage streamId self (.message msg) = none := by
          rw [reopens_message read, streamMessage_message read]
          by_cases names : info.streamId = some streamId
          · obtain ⟨slot, emsg, asked, error⟩ := idle streamId channel names subscribed
            rw [asked, error]
            exact ⟨rfl, rfl⟩
          · rw [beq_eq_false_iff_ne.mpr names, Bool.and_false, Bool.and_false]
            exact ⟨rfl, rfl⟩
        rw [apart.1, apart.2, streams, channels]
        exact Or.inr ⟨rfl, Or.inl ⟨subscribed, (List.append_nil _).symm⟩⟩
      · have kept : reopens streamId self (.message msg) = false := by
          rw [reopens_message read, unasked]
          rfl
        rw [kept, streams, channels, streamMessage_message read, unasked, names]
        refine Or.inr ⟨rfl, Or.inl ⟨subscribed, ?_⟩⟩
        by_cases same : named = streamId
        · subst same
          cases found.symm.trans subscribed
          rw [Function.update_self, if_pos (by simp)]
          rfl
        · have other : channel ≠ held := by
            rintro rfl
            exact same (handles.distinct _ _ _ found subscribed)
          rw [Function.update_of_ne other, if_neg (by simpa using same)]
          exact (List.append_nil _).symm
      · have kept : reopens streamId self (.message msg) = false := by
          rw [reopens_message read, unasked]
          rfl
        rw [kept, Ended, streams, channels, count, streamMessage_message read, unasked, names]
        refine Or.inr ⟨rfl, ?_⟩
        by_cases same : named = streamId
        · subst same
          exact Or.inr ⟨handles.released_erase subscribed, rfl⟩
        · rw [AList.lookup_erase_ne (Ne.symm same), if_neg (by simpa using same)]
          exact Or.inl ⟨subscribed, (List.append_nil _).symm⟩
      · rw [Ended, streams, channels, count, Function.update_of_ne new, reopens_message read,
          streamMessage_message read, asked, noError, names]
        by_cases same : named = streamId
        · subst same
          exact Or.inl ⟨by simp, handles.released_insert subscribed, rfl⟩
        · rw [AList.lookup_insert_ne (Ne.symm same)]
          exact Or.inr ⟨by simpa using same, Or.inl ⟨subscribed, (List.append_nil _).symm⟩⟩
  · have apart : reopens streamId self event = false ∧ streamMessage streamId self event = none :=
      reopens_of_quiet isMessage
    rw [apart.1, apart.2]
    obtain ⟨sent, count, streams | streams⟩ := quiet_step stepped isMessage
    · rw [streams, sent]
      exact Or.inr ⟨rfl, Or.inl ⟨subscribed, (List.append_nil _).symm⟩⟩
    · rw [Ended, streams, sent, count]
      refine Or.inr ⟨rfl, ?_⟩
      rcases handles.retained subscribed fun _ tx => (self.channels tx).isOpen with
        kept | ⟨released, -⟩
      · exact Or.inl ⟨kept, (List.append_nil _).symm⟩
      · exact Or.inr ⟨released, rfl⟩

/-- The response that opens a stream gives it a new queue. -/
theorem reopened {streamId : Text} {self next : State} {event : Event}
    (opens : reopens streamId self event = true) (stepped : step self event = some next) :
    next.streams.lookup streamId = some self.channelCount ∧
      (next.channels self.channelCount).sent = [] := by
  have isMessage : event.IsMessage := by
    by_contra quiet
    cases (reopens_of_quiet quiet).1.symm.trans opens
  obtain ⟨msg, rfl⟩ := isMessage
  rcases step_message stepped with ⟨unread, rfl⟩ | ⟨message, info, read, rfl⟩
  · rw [reopens, unread] at opens
    cases opens
  · rw [reopens_message read, Bool.and_eq_true, Bool.and_eq_true, Option.isSome_iff_exists,
      Option.isNone_iff_eq_none, beq_iff_eq] at opens
    obtain ⟨⟨⟨slot, asked⟩, noError⟩, named⟩ := opens
    rw [route_answer asked, noError, named]
    dsimp only [State.openStream]
    rw [AList.lookup_insert, Function.update_self]
    exact ⟨rfl, rfl⟩

/-- What is put into the queue of a stream in a run: a part of the messages of the stream
from their beginning, and all of them if the stream is still open.

Proof: induction on the events, with the step lemma for the first one. When the stream has been
opened anew or given up, its old queue has ended and gets nothing more. -/
theorem subscribed_run {streamId : Text} {channel : ChannelId} {self last : State}
    {events : List Event} (sound : Sound self)
    (subscribed : self.streams.lookup streamId = some channel)
    (ran : dispatcher.run self events = some last) :
    ∃ more, (last.channels channel).sent = (self.channels channel).sent ++ more ∧
      more <+: streamMessages streamId self events ∧
      (last.streams.lookup streamId = some channel →
        more = streamMessages streamId self events) := by
  induction events generalizing self with
  | nil =>
    cases ran
    exact ⟨[], (List.append_nil _).symm, List.nil_prefix, fun _ => rfl⟩
  | cons event rest inductionHypothesis =>
    obtain ⟨next, possible, afterwards⟩ := Option.bind_eq_some_iff.mp ran
    have possible : step self event = some next := possible
    have finished : Ended channel next →
        (next.channels channel).sent = (self.channels channel).sent →
        ∃ more, (last.channels channel).sent = (self.channels channel).sent ++ more ∧
          more <+: streamMessages streamId self (event :: rest) ∧
          (last.streams.lookup streamId = some channel →
            more = streamMessages streamId self (event :: rest)) := by
      intro ended sent
      obtain ⟨stillEnded, sentAfter⟩ := ended.run afterwards
      refine ⟨[], ?_, List.nil_prefix, fun held => absurd held (stillEnded.unheld streamId)⟩
      rw [sentAfter, sent, List.append_nil]
    rcases subscribed_step sound subscribed possible with
      ⟨-, ended, sent⟩ | ⟨kept, ⟨still, sent⟩ | ⟨ended, sent⟩⟩
    · exact finished ended sent
    · obtain ⟨more, sentAfter, isPrefix, complete⟩ :=
        inductionHypothesis (sound.step possible) still afterwards
      refine ⟨(streamMessage streamId self event).toList ++ more, ?_, ?_, ?_⟩
      · rw [sentAfter, sent, List.append_assoc]
      · rw [streamMessages, untilReopened, kept, possible]
        exact (List.prefix_append_right_inj _).mpr isPrefix
      · intro held
        rw [streamMessages, untilReopened, kept, possible, complete held]
        rfl
    · exact finished ended sent

end RouteServer.Admin
