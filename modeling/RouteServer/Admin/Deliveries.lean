import RouteServer.Admin.Streams

/-!
# What the dispatcher delivers

From any state that the dispatcher can reach, a request gets at most one result, and a stream
gets its messages without a gap. A response with an error may name a stream without being
a message of it.
-/

namespace RouteServer.Admin

open Rust Bencode

/-- What the slot of a request has got some time after its registration. -/
structure RequestServed (txid : Text) (isOpen : Bool) (before next last : State)
    (after : List Event) : Prop where
  once : (last.slots before.slotCount).results.length ≤ 1
  repeating : ∀ slot, before.requests.lookup txid = some slot →
    (last.slots before.slotCount).results = if isOpen then [.error (.repeatingTx txid)] else []
  unrepeated : before.requests.lookup txid = none →
    ∀ repeated, Except.error (.repeatingTx repeated) ∉ (last.slots before.slotCount).results
  answered : before.requests.lookup txid = none →
    (last.slots before.slotCount).results <+: (firstAnswer txid next after).toList
  complete : before.requests.lookup txid = none → isOpen →
    Event.dropReceiver before.slotCount ∉ after →
    (last.slots before.slotCount).results = (firstAnswer txid next after).toList
  kept : before.requests.lookup txid = none → isOpen →
    Event.dropReceiver before.slotCount ∉ after → firstAnswer txid next after = none →
    last.requests.lookup txid = some before.slotCount

/-- What the queue of a stream has got some time after the response that opened it. -/
structure StreamServed (streamId : Text) (before next last : State) (after : List Event) :
    Prop where
  sent : (last.channels before.channelCount).sent <+: streamMessages streamId next after
  seen : (last.channels before.channelCount).seen <+: streamMessages streamId next after
  complete : last.streams.lookup streamId = some before.channelCount →
    (last.channels before.channelCount).sent = streamMessages streamId next after

/-- What becomes of a message is one of three results, and none of them is that of a repeated
identifier. -/
theorem resultOf_ne_repeating (message : Dict) (info : MessageMetadata) (channel : ChannelId)
    (repeated : Text) : resultOf message info channel ≠ .error (.repeatingTx repeated) := by
  rw [resultOf]
  intro same
  cases error : info.error with
  | some emsg =>
    rw [error] at same
    cases same
  | none =>
    rw [error] at same
    cases same

/-- An answer is what its message says. -/
theorem answerOf_eq {txid : Text} {self : State} {event : Event}
    {result : Except Error Response} (answered : answerOf txid self event = some result) :
    ∃ message info, result = resultOf message info self.channelCount := by
  cases event with
  | message msg =>
    rw [answerOf] at answered
    cases read : received msg with
    | none =>
      rw [read] at answered
      cases answered
    | some contents =>
      rw [read] at answered
      dsimp only at answered
      split_ifs at answered
      exact ⟨contents.1, contents.2, (Option.some.inj answered).symm⟩
  | _ => cases answered

/-- The first answer of a run is the result of a message, so it is never that of a repeated
identifier. -/
theorem firstAnswer_ne_repeating {txid : Text} {self : State} {events : List Event}
    (repeated : Text) :
    firstAnswer txid self events ≠ some (.error (.repeatingTx repeated)) := by
  induction events generalizing self with
  | nil =>
    intro same
    cases same
  | cons event rest inductionHypothesis =>
    rw [firstAnswer]
    cases answered : answerOf txid self event with
    | some result =>
      obtain ⟨message, info, rfl⟩ := answerOf_eq answered
      intro same
      exact resultOf_ne_repeating message info _ repeated (Option.some.inj same)
    | none =>
      cases step self event with
      | none =>
        intro same
        cases same
      | some next => exact inductionHypothesis

/-- A request gets its result in every run.

Proof: the two cases of registering. If the transaction is already held, the slot of this
request is settled with the refusal, and a run leaves a settled slot alone. Otherwise the
request is registered under a fresh slot, and what a run does to a registered request says the
rest. -/
theorem requestServed {txid : Text} {isOpen : Bool} {self last : State} {after : List Event}
    (sound : Sound self)
    (ran : dispatcher.run (self.handleRequest txid isOpen) after = some last) :
    RequestServed txid isOpen self (self.handleRequest txid isOpen) last after := by
  have next : step self (.request txid isOpen) = some (self.handleRequest txid isOpen) := rfl
  have soundNext : Sound (self.handleRequest txid isOpen) := sound.step next
  cases pending : self.requests.lookup txid with
  | some slot =>
    have same : (last.slots self.slotCount).results =
        if isOpen then [.error (.repeatingTx txid)] else [] := by
      have settled : Settled self.slotCount (self.handleRequest txid isOpen) := by
        rw [State.handleRequest, pending]
        exact ⟨Nat.lt_succ_self _, fun key found => Nat.lt_irrefl _ (sound.slots.old key _ found)⟩
      rw [settled.run ran, State.handleRequest, pending]
      dsimp only
      rw [Function.update_self]
    constructor
    · rw [same]
      split_ifs <;> simp
    · exact fun _ _ => same
    all_goals
      intro vacant
      cases pending.symm.trans vacant
  | none =>
    have registered : (self.handleRequest txid isOpen).requests.lookup txid =
        some self.slotCount := by
      rw [State.handleRequest, pending]
      exact AList.lookup_insert _
    have open_ : ((self.handleRequest txid isOpen).slots self.slotCount).isOpen = isOpen := by
      rw [State.handleRequest, pending]
      dsimp only
      rw [Function.update_self]
    obtain ⟨isPrefix, received⟩ := pending_run soundNext registered ran
    constructor
    · exact isPrefix.length_le.trans (Option.length_toList_le)
    · intro slot found
      cases pending.symm.trans found
    · intro _ repeated again
      have first := isPrefix.subset again
      rw [Option.mem_toList] at first
      exact firstAnswer_ne_repeating repeated first
    · exact fun _ => isPrefix
    · exact fun _ isOpen stays => (received (open_.trans isOpen) stays).1
    · exact fun _ isOpen stays => (received (open_.trans isOpen) stays).2

/-- A stream gets its messages in every run. -/
theorem streamServed {streamId : Text} {self next last : State} {event : Event}
    {after : List Event} (sound : Sound self) (stepped : step self event = some next)
    (opens : reopens streamId self event = true) (ran : dispatcher.run next after = some last) :
    StreamServed streamId self next last after := by
  obtain ⟨subscribed, empty⟩ := reopened opens stepped
  obtain ⟨more, sent, isPrefix, complete⟩ := subscribed_run (sound.step stepped) subscribed ran
  rw [empty, List.nil_append] at sent
  constructor
  · rw [sent]
    exact isPrefix
  · rw [Channel.seen, sent]
    exact (List.take_prefix _ _).trans isPrefix
  · rw [sent]
    exact complete

/-- In every run, a request that is registered gets its result and a stream that is opened
gets its messages.

Proof: the state in which the request is registered is sound, so its channel is its own. From
there the run is followed until the answer, or until the stream ends or is opened again. -/
theorem served_in_every_run {before after : List Event} {event : Event}
    {self next last : State} (reached : dispatcher.run dispatcher.initial before = some self)
    (stepped : step self event = some next) (ran : dispatcher.run next after = some last) :
    (∀ txid isOpen, event = .request txid isOpen →
        RequestServed txid isOpen self next last after) ∧
      ∀ streamId, reopens streamId self event = true →
        StreamServed streamId self next last after := by
  have kept : ∀ state event next, Sound state → dispatcher.step state event = some next →
      Sound next := fun _ _ _ sound stepped => sound.step stepped
  have sound : Sound self := Machine.System.run_keeps kept reached Sound.initial
  refine ⟨?_, fun streamId opens => streamServed sound stepped opens ran⟩
  rintro txid isOpen rfl
  cases stepped
  exact requestServed sound ran

/-- A request, the response that opens its stream, another request, its response with an
error that names the same stream, a message to the stream, and its receiver. -/
def fooTx : Text := "foo".toList
def barTx : Text := "bar".toList
def sampleStream : Text := "s".toList
def openingMessage : Event := .message "d8:streamId1:s4:txid3:fooe".toUTF8.toList
def failingMessage : Event := .message "d5:error1:x8:streamId1:s4:txid3:bare".toUTF8.toList
def laterMessage : Event := .message "d8:streamId1:s4:txid1:ne".toUTF8.toList
def afterOpening : List Event :=
  [.request barTx true, failingMessage, laterMessage, .cleanup, .receive 0]

/-- The state after the first request. -/
def requested : State := State.handleRequest fooTx true {}

/-- After the request is registered its answer can be handled, and all that comes after it. -/
theorem requested_runs :
    (dispatcher.run requested (openingMessage :: afterOpening)).isSome = true := by
  decide +kernel

/-- A stream is opened by its first message, and the others arrive in their order. -/
theorem served_after_request :
    let last := (dispatcher.run requested (openingMessage :: afterOpening)).get requested_runs
    RequestServed fooTx true {} requested last (openingMessage :: afterOpening) ∧
      (last.slots 0).results.length = 1 ∧ (last.channels 0).seen.length = 1 :=
  have reached : dispatcher.run dispatcher.initial [] = some {} := rfl
  ⟨(served_in_every_run reached rfl (Option.some_get _).symm).1 fooTx true rfl,
    by decide +kernel⟩

/-- A message that names a stream. -/
def namedMessage (streamId : Text) (event : Event) : Option Dict :=
  match event with
  | .message msg =>
    match received msg with
    | some (message, info) => if info.streamId == some streamId then some message else none
    | none => none
  | _ => none

/-- The messages that name a stream in a run, up to the response that opens it anew. -/
def namedMessages (streamId : Text) : State → List Event → List Dict :=
  untilReopened streamId fun _ => namedMessage streamId

/-- The first message of a stream can be handled. -/
theorem opening_steps : (step requested openingMessage).isSome = true := by decide +kernel

/-- The state with a new stream. -/
def opened : State := (step requested openingMessage).get opening_steps

/-- Once the stream is open, the messages after the first can be handled. -/
theorem opened_runs : (dispatcher.run opened afterOpening).isSome = true := by decide +kernel

/-- A message that answers a request with an error is not seen by the one who reads the stream,
although it names the stream: a run over such a message shows it. -/
theorem failing_message_not_seen :
    ¬∀ (streamId : Text) (before after : List Event) (event : Event) (self next last : State),
      dispatcher.run dispatcher.initial before = some self → step self event = some next →
      reopens streamId self event = true → dispatcher.run next after = some last →
      (last.channels self.channelCount).seen <+: namedMessages streamId next after := by
  intro claimed
  have seen := claimed sampleStream [.request fooTx true] afterOpening openingMessage requested
    opened ((dispatcher.run opened afterOpening).get opened_runs) rfl (Option.some_get _).symm
    (by decide +kernel) (Option.some_get _).symm
  -- the message that was seen has two entries, and the one with the error has three
  have seenLengths : (((dispatcher.run opened afterOpening).get opened_runs).channels
      requested.channelCount).seen.map List.length = [2] := by decide +kernel
  have namedLengths : (namedMessages sampleStream opened afterOpening).map List.length =
      [3, 2] := by decide +kernel
  have lengths := seen.map List.length
  rw [seenLengths, namedLengths] at lengths
  revert lengths
  decide

end RouteServer.Admin
