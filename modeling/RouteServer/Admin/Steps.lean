import RouteServer.Admin.Dispatch

/-!
# What an event does

A message that can be read answers a request, goes to a stream, or changes nothing. What
the other events do to requests and slots, and to streams and queues, is said here once.
-/

namespace RouteServer.Admin

open Rust Bencode

/-- A message is routed if it can be read, and otherwise changes nothing.

Proof: by whether the message is decoded and whether its metadata can be read; only when both
succeed is it routed. -/
theorem step_message {self next : State} {msg : List UInt8}
    (stepped : step self (.message msg) = some next) :
    (received msg = none ∧ next = self) ∨
      ∃ message info, received msg = some (message, info) ∧
        next = (self.route message info).2 := by
  have after : next = (self.dispatchMessage msg).2 := by
    rw [step] at stepped
    cases routed : self.dispatchMessage msg with
    | mk outcome after =>
      rw [routed] at stepped
      cases outcome <;> cases stepped <;> rfl
  rw [State.dispatchMessage] at after
  rw [received]
  cases decoded : decodeMessage msg with
  | ok message =>
    rw [decoded] at after
    dsimp only at after ⊢
    cases read : MessageMetadata.readFrom message with
    | ok info =>
      rw [read] at after
      exact Or.inr ⟨message, info, rfl, after⟩
    | error fault =>
      rw [read] at after
      exact Or.inl ⟨rfl, after⟩
  | err fault =>
    rw [decoded] at after
    exact Or.inl ⟨rfl, after⟩
  | panicked =>
    rw [decoded] at after
    exact Or.inl ⟨rfl, after⟩

/-- What a message that answers a request puts into its slot. -/
def resultOf (message : Dict) (info : MessageMetadata) (newChannel : ChannelId) :
    Except Error Response :=
  match info.error with
  | some emsg => .error (.remoteError emsg)
  | none => .ok ⟨message, info.streamId.map fun _ => newChannel⟩

/-- The slots after a response to one of them. -/
def respondedSlots (self : State) (slot : SlotId) (result : Except Error Response) :
    SlotId → Slot :=
  if (self.slots slot).isOpen then
    Function.update self.slots slot ⟨true, (self.slots slot).results ++ [result]⟩
  else self.slots

/-- An answer changes nothing but one slot. -/
theorem respond_eq (self : State) (slot : SlotId) (result : Except Error Response) :
    (self.respond slot result).2 = { self with slots := respondedSlots self slot result } := by
  rw [State.respond, respondedSlots]
  split_ifs <;> rfl

/-- What an answer does: the request is removed, its slot gets the result, and a stream is
opened if the message names one and is no error. -/
theorem route_answer {self : State} {message : Dict} {info : MessageMetadata} {slot : SlotId}
    (pending : self.requests.lookup info.txid = some slot) :
    (self.route message info).2 =
      let opened := match info.error, info.streamId with
        | none, some streamId => self.openStream streamId slot
        | _, _ => self
      { opened with
        requests := self.requests.erase info.txid
        slots := respondedSlots self slot (resultOf message info self.channelCount) } := by
  rw [State.route, pending]
  dsimp only
  rw [State.answer]
  cases error : info.error with
  | some emsg => rw [respond_eq, resultOf, error]; rfl
  | none =>
    cases stream : info.streamId with
    | some streamId => rw [resultOf, error, stream]; exact respond_eq _ _ _
    | none => rw [resultOf, error, stream]; exact respond_eq _ _ _

/-- What a message to a stream leaves as it is. -/
theorem forward_keeps (streamId : Text) (message : Dict) (self : State) :
    (self.forward streamId message).2.requests = self.requests ∧
      (self.forward streamId message).2.slots = self.slots ∧
      (self.forward streamId message).2.slotCount = self.slotCount ∧
      (self.forward streamId message).2.channelCount = self.channelCount := by
  rw [State.forward]
  split
  · dsimp only
    split_ifs <;> exact ⟨rfl, rfl, rfl, rfl⟩
  · exact ⟨rfl, rfl, rfl, rfl⟩

/-- The other slots stay as they were. -/
theorem respondedSlots_ne {self : State} {slot other : SlotId} (different : other ≠ slot)
    (result : Except Error Response) :
    respondedSlots self slot result other = self.slots other := by
  rw [respondedSlots]
  split_ifs
  · exact Function.update_of_ne different _ _
  · rfl

/-- What an event puts into the slot of a request, if it is the message that answers it. -/
def answerOf (txid : Text) (self : State) (event : Event) : Option (Except Error Response) :=
  match event with
  | .message msg =>
    match received msg with
    | some (message, info) =>
      if info.txid = txid then some (resultOf message info self.channelCount) else none
    | none => none
  | _ => none

/-- What an event does to requests and slots. -/
inductive SlotChange (self next : State) : Event → Prop where
  | registered (txid : Text) (isOpen : Bool) (vacant : self.requests.lookup txid = none)
      (requests : next.requests = self.requests.insert txid self.slotCount)
      (slots : next.slots = Function.update self.slots self.slotCount ⟨isOpen, []⟩)
      (count : next.slotCount = self.slotCount + 1) : SlotChange self next (.request txid isOpen)
  | repeated (txid : Text) (isOpen : Bool) (slot : SlotId)
      (pending : self.requests.lookup txid = some slot)
      (requests : next.requests = self.requests)
      (slots : next.slots = Function.update self.slots self.slotCount
        ⟨isOpen, if isOpen then [.error (.repeatingTx txid)] else []⟩)
      (count : next.slotCount = self.slotCount + 1) : SlotChange self next (.request txid isOpen)
  | answered (msg : List UInt8) (message : Dict) (info : MessageMetadata) (slot : SlotId)
      (read : received msg = some (message, info))
      (pending : self.requests.lookup info.txid = some slot)
      (requests : next.requests = self.requests.erase info.txid)
      (slots : next.slots = respondedSlots self slot (resultOf message info self.channelCount))
      (count : next.slotCount = self.slotCount) : SlotChange self next (.message msg)
  | cleaned
      (requests : next.requests =
        HashMap.retain (fun _ slot => (self.slots slot).isOpen) self.requests)
      (slots : next.slots = self.slots) (count : next.slotCount = self.slotCount) :
      SlotChange self next .cleanup
  | dropped (slot : SlotId) (requests : next.requests = self.requests)
      (slots : next.slots =
        Function.update self.slots slot { self.slots slot with isOpen := false })
      (count : next.slotCount = self.slotCount) : SlotChange self next (.dropReceiver slot)
  | idle (event : Event)
      (unanswered : ∀ txid slot, self.requests.lookup txid = some slot →
        answerOf txid self event = none)
      (requests : next.requests = self.requests) (slots : next.slots = self.slots)
      (count : next.slotCount = self.slotCount) : SlotChange self next event

/-- A message that was read and answers no request leaves requests and slots alone. -/
theorem slotChange_unasked {self : State} {msg : List UInt8} {message : Dict}
    {info : MessageMetadata} (read : received msg = some (message, info))
    (unasked : self.requests.lookup info.txid = none) :
    SlotChange self (self.route message info).2 (.message msg) := by
  have unanswered : ∀ txid slot, self.requests.lookup txid = some slot →
      answerOf txid self (.message msg) = none := by
    intro txid slot pending
    rw [answerOf, read]
    apply if_neg
    rintro rfl
    cases unasked.symm.trans pending
  rw [State.route, unasked]
  cases info.streamId with
  | none => exact .idle _ unanswered rfl rfl rfl
  | some streamId =>
    obtain ⟨requests, slots, count, -⟩ := forward_keeps streamId message self
    exact .idle _ unanswered requests slots count

/-- What one step does to the slots, event by event.

Proof: one case for each event. A message that is read is an answer exactly if its transaction
is registered, and a message that is not read answers nothing. -/
theorem slotChange {self next : State} {event : Event} (stepped : step self event = some next) :
    SlotChange self next event := by
  cases event with
  | request txid isOpen =>
    cases stepped
    rw [State.handleRequest]
    cases pending : self.requests.lookup txid with
    | some slot => exact .repeated txid isOpen slot pending rfl rfl rfl
    | none => exact .registered txid isOpen pending rfl rfl rfl
  | message msg =>
    rcases step_message stepped with ⟨unread, rfl⟩ | ⟨message, info, read, rfl⟩
    · refine .idle _ ?_ rfl rfl rfl
      intro txid slot _
      rw [answerOf, unread]
    · cases pending : self.requests.lookup info.txid with
      | some slot =>
        refine .answered msg message info slot read pending ?_ ?_ ?_ <;> rw [route_answer pending]
        cases info.error <;> cases info.streamId <;> rfl
      | none => exact slotChange_unasked read pending
  | cleanup =>
    cases stepped
    exact .cleaned rfl rfl rfl
  | dropReceiver slot =>
    cases stepped
    exact .dropped slot rfl rfl rfl
  | dropStream channel =>
    cases stepped
    exact .idle _ (fun _ _ _ => rfl) rfl rfl rfl
  | receive channel =>
    simp only [step, Option.ite_none_right_eq_some] at stepped
    obtain ⟨-, same⟩ := stepped
    cases same
    exact .idle _ (fun _ _ _ => rfl) rfl rfl rfl

/-- A message to a stream is appended to its queue, or the stream is given up. -/
theorem forward_held {streamId : Text} {message : Dict} {self : State} {channel : ChannelId}
    (held : self.streams.lookup streamId = some channel) :
    ((self.forward streamId message).2.streams = self.streams ∧
        (self.forward streamId message).2.channels = Function.update self.channels channel
          { self.channels channel with sent := (self.channels channel).sent ++ [message] }) ∨
      ((self.forward streamId message).2.streams = self.streams.erase streamId ∧
        (self.forward streamId message).2.channels = self.channels) := by
  rw [State.forward, held]
  dsimp only
  split_ifs
  · exact Or.inl ⟨rfl, rfl⟩
  · exact Or.inr ⟨rfl, rfl⟩

/-- A message for a stream that is not open changes nothing. -/
theorem forward_unknown {streamId : Text} {message : Dict} {self : State}
    (unknown : self.streams.lookup streamId = none) :
    (self.forward streamId message).2 = self := by
  rw [State.forward, unknown]

/-- What a message does to streams and their queues: nothing, which is not so if it belongs
to a stream that is open or opens one; or it goes to a stream; or it opens one.

Proof: by whether the transaction is registered, whether the message is an error, whether it
names a stream, and whether that stream is open. -/
theorem route_streams (message : Dict) (info : MessageMetadata) (self : State) :
    let next := (self.route message info).2
    (next.streams = self.streams ∧ next.channels = self.channels ∧
        next.channelCount = self.channelCount ∧
        ∀ streamId channel, info.streamId = some streamId →
          self.streams.lookup streamId = some channel →
          ∃ slot emsg, self.requests.lookup info.txid = some slot ∧ info.error = some emsg) ∨
      (∃ streamId channel, info.streamId = some streamId ∧
        self.requests.lookup info.txid = none ∧ self.streams.lookup streamId = some channel ∧
        next.channelCount = self.channelCount ∧
        ((next.streams = self.streams ∧ next.channels = Function.update self.channels channel
            { self.channels channel with sent := (self.channels channel).sent ++ [message] }) ∨
          (next.streams = self.streams.erase streamId ∧ next.channels = self.channels))) ∨
      ∃ streamId slot, info.streamId = some streamId ∧
        self.requests.lookup info.txid = some slot ∧ info.error = none ∧
        next.channelCount = self.channelCount + 1 ∧
        next.streams = self.streams.insert streamId self.channelCount ∧
        next.channels = Function.update self.channels self.channelCount
          ⟨(self.slots slot).isOpen, [], 0⟩ := by
  cases pending : self.requests.lookup info.txid with
  | some slot =>
    rw [route_answer pending]
    cases info.error with
    | some emsg => exact Or.inl ⟨rfl, rfl, rfl, fun _ _ _ _ => ⟨slot, emsg, rfl, rfl⟩⟩
    | none =>
      cases info.streamId with
      | none => exact Or.inl ⟨rfl, rfl, rfl, fun _ _ named => nomatch named⟩
      | some streamId => exact Or.inr (Or.inr ⟨streamId, slot, rfl, rfl, rfl, rfl, rfl, rfl⟩)
  | none =>
    rw [State.route, pending]
    cases info.streamId with
    | none => exact Or.inl ⟨rfl, rfl, rfl, fun _ _ named => nomatch named⟩
    | some streamId =>
      dsimp only
      cases held : self.streams.lookup streamId with
      | none =>
        rw [forward_unknown held]
        refine Or.inl ⟨rfl, rfl, rfl, ?_⟩
        intro other channel named found
        cases named
        cases held.symm.trans found
      | some channel =>
        exact Or.inr (Or.inl ⟨streamId, channel, rfl, rfl, held,
          (forward_keeps streamId message self).2.2.2, forward_held held⟩)

/-- Whether an event is a message. -/
def Event.IsMessage (event : Event) : Prop := ∃ msg, event = .message msg

/-- Only messages are put into queues, and only the clean-up gives up streams otherwise.

Proof: one case for each event other than a message. -/
theorem quiet_step {self next : State} {event : Event} (stepped : step self event = some next)
    (quiet : ¬event.IsMessage) :
    (∀ channel, (next.channels channel).sent = (self.channels channel).sent) ∧
      next.channelCount = self.channelCount ∧
      (next.streams = self.streams ∨
        next.streams = HashMap.retain (fun _ tx => (self.channels tx).isOpen) self.streams) := by
  cases event with
  | request txid isOpen =>
    cases stepped
    rw [State.handleRequest]
    cases self.requests.lookup txid <;> exact ⟨fun _ => rfl, rfl, Or.inl rfl⟩
  | message msg => exact absurd ⟨msg, rfl⟩ quiet
  | cleanup =>
    cases stepped
    exact ⟨fun _ => rfl, rfl, Or.inr rfl⟩
  | dropReceiver dropped =>
    cases stepped
    exact ⟨fun _ => rfl, rfl, Or.inl rfl⟩
  | dropStream dropped =>
    cases stepped
    refine ⟨fun channel => ?_, rfl, Or.inl rfl⟩
    dsimp only
    by_cases same : channel = dropped
    · subst same
      rw [Function.update_self]
    · rw [Function.update_of_ne same]
  | receive receiving =>
    simp only [Admin.step, Option.ite_none_right_eq_some] at stepped
    obtain ⟨-, same⟩ := stepped
    cases same
    refine ⟨fun channel => ?_, rfl, Or.inl rfl⟩
    dsimp only
    by_cases same : channel = receiving
    · subst same
      rw [Function.update_self]
    · rw [Function.update_of_ne same]

end RouteServer.Admin
