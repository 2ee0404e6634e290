import Mathlib.Logic.Function.Basic
import RouteServer.Bencode.Dict
import RouteServer.Bencode.Parser
import RouteServer.Machine.Runs
import RouteServer.Rust.HashMap
import RouteServer.Rust.Utf8

/-!
# Dispatch of admin messages

A request is registered under its `txid` with a slot for the response. An incoming message
completes the slot of its `txid`, if one is registered; a response that names a `streamId`
opens a stream, replacing an earlier one of that name. Other messages go to the stream they
name. A stream has a queue of limited length, and is given up when a message does not fit.

Slots and queues belong to the two sides that use them: the dispatcher holds the sending
ends, and the receiving ends may be dropped at any time. Both sides are events here. A
message on which the parser panics ends the dispatcher, so nothing can follow it. That the
dispatcher is ready for a response is signalled in every case and left out.
-/

namespace RouteServer.Admin

open Rust Bencode

/-- `STREAM_QUEUE_BOUND`. -/
def streamQueueBound : Nat := 0x100

/-- The parser for messages, with `BENCODE_MAX_RECURSION`. -/
def messageLimits : Limits := ⟨0x20, true⟩

/-- `Error`, as far as the dispatcher raises it. -/
inductive Error where
  | protocol (report : String)
  | remoteError (emsg : Text)
  | repeatingTx (txid : Text)
  | dispatchDestination (reason : String)
deriving DecidableEq

/-- `MessageMetadata`. -/
structure MessageMetadata where
  txid : Text
  error : Option Text
  streamId : Option Text
deriving DecidableEq

/-- An error message that tells of no error: it is empty or `none` in any case. -/
def isNoError (emsg : Text) : Bool := emsg.isEmpty || emsg.map Char.toLower == "none".toList

/-- `read_from`. -/
def MessageMetadata.readFrom (src : Dict) : Except Error MessageMetadata :=
  match tryGet Object.asStr (src.getObj "txid") with
  | .error e => .error (.protocol ("Error getting txid: " ++ e))
  | .ok none => .error (.protocol "txid missing")
  | .ok (some txid) =>
    let error := match tryGet Object.asStr (src.getObj "error") with
      | .ok (some emsg) => if isNoError emsg then none else some emsg
      | .ok none => none
      | .error _ => some "unrecognized error".toList
    let streamId := match tryGet Object.asStr (src.getObj "streamId") with
      | .ok id => id
      | .error _ => none
    .ok { txid, error, streamId }

/-- `decode_message`. -/
def decodeMessage (msg : List UInt8) : Outcome Error Dict :=
  match parse messageLimits msg with
  | .ok (.dict entries, _) => .ok entries
  | .ok _ => .err (.protocol "Incoming message is not a dict")
  | .err e => .err (.protocol ("Error parsing incoming message: " ++ e.message))
  | .panicked => .panicked

/-- Slots and queues are known by the order in which they were made. -/
abbrev SlotId := Nat
abbrev ChannelId := Nat

/-- `Response`: its stream is the receiving end of a queue. -/
structure Response where
  message : Dict
  stream : Option ChannelId

/-- A slot: whether its receiver is there, and the results that were put into it. -/
structure Slot where
  isOpen : Bool
  results : List (Except Error Response)

/-- A queue: whether its receiver is there, what was put into it, and how much of it the
receiver has taken. -/
structure Channel where
  isOpen : Bool
  sent : List Dict
  taken : Nat

/-- What the receiver of a queue has seen. -/
def Channel.seen (channel : Channel) : List Dict := channel.sent.take channel.taken

/-- `State`, with all slots and queues that were made. -/
structure State where
  requests : AList (fun _ : Text => SlotId) := ∅
  streams : AList (fun _ : Text => ChannelId) := ∅
  slots : SlotId → Slot := fun _ => ⟨false, []⟩
  slotCount : Nat := 0
  channels : ChannelId → Channel := fun _ => ⟨false, [], 0⟩
  channelCount : Nat := 0

namespace State

/-- `cleanup`. -/
def cleanup (self : State) : State :=
  { self with
    requests := HashMap.retain (fun _ slot => (self.slots slot).isOpen) self.requests
    streams := HashMap.retain (fun _ tx => (self.channels tx).isOpen) self.streams }

/-- `send` on a slot, which takes the result only if its receiver is there. -/
def respond (slot : SlotId) (response : Except Error Response) (self : State) :
    Outcome Error Unit × State :=
  if (self.slots slot).isOpen then
    (.ok (), { self with
      slots := Function.update self.slots slot
        ⟨true, (self.slots slot).results ++ [response]⟩ })
  else (.err (.dispatchDestination "Recipient for response message is closed"), self)

/-- A new queue for a stream. Its receiver goes into the response, and is there as long as
the receiver of the response is. -/
def openStream (streamId : Text) (slot : SlotId) (self : State) : State :=
  { self with
    streams := self.streams.insert streamId self.channelCount
    channels := Function.update self.channels self.channelCount
      ⟨(self.slots slot).isOpen, [], 0⟩
    channelCount := self.channelCount + 1 }

/-- The branch of `dispatch_message` for a message that answers a request. -/
def answer (slot : SlotId) (message : Dict) (info : MessageMetadata) (self : State) :
    Outcome Error Unit × State :=
  match info.error with
  | some emsg => self.respond slot (.error (.remoteError emsg))
  | none =>
    match info.streamId with
    | some s => (self.openStream s slot).respond slot (.ok ⟨message, some self.channelCount⟩)
    | none => self.respond slot (.ok ⟨message, none⟩)

/-- The branch for a message to a stream. -/
def forward (streamId : Text) (message : Dict) (self : State) : Outcome Error Unit × State :=
  match self.streams.lookup streamId with
  | some stream =>
    let channel := self.channels stream
    if channel.isOpen ∧ channel.sent.length - channel.taken < streamQueueBound then
      (.ok (), { self with
        channels := Function.update self.channels stream
          { channel with sent := channel.sent ++ [message] } })
    else
      (.err (.dispatchDestination "Failed to handle stream message, unsubscribing"),
        { self with streams := self.streams.erase streamId })
  | none => (.err (.dispatchDestination "Unknown streamId in incoming message"), self)

/-- What `dispatch_message` does with a message that was read. -/
def route (message : Dict) (info : MessageMetadata) (self : State) :
    Outcome Error Unit × State :=
  match self.requests.lookup info.txid with
  | some slot =>
    { self with requests := self.requests.erase info.txid }.answer slot message info
  | none =>
    match info.streamId with
    | some streamId => self.forward streamId message
    | none => (.err (.dispatchDestination "Unknown txid in incoming message"), self)

/-- `dispatch_message`. -/
def dispatchMessage (msg : List UInt8) (self : State) : Outcome Error Unit × State :=
  match decodeMessage msg with
  | .ok message =>
    match MessageMetadata.readFrom message with
    | .ok info => self.route message info
    | .error fault => (.err fault, self)
  | .err fault => (.err fault, self)
  | .panicked => (.panicked, self)

/-- `handle_request`, with a new slot whose receiver is there or has been dropped. -/
def handleRequest (txid : Text) (isOpen : Bool) (self : State) : State :=
  match self.requests.lookup txid with
  | some _ =>
    { self with
      slots := Function.update self.slots self.slotCount
        ⟨isOpen, if isOpen then [.error (.repeatingTx txid)] else []⟩
      slotCount := self.slotCount + 1 }
  | none =>
    { self with
      requests := self.requests.insert txid self.slotCount
      slots := Function.update self.slots self.slotCount ⟨isOpen, []⟩
      slotCount := self.slotCount + 1 }

end State

/-- What happens to the dispatcher, and what the receivers do. -/
inductive Event where
  | request (txid : Text) (isOpen : Bool)
  | message (msg : List UInt8)
  | cleanup
  | dropReceiver (slot : SlotId)
  | dropStream (channel : ChannelId)
  | receive (channel : ChannelId)

/-- One event. -/
def step (self : State) : Event → Option State
  | .request txid isOpen => some (self.handleRequest txid isOpen)
  | .message msg =>
    match self.dispatchMessage msg with
    | (.panicked, _) => none
    | (_, next) => some next
  | .cleanup => some self.cleanup
  | .dropReceiver slot => some { self with
      slots := Function.update self.slots slot { self.slots slot with isOpen := false } }
  | .dropStream channel => some { self with
      channels := Function.update self.channels channel
        { self.channels channel with isOpen := false } }
  | .receive channel =>
    let queue := self.channels channel
    if queue.taken < queue.sent.length then some { self with
      channels := Function.update self.channels channel { queue with taken := queue.taken + 1 } }
    else none

/-- The dispatcher and its surroundings. -/
def dispatcher : Machine.System State Event where
  initial := {}
  step := step

/-- A message as far as it is routed: its contents and what was read from them. -/
def received (msg : List UInt8) : Option (Dict × MessageMetadata) :=
  match decodeMessage msg with
  | .ok message => (MessageMetadata.readFrom message).toOption.map fun info => (message, info)
  | _ => none

end RouteServer.Admin
