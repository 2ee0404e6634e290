import Mathlib.Data.Finset.Basic
import RouteServer.Machine.Runs
import RouteServer.Pns.RecordCodec
import RouteServer.Snode.AnnList
import RouteServer.Snode.MsgpackMessage

/-!
# Connections between route servers

A route server offers its announcements to the servers that connected to it, and asks those
it connected to for announcements it does not know. Each connection has a queue of messages
and a task, which first sends a greeting, a server that was connected to also all hashes it
lists, and then writes what is in the queue and handles what it reads. Handling a message may
put further messages into the queue of the same connection, and waits while the queue is full.

An announcement that is added is offered to the servers that are listed as connected then.
A further task sends pings to connections that have been silent, and takes those that have
been silent for longer off the list, without closing them.

A step is what a task does between two points at which it may wait. All tasks take their
steps in any order. What the other side of a connection sends is not restricted here.
-/

namespace RouteServer.Peers

open Ann
open Snode (AnnList)
open Snode.Msgpack (Message MessageData)

/-- Connections are known by the order in which they were made. -/
abbrev ConnId := Nat

/-- A hash as it is sent. -/
def sentHash (hash : AnnHash) : Snode.Msgpack.AnnHash := ⟨hash.bytes⟩

/-- A hash that was received, as it may be listed: other lengths never are. -/
def listedHash (hash : Snode.Msgpack.AnnHash) : Option AnnHash :=
  if sized : hash.bytes.length = 64 then some ⟨hash.bytes, sized⟩ else none

/-- `AnnList::get`. -/
def get (anns : AnnList) (hash : Snode.Msgpack.AnnHash) : Option (List UInt8) :=
  (listedHash hash).bind anns.annByHash.lookup

/-- `AnnList::hash_known`. -/
def hashKnown (anns : AnnList) (hash : Snode.Msgpack.AnnHash) : Bool := (get anns hash).isSome

/-- `PeerType`. -/
inductive PeerType where
  | incoming
  | outgoing
deriving DecidableEq

/-- What a task goes on with: to read the list of hashes, to send what is left of it, to wait
for messages, or to ask for what is left of the hashes of an `INV`. -/
inductive Stage where
  | listing
  | inviting (chunks : List (List Snode.Msgpack.AnnHash))
  | serving
  | requesting (hashes : List Snode.Msgpack.AnnHash)
deriving DecidableEq

/-- Where the task of a connection stands. It may wait for room in its own queue, or in the
queue of announcements. -/
inductive Task where
  | ready (stage : Stage)
  | sending (message : Message) (next : Stage)
  | announcing (data : List UInt8)
  | closed
deriving DecidableEq

/-- `Peer`, with the receiving end of its queue and its task. -/
structure Peer where
  peerType : PeerType
  lastMsgTime : Nat
  outstandingReqs : Finset UInt64
  msgQueue : List Message
  task : Task
deriving DecidableEq

/-- No connection. -/
def Peer.unused : Peer := ⟨.incoming, 0, ∅, [], .closed⟩

/-- What `add_ann` still has to do for an added hash: to read the list of peers, or to send to
those that are left. -/
structure Offer where
  hash : AnnHash
  waiting : Option (List ConnId)

/-- `do_pings`: the peers that are left to be pinged, the number of the ping that is being
sent, and the peers that are left to be dropped. -/
structure Pings where
  pingList : List ConnId := []
  seq : Option UInt64 := none
  dropList : List ConnId := []

/-- `Peers`, with its tasks and all connections that were made. -/
structure State where
  anns : AnnList := AnnList.new
  peers : List ConnId := []
  conns : ConnId → Peer := fun _ => Peer.unused
  connCount : Nat := 0
  msgIdSeq : UInt64
  announces : List (List UInt8) := []
  offers : Nat → Offer := fun _ => ⟨⟨List.replicate 64 255, rfl⟩, some []⟩
  offerCount : Nat := 0
  pings : Pings := {}

/-- `Peers::VERSION`. -/
def version : UInt64 := 1

/-- `QUEUE_SIZE` of a connection. -/
def queueSize : Nat := 1024

/-- `QUEUE_SIZE` of the announcements. -/
def announceQueueSize : Nat := 256

/-- `DROP_AFTER` and `PING_AFTER`, in seconds. -/
def dropAfter : Nat := 60
def pingAfter : Nat := 20

namespace Peer

/-- `send` on the queue, when there is room. -/
def push (message : Message) (peer : Peer) : Peer :=
  { peer with msgQueue := peer.msgQueue ++ [message] }

/-- The task ends, and with it the receiving end of the queue. -/
def close (peer : Peer) : Peer := { peer with msgQueue := [], task := .closed }

/-- The greeting, and what the task goes on with after it. -/
def greeting : PeerType → Task
  | .incoming => .sending ⟨0, .hello version⟩ .listing
  | .outgoing => .sending ⟨0, .olleh version⟩ .serving

/-- `handle_message`, as far as it does not wait. An error closes the connection. -/
def handleMessage (anns : AnnList) (now : Nat) (message : Message) (peer : Peer) : Peer :=
  let peer := { peer with lastMsgTime := now }
  match message.data with
  | .hello _ => if peer.peerType = .outgoing then peer else peer.close
  | .olleh _ => if peer.peerType = .outgoing then peer.close else peer
  | .getData hash =>
    { peer with task := .sending ⟨message.id, .data ((get anns hash).getD [])⟩ .serving }
  | .ping => { peer with task := .sending ⟨message.id, .ack⟩ .serving }
  | .ack => peer
  | .inv hashes =>
    if peer.peerType = .outgoing then { peer with task := .ready (.requesting hashes) } else peer
  | .data data =>
    if peer.peerType = .outgoing then
      if message.id ∈ peer.outstandingReqs then
        { peer with
          outstandingReqs := peer.outstandingReqs.erase message.id
          task := .announcing data }
      else peer.close
    else peer

end Peer

namespace State

/-- `Peers::new`. -/
def new (seed : UInt64) : State := { msgIdSeq := seed }

/-- One connection is changed. -/
def setPeer (conn : ConnId) (peer : Peer) (self : State) : State :=
  { self with conns := Function.update self.conns conn peer }

/-- `create_peer`, and the task of the connection begins. -/
def createPeer (peerType : PeerType) (now : Nat) (self : State) : State :=
  { self with
    peers := self.peers ++ [self.connCount]
    conns := Function.update self.conns self.connCount
      ⟨peerType, now, ∅, [], Peer.greeting peerType⟩
    connCount := self.connCount + 1 }

/-- A stage of a task. -/
def runStage (conn : ConnId) (peer : Peer) (self : State) : Stage → Option State
  | .listing =>
    let hashList := self.anns.annHashesOrdered.map sentHash
    some (self.setPeer conn { peer with task := .ready (.inviting (Pns.chunks 128 hashList)) })
  | .inviting [] => some (self.setPeer conn { peer with task := .ready .serving })
  | .inviting (hashes :: chunks) =>
    some (self.setPeer conn { peer with task := .sending ⟨0, .inv hashes⟩ (.inviting chunks) })
  | .requesting [] => some (self.setPeer conn { peer with task := .ready .serving })
  | .requesting (hash :: hashes) =>
    if hashKnown self.anns hash then
      some (self.setPeer conn { peer with task := .ready (.requesting hashes) })
    else
      some { self.setPeer conn { peer with
              outstandingReqs := insert self.msgIdSeq peer.outstandingReqs
              task := .sending ⟨self.msgIdSeq, .getData hash⟩ (.requesting hashes) } with
        msgIdSeq := self.msgIdSeq + 1 }
  | .serving => none

/-- The next step of the task of a connection, other than writing and reading. -/
def advance (conn : ConnId) (self : State) : Option State :=
  let peer := self.conns conn
  match peer.task with
  | .ready stage => self.runStage conn peer stage
  | .sending message next =>
    if peer.msgQueue.length < queueSize then
      some (self.setPeer conn { peer.push message with task := .ready next })
    else none
  | .announcing data =>
    if self.announces.length < announceQueueSize then
      some { self.setPeer conn { peer with task := .ready .serving } with
        announces := self.announces ++ [data] }
    else none
  | .closed => none

/-- A message is taken from the queue and written. -/
def write (conn : ConnId) (self : State) : Option State :=
  let peer := self.conns conn
  match peer.task, peer.msgQueue with
  | .ready .serving, _ :: queue => some (self.setPeer conn { peer with msgQueue := queue })
  | _, _ => none

/-- A message is read and handled. -/
def read (conn : ConnId) (now : Nat) (message : Message) (self : State) : Option State :=
  let peer := self.conns conn
  match peer.task with
  | .ready .serving => some (self.setPeer conn (peer.handleMessage self.anns now message))
  | _ => none

/-- Reading or writing ends in an error. -/
def disconnect (conn : ConnId) (self : State) : Option State :=
  let peer := self.conns conn
  match peer.task with
  | .ready .serving => some (self.setPeer conn peer.close)
  | _ => none

/-- `drop_peer`. -/
def dropPeer (conn : ConnId) (self : State) : State :=
  { self with peers := self.peers.filter (· ≠ conn) }

/-- The first part of `add_ann`, up to the lock on the announcements being released. -/
def addAnn (hash : AnnHash) (binary : List UInt8) (self : State) : State :=
  if self.anns.annHashesOrdered.any (· = hash) then self
  else { self with
    anns := self.anns.add hash binary
    offers := Function.update self.offers self.offerCount ⟨hash, none⟩
    offerCount := self.offerCount + 1 }

/-- The list of peers is read. -/
def listPeers (offer : Nat) (self : State) : Option State :=
  match self.offers offer with
  | ⟨hash, none⟩ =>
    some { self with offers := Function.update self.offers offer ⟨hash, some self.peers⟩ }
  | _ => none

/-- The hash is sent to the next peer, if it is an incoming one. To a closed connection it is
sent in vain. -/
def offerNext (offer : Nat) (self : State) : Option State :=
  match self.offers offer with
  | ⟨hash, some (conn :: rest)⟩ =>
    let peer := self.conns conn
    let offered := { self with offers := Function.update self.offers offer ⟨hash, some rest⟩ }
    if peer.peerType ≠ .incoming ∨ peer.task = .closed then some offered
    else if peer.msgQueue.length < queueSize then
      some (offered.setPeer conn (peer.push ⟨0, .inv [sentHash hash]⟩))
    else none
  | _ => none

/-- `get_timed_out_peers`, when the last round of pings is over. -/
def timeOut (now : Nat) (self : State) : Option State :=
  match self.pings with
  | ⟨[], none, []⟩ =>
    let lag := fun conn => now - (self.conns conn).lastMsgTime
    some { self with pings :=
      { pingList := self.peers.filter fun conn => lag conn ≤ dropAfter ∧ lag conn > pingAfter
        dropList := self.peers.filter fun conn => lag conn > dropAfter } }
  | _ => none

/-- The next part of a round of pings: a number is taken, a ping is sent, or a peer is
dropped. -/
def pingNext (self : State) : Option State :=
  match self.pings with
  | ⟨conn :: rest, none, dropList⟩ =>
    some { self with
      pings := ⟨conn :: rest, some self.msgIdSeq, dropList⟩
      msgIdSeq := self.msgIdSeq + 1 }
  | ⟨conn :: rest, some seq, dropList⟩ =>
    let peer := self.conns conn
    let pinged := { self with pings := ⟨rest, none, dropList⟩ }
    if peer.task = .closed then some pinged
    else if peer.msgQueue.length < queueSize then
      some (pinged.setPeer conn (peer.push ⟨seq, .ping⟩))
    else none
  | ⟨[], seq, conn :: rest⟩ => some { self.dropPeer conn with pings := ⟨[], seq, rest⟩ }
  | ⟨[], _, []⟩ => none

/-- The next announcement is taken by the task that handles announcements. -/
def takeAnnounce (self : State) : Option State :=
  match self.announces with
  | _ :: rest => some { self with announces := rest }
  | [] => none

end State

/-- What happens to the connections of a server. -/
inductive Event where
  | connect (peerType : PeerType) (now : Nat)
  | advance (conn : ConnId)
  | write (conn : ConnId)
  | read (conn : ConnId) (now : Nat) (message : Message)
  | disconnect (conn : ConnId)
  | dropPeer (conn : ConnId)
  | addAnn (hash : AnnHash) (binary : List UInt8)
  | delAnn (hash : AnnHash)
  | listPeers (offer : Nat)
  | offerNext (offer : Nat)
  | timeOut (now : Nat)
  | pingNext
  | takeAnnounce

/-- One event. A connection is dropped after its task has ended. -/
def step (self : State) : Event → Option State
  | .connect peerType now => some (self.createPeer peerType now)
  | .advance conn => self.advance conn
  | .write conn => self.write conn
  | .read conn now message => self.read conn now message
  | .disconnect conn => self.disconnect conn
  | .dropPeer conn => if (self.conns conn).task = .closed then some (self.dropPeer conn) else none
  | .addAnn hash binary => some (self.addAnn hash binary)
  | .delAnn hash => some { self with anns := self.anns.delAnn hash }
  | .listPeers offer => self.listPeers offer
  | .offerNext offer => self.offerNext offer
  | .timeOut now => self.timeOut now
  | .pingNext => self.pingNext
  | .takeAnnounce => self.takeAnnounce

/-- The connections of a server as a machine. -/
def peers (seed : UInt64) : Machine.System State Event where
  initial := State.new seed
  step := step

end RouteServer.Peers
