import RouteServer.Ann.Parser
import RouteServer.Snode.Node

/-!
# Handling of announcements

A packet comes directly from a node or by gossip from a peer. It is read, checked
against what is known of its node and of this server, and then resolved: the version
and the encoding scheme of the node are determined. What is accepted changes the node
and the links into it, and is offered to peers. The answer is the hash over the
announcements of the node, with a reason if the packet was not accepted.

The stages follow the source one by one. A stage that rejects clears the announcement
and leaves a reason; the stages after it then do nothing. Each call is atomic, and
logging is left out.
-/

namespace RouteServer.Snode

open Rust Keys Ann Encoding

/-- Where a packet comes from: `Some` route header, or none. -/
inductive Source where
  | direct
  | gossip
deriving DecidableEq

/-- `ReplyError`. -/
inductive ReplyError where
  | none
  | failedParseOrValidate
  | oldMessage
  | wrongSnode
  | excessiveClockSkew
  | noEncodingScheme
  | noVersion
  | unknownNode
deriving DecidableEq

/-- The text of a reply error. -/
def ReplyError.text : ReplyError → String
  | none => "none"
  | failedParseOrValidate => "failed_parse_or_validate"
  | oldMessage => "old_message"
  | wrongSnode => "wrong_snode"
  | excessiveClockSkew => "excessive_clock_skew"
  | noEncodingScheme => "no_encodingScheme"
  | noVersion => "no_version"
  | unknownNode => "unknown_node"

/-- How a call ends. -/
inductive Handled where
  | replied (hash : AnnHash) (replyError : ReplyError)
  | failed (message : String)
  | panicked
deriving DecidableEq

/-- What a call takes from its surroundings. -/
structure Call where
  now : SystemTime
  order : LinkOrder

/-- `MAX_CLOCKSKEW`. -/
def maxClockskew : Int := seconds 10

/-- `time_diff`. -/
def timeDiff (first second : SystemTime) : Int := |first - second|

/-- `encoding_scheme_from_announcement`. -/
def encodingSchemeFromAnnouncement (ann : Announcement) : Option EncodingScheme :=
  ann.entities.findSome? fun
    | .encodingScheme _ scheme => some scheme
    | _ => none

/-- `version_from_announcement`. -/
def versionFromAnnouncement (ann : Announcement) : Option UInt16 :=
  ann.entities.findSome? fun
    | .nodeProtocolVersion version => some version
    | _ => none

/-- The hash that `node_announcement_hash` computes over announcements, the oldest
first. -/
def announcementsHash (crypto : Crypto) (announcements : List Announcement) : AnnHash :=
  announcements.reverse.foldl (fun carry ann => crypto.sha512 (carry.bytes ++ ann.binary))
    ⟨List.replicate 64 0, rfl⟩

/-- A node of the table, with the address it is stored under. -/
structure Known where
  ip : Ip6
  node : Node

/-- `by_ip`. -/
def byIp (nodes : Nodes) (ip : Ip6) : Option Known := (nodes.lookup ip).map (Known.mk ip)

/-- Write the state hash of a node. -/
def Node.withStateHash (hash : AnnHash) (node : Node) : Node :=
  { node with mutState := { node.mutState with stateHash := some hash } }

/-- The answer with `node_announcement_hash`, which also stores the hash in the
node. -/
def reply (crypto : Crypto) (ip : Option Ip6) (replyError : ReplyError) (server : Server) :
    Server × Handled :=
  match ip.bind (byIp server.nodes) with
  | some known =>
    let hash := announcementsHash crypto known.node.mutState.announcements
    ({ server with nodes := HashMap.modify known.ip (Node.withStateHash hash) server.nodes },
      .replied hash replyError)
  | none => (server, .replied (announcementsHash crypto []) replyError)

/-- The announcement while it is not rejected, and the reason it was rejected for. -/
structure Intake where
  annOpt : Option Announcement
  replyError : ReplyError

/-- The check of a direct packet against the time of its node. -/
def checkAge (source : Source) (known : Option Known) (intake : Intake) : Intake :=
  match known, intake.annOpt with
  | some known, some ann =>
    if source = .direct ∧ known.node.mutState.timestamp > annTime ann then ⟨none, .oldMessage⟩
    else intake
  | _, _ => intake

/-- A direct packet must be meant for this server. -/
def checkSnode (selfNode : Node) (intake : Intake) : Intake :=
  match intake.annOpt with
  | some ann => if ann.header.snodeIp ≠ selfNode.ipv6 then ⟨none, .wrongSnode⟩ else intake
  | none => intake

/-- The clock of a direct packet must be close to the local one. -/
def checkSkew (now : SystemTime) (intake : Intake) : Intake :=
  match intake.annOpt with
  | some ann =>
    if timeDiff now (annTime ann) > maxClockskew then ⟨none, .excessiveClockSkew⟩ else intake
  | none => intake

/-- Gossip must not be about this server. -/
def checkGossip (selfNode : Option Node) (intake : Intake) : Intake :=
  match selfNode, intake.annOpt with
  | some selfNode, some ann =>
    if ann.nodeIp = selfNode.ipv6 then ⟨none, .wrongSnode⟩ else intake
  | _, _ => intake

/-- The checks that depend on where a packet comes from. -/
def checkSource (now : SystemTime) (source : Source) (selfNode : Option Node) (intake : Intake) :
    Except String Intake :=
  match source with
  | .direct =>
    match selfNode with
    | none => .error "no self_node"
    | some selfNode => .ok (checkSkew now (checkSnode selfNode intake))
  | .gossip => .ok (checkGossip selfNode intake)

/-- The encoding scheme of the node. The first branch is taken whenever there is an
announcement. -/
def resolveScheme (known : Option Known) (intake : Intake) : Option EncodingScheme × Intake :=
  match intake.annOpt.map encodingSchemeFromAnnouncement with
  | some scheme => (scheme, intake)
  | none =>
    match known with
    | some known => (some known.node.encodingScheme, intake)
    | none =>
      if intake.annOpt.isSome then (none, ⟨none, .noEncodingScheme⟩) else (none, intake)

/-- The version of the node, in the same way. -/
def resolveVersion (known : Option Known) (intake : Intake) : Option UInt16 × Intake :=
  match intake.annOpt.map versionFromAnnouncement with
  | some version => (version, intake)
  | none =>
    match known with
    | some known => (some known.node.version, intake)
    | none => if intake.annOpt.isSome then (none, ⟨none, .noVersion⟩) else (none, intake)

/-- The links into the node after the peer loop and the link states. -/
def updateLinks (order : LinkOrder) (ann : Announcement) (node : Node) : Node :=
  { node with
    inwardLinksByIp := linkStateUpdate1 order ann (applyPeers ann node.inwardLinksByIp) }

/-- Whether a node holds an announcement, in its list or as its reset message. -/
def Node.holds (node : Node) (ann : Announcement) : Prop :=
  ann ∈ node.mutState.announcements ∨ node.mutState.resetMsg = some ann

instance (node : Node) (ann : Announcement) : Decidable (node.holds ann) :=
  inferInstanceAs (Decidable (_ ∨ _))

/-- What follows once the node of an accepted announcement is in the table. -/
def finish (crypto : Crypto) (call : Call) (ann : Announcement) (replyError : ReplyError)
    (server : Server) : Server × Handled :=
  let nodes := HashMap.modify ann.nodeIp (updateLinks call.order ann) server.nodes
  let hasAnn := match nodes.lookup ann.nodeIp with
    | some node => decide (node.holds ann)
    | none => false
  reply crypto (some ann.nodeIp) replyError { server with
    nodes := nodes
    anns := if hasAnn then server.anns.addAnn ann.hash ann.binary else server.anns }

/-- An announcement whose scheme and version are resolved. -/
def accept (crypto : Crypto) (call : Call) (known : Option Known) (scheme : Option EncodingScheme)
    (version : Option UInt16) (ann : Announcement) (replyError : ReplyError) (server : Server) :
    Server × Handled :=
  if ∃ node ∈ known, node.node.mutState.timestamp > annTime ann then
    reply crypto (known.map Known.ip) replyError server
  else if ann.header.isReset then
    match version with
    | none => (server, .panicked)
    | some version =>
      match newNode server.nodes version ann.nodePubKey scheme (annTime ann) ann.nodeIp
          (some ann) with
      | .error message => (server, .failed message)
      | .ok n =>
        match addNode server n true with
        | none => (server, .failed "internal error: add_node() failed")
        | some server => finish crypto call ann replyError server
  else
    match known with
    | some known =>
      finish crypto call ann replyError { server with
        anns := server.anns.delAnns (droppedHashes ann known.node.mutState)
        nodes := server.nodes.insert known.ip
          { known.node with mutState := addAnnouncement ann known.node.mutState } }
    | none => reply crypto none .unknownNode server

/-- The state after a packet has been read, and what is known of its node. -/
def enter (outcome : Outcome PacketError Announcement) (server : Server) :
    Server × Option Known × Intake :=
  match outcome with
  | .ok ann =>
    ({ server with currentNode := some ann.nodeIp }, byIp server.nodes ann.nodeIp,
      ⟨some ann, .none⟩)
  | _ => (server, none, ⟨none, .failedParseOrValidate⟩)

/-- All checks on a packet. The own node is looked up for packets that parse only. -/
def check (call : Call) (source : Source) (server : Server) (known : Option Known)
    (intake : Intake) : Except String Intake :=
  checkSource call.now source (intake.annOpt.bind fun _ => server.selfNode)
    (checkAge source known intake)

/-- `handle_announce_impl`. -/
def handleAnnounceImpl (crypto : Crypto) (call : Call) (announce : List UInt8) (source : Source)
    (server : Server) : Server × Handled :=
  match readAnnouncement crypto announce with
  | .panicked => (server, .panicked)
  | outcome =>
    let (server, known, intake) := enter outcome server
    match check call source server known intake with
    | .error message => (server, .failed message)
    | .ok intake =>
      let (scheme, intake) := resolveScheme known intake
      let (version, intake) := resolveVersion known intake
      match intake.annOpt with
      | none => reply crypto (known.map Known.ip) intake.replyError server
      | some ann => accept crypto call known scheme version ann intake.replyError server

end RouteServer.Snode
