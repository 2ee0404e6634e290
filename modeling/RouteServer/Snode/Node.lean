import RouteServer.Snode.AnnList
import RouteServer.Snode.Link
import RouteServer.Snode.Prune

/-!
# The table of nodes

Nodes are known by address. A node keeps the announcements it is made of, its last
reset message and the links into it. Whenever a node leaves the table its
announcements leave the list offered to peers.
-/

namespace RouteServer.Snode

open Rust Keys Ann Encoding

/-- `NodeType`. -/
inductive NodeType where
  | node
deriving DecidableEq

/-- `NodeMut`. -/
structure NodeMut where
  timestamp : SystemTime
  announcements : List Announcement
  stateHash : Option AnnHash
  resetMsg : Option Announcement

/-- `Node`. -/
structure Node where
  nodeType : NodeType
  version : UInt16
  key : PublicKey
  ipv6 : Ip6
  encodingScheme : EncodingScheme
  inwardLinksByIp : InwardLinks
  mutState : NodeMut

/-- `nodes_by_ip`. -/
abbrev Nodes : Type := AList (fun _ : Ip6 => Node)

/-- `Server`, with the parts of its state that announcements read or change. -/
structure Server where
  nodes : Nodes
  anns : AnnList
  selfNode : Option Node
  currentNode : Option Ip6

/-- `Server::new`. -/
def Server.new : Server := ⟨∅, AnnList.new, none, none⟩

/-- The hashes of the announcements a node holds, its reset message last. -/
def NodeMut.hashes (state : NodeMut) : List AnnHash :=
  state.announcements.map Announcement.hash ++ (state.resetMsg.map Announcement.hash).toList

/-- `forget_node`. -/
def forgetNode (node : Node) (anns : AnnList) : AnnList := anns.delAnns node.mutState.hashes

/-- `new_node`. -/
def newNode (nodes : Nodes) (version : UInt16) (key : PublicKey)
    (encodingScheme : Option EncodingScheme) (timestamp : SystemTime) (ipv6 : Ip6)
    (announcement : Option Announcement) : Except String Node :=
  let scheme := match encodingScheme with
    | some encodingScheme => some encodingScheme
    | none => (nodes.lookup ipv6).map Node.encodingScheme
  match scheme with
  | none => .error "cannot create node we do not know its encoding scheme"
  | some scheme => .ok {
      nodeType := .node
      version := version
      key := key
      ipv6 := ipv6
      encodingScheme := scheme
      inwardLinksByIp := ∅
      mutState := {
        timestamp := timestamp
        announcements := announcement.toList
        stateHash := none
        resetMsg := announcement } }

/-- `add_node`. -/
def addNode (server : Server) (node : Node) (overwrite : Bool) : Option Server :=
  if node.nodeType ≠ .node then none
  else
    match server.nodes.lookup node.ipv6 with
    | some oldNode =>
      if overwrite = false then none
      else some { server with
        anns := forgetNode oldNode server.anns
        nodes := server.nodes.insert node.ipv6 node }
    | none => some { server with nodes := server.nodes.insert node.ipv6 node }

/-- `GLOBAL_TIMEOUT`. -/
def globalTimeout : Int := seconds (60 * 60 * 20) + agreedTimeout

/-- `keep_table_clean`. -/
def keepTableClean (now : SystemTime) (server : Server) : Server :=
  let minTime := now - globalTimeout
  { server with
    nodes := HashMap.retain (fun _ node => ¬node.mutState.timestamp < minTime) server.nodes
    anns := server.nodes.entries.foldl (fun anns entry =>
      if entry.2.mutState.timestamp < minTime then forgetNode entry.2 anns else anns) server.anns }

/-- Put announcements of a given time in place of those of a node. -/
def NodeMut.withAnnouncements (announcements : List Announcement) (timestamp : SystemTime)
    (state : NodeMut) : NodeMut :=
  { state with announcements := announcements, timestamp := timestamp }

/-- `add_announcement` on the state of a node. -/
def addAnnouncement (ann : Announcement) (state : NodeMut) : NodeMut :=
  state.withAnnouncements (pruneAnnouncements ann state.announcements).1 (annTime ann)

/-- The announcements dropped by `add_announcement` that leave the list offered to
peers: the reset message stays listed. -/
def droppedHashes (ann : Announcement) (state : NodeMut) : List AnnHash :=
  ((pruneAnnouncements ann state.announcements).2.filter
    (fun a => some a ≠ state.resetMsg)).map Announcement.hash

/-- A node has the announcements that it is given. -/
@[simp] theorem NodeMut.withAnnouncements_announcements (announcements : List Announcement)
    (timestamp : SystemTime) (state : NodeMut) :
    (state.withAnnouncements announcements timestamp).announcements = announcements := rfl

/-- What `add_announcement` leaves of the announcements. -/
@[simp] theorem addAnnouncement_announcements (ann : Announcement) (state : NodeMut) :
    (addAnnouncement ann state).announcements = (pruneAnnouncements ann state.announcements).1 :=
  NodeMut.withAnnouncements_announcements _ _ state

/-- The reset message outlives every announcement. -/
@[simp] theorem addAnnouncement_resetMsg (ann : Announcement) (state : NodeMut) :
    (addAnnouncement ann state).resetMsg = state.resetMsg := rfl

end RouteServer.Snode
