import RouteServer.Core.Encoding
import RouteServer.Core.Keys
import RouteServer.Core.RoutingLabel

/-!
# Announcements

An announcement is the parsed form of a signed packet: its header, its entities,
the key and the address of the node it comes from, the packet itself and its hash.
-/

namespace RouteServer.Ann

open Rust Keys Encoding Labels

/-- `AnnHash`. -/
abbrev AnnHash : Type := Digest

/-- `LINK_STATE_SLOTS`. -/
def linkStateSlots : Nat := 18

/-- `PeerData`. A missing label withdraws the route. -/
structure PeerData where
  ipv6 : Ip6
  label : Option (RoutingLabel 32)
  mtu : UInt32
  peerNum : UInt16
  unused : UInt32
  encodingFormNumber : UInt8
  flags : UInt8
deriving DecidableEq

/-- `LinkStateData`. -/
structure LinkStateData where
  nodeId : UInt16
  startingPoint : UInt8
  lagSlots : Vector (Option UInt16) linkStateSlots
  dropSlots : Vector (Option UInt16) linkStateSlots
  kbRecvSlots : Vector (Option UInt32) linkStateSlots
deriving DecidableEq

/-- `Entity`. -/
inductive Entity where
  | nodeProtocolVersion (version : UInt16)
  | peer (data : PeerData)
  | encodingScheme (hex : List Char) (scheme : EncodingScheme)
  | linkState (data : LinkStateData)
deriving DecidableEq

/-- `AnnouncementHeader`. -/
structure AnnouncementHeader where
  signature : List Char
  pubSigningKey : List Char
  snodeIp : Ip6
  version : UInt8
  isReset : Bool
  timestamp : UInt64
deriving DecidableEq

/-- `Announcement`. -/
structure Announcement where
  header : AnnouncementHeader
  entities : List Entity
  nodePubKey : PublicKey
  nodeIp : Ip6
  binary : List UInt8
  hash : AnnHash
deriving DecidableEq

end RouteServer.Ann
