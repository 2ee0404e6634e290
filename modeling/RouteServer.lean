import RouteServer.Machine.Runs
import RouteServer.Machine.Refinement
import RouteServer.Rust.Outcome
import RouteServer.Rust.Checked
import RouteServer.Rust.Agreement
import RouteServer.Rust.LittleEndian
import RouteServer.Rust.OrderedMap
import RouteServer.Rust.HashMap
import RouteServer.Rust.PositionIndex
import RouteServer.Rust.Utf8
import RouteServer.Rust.Pattern
import RouteServer.Rust.Base32
import RouteServer.Rust.Reader
import RouteServer.Rust.BigEndian
import RouteServer.Rust.FirstMatch
import RouteServer.Words.MarkerBit
import RouteServer.Words.OnesComplement
import RouteServer.Words.Double
import RouteServer.Words.Groups
import RouteServer.Graphs.ShortestRoute
import RouteServer.Bencode.Object
import RouteServer.Bencode.Parser
import RouteServer.Bencode.Serializer
import RouteServer.Bencode.RoundTrip
import RouteServer.Bencode.Parsed
import RouteServer.Bencode.Aligned
import RouteServer.Bencode.Alignment
import RouteServer.Bencode.Grammar
import RouteServer.Bencode.Unambiguous
import RouteServer.Bencode.Accepted
import RouteServer.Bencode.Format
import RouteServer.Bencode.Oversized
import RouteServer.Bencode.ListOrder
import RouteServer.Bencode.JsonParser
import RouteServer.Bencode.JsonSerializer
import RouteServer.Bencode.JsonRoundTrip
import RouteServer.Bencode.JsonPieces
import RouteServer.Bencode.JsonComments
import RouteServer.Bytes.Framing
import RouteServer.Bytes.Message
import RouteServer.Bytes.RWrite
import RouteServer.Bytes.ReadVarInt
import RouteServer.Bytes.Tlv
import RouteServer.Bytes.DnsSeed
import RouteServer.Core.Encoding
import RouteServer.Core.SchemeCodec
import RouteServer.Core.SchemeWriter
import RouteServer.Core.SchemeReader
import RouteServer.Core.SchemeRoundTrip
import RouteServer.Core.RoutingLabel
import RouteServer.Core.LabelText
import RouteServer.Core.Splice
import RouteServer.Core.LabelSplice
import RouteServer.Core.Unsplice
import RouteServer.Core.FormRecognition
import RouteServer.Core.ReEncode
import RouteServer.Core.ReEncodeForms
import RouteServer.Core.Interfaces
import RouteServer.Core.InterfaceKept
import RouteServer.Core.BuildLabel
import RouteServer.Core.Keys
import RouteServer.Core.PublicKeyText
import RouteServer.Hdr.SwitchHeader
import RouteServer.Hdr.RouteHeader
import RouteServer.Hdr.DataHeader
import RouteServer.Hdr.HeaderBytes
import RouteServer.Ctrl.Checksum
import RouteServer.Ctrl.InternetChecksum
import RouteServer.Ctrl.ErrorData
import RouteServer.Ctrl.PingData
import RouteServer.Ctrl.ControlMessage
import RouteServer.Ann.Model
import RouteServer.Ann.Parser
import RouteServer.Ann.Entities
import RouteServer.Sniff.Message
import RouteServer.Snode.AnnList
import RouteServer.Snode.Link
import RouteServer.Snode.LinkNumbers
import RouteServer.Snode.LinkSamples
import RouteServer.Snode.LinkUpdates
import RouteServer.Snode.LinkDecay
import RouteServer.Snode.Prune
import RouteServer.Snode.Copies
import RouteServer.Snode.Node
import RouteServer.Snode.Pruned
import RouteServer.Snode.Server
import RouteServer.Snode.Checks
import RouteServer.Snode.Handling
import RouteServer.Snode.Rejection
import RouteServer.Snode.Resolution
import RouteServer.Snode.Replay
import RouteServer.Snode.Run
import RouteServer.Snode.PeerNumbers
import RouteServer.Snode.Coherence
import RouteServer.Snode.Timestamps
import RouteServer.Snode.Timeslots
import RouteServer.Snode.Route
import RouteServer.Snode.RouteForms
import RouteServer.Snode.RouteLabels
import RouteServer.Pathsearch.Frontier
import RouteServer.Pathsearch.NumTraits
import RouteServer.Pathsearch.PriorityMap
import RouteServer.Pathsearch.Dijkstra
import RouteServer.Pns.Record
import RouteServer.Pns.Domain
import RouteServer.Pns.Events
import RouteServer.Pns.Repeats
import RouteServer.Pns.Resolve
import RouteServer.Pns.Completion
import RouteServer.EthRpc.NotifyCheck
import RouteServer.Admin.Dispatch
import RouteServer.Admin.Steps
import RouteServer.Admin.Slots
import RouteServer.Admin.Streams
import RouteServer.Admin.Deliveries
import RouteServer.Seeder.Peers
import RouteServer.Seeder.Posts
import RouteServer.Seeder.Entries
import RouteServer.Seeder.Privacy
import RouteServer.Seeder.Replies
import RouteServer.Core.WrittenLabel
import RouteServer.Core.ReEncodeKept
import RouteServer.Core.DirectorSpill
import RouteServer.Core.OneHop
import RouteServer.Core.SpliceChecked
import RouteServer.Core.ReversePath
import RouteServer.Graphs.SearchTree
import RouteServer.Pathsearch.SearchTree
import RouteServer.Pns.RecordCodec
import RouteServer.Rust.VarInt
import RouteServer.Ann.LinkState
import RouteServer.Snode.MsgpackMessage
import RouteServer.Machine.Histories
import RouteServer.Peers.Connections
import RouteServer.Peers.Changes
import RouteServer.Peers.Requests
import RouteServer.Peers.Link
import RouteServer.Peers.Order
import RouteServer.Peers.Answers
import RouteServer.Peers.Delivery
import RouteServer.Peers.Stalls
import RouteServer.Snode.Sound
import RouteServer.Snode.NodeGraph
import RouteServer.Snode.Routing
import RouteServer.Snode.OwnPeers
import RouteServer.Snode.RouteCache
import RouteServer.Snode.Introductions
import RouteServer.Bytes.PeeringLine
import RouteServer.Nameserver.Credentials
import RouteServer.Nameserver.Pipeline
