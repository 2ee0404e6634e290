import RouteServer.Bencode.Dict
import RouteServer.Seeder.Peers
import RouteServer.Sniff.Message
import RouteServer.Snode.RouteCache

/-!
# Requests of nodes

The local node passes requests of other nodes on to the supernode: for a route, to take an
announcement, for the state that is known of the sender, or to take credentials. An answer goes
back to the sender over the same label, with the identifier of its transaction. A request that is
malformed gets none, and the connection to the local node is given up.

A route that is asked for between two neighbours is that of their peering link, where both ends
are known to have it. Any other route goes along a cheapest path of a table not more than three
seconds ago, where nothing changes the table while a request is handled.
-/

namespace RouteServer.Snode

open Rust Keys Labels Ann Hdr Pathsearch
open Bencode (Bstr Object Dict bstr allocated allocated_bytes)

/-- Why the connection to the local node is given up. -/
inductive RequestError where
  | message (text : String)
  | unreturned (why : Unreturned)
deriving DecidableEq

/-- What is asked for, of the kinds that are known. -/
inductive Query where
  | gr (src tar : Ip6)
  | ann (ann : List UInt8)
  | pn
  | pc (pc : List UInt8)

/-- The entries of the answers to a kind of request, besides those of any answer. -/
def Query.keys : Query → List String
  | .gr _ _ => ["n", "np"]
  | .ann _ => ["stateHash", "error"]
  | .pn => ["stateHash"]
  | .pc _ => ["pr", "err"]

/-- A request that is not ignored. -/
structure Request where
  version : UInt32
  ip6 : Ip6
  txid : Bstr
  selfVersion : UInt16
  query : Query

/-- The version that the sender has, if it is known. -/
def requestVersion (header : RouteHeader) (content : Dict) :
    Outcome RequestError (Option UInt32) :=
  if 0 < header.version then .ok (some header.version)
  else
    match content.getInt "p" with
    | some p =>
      if p < 0 then .err (.message "bad message: 'p' expected to be positive int")
      else .ok (some (UInt32.ofNat p.toInt.toNat))
    | none => .ok none

/-- `ok_or_eyre`. -/
def required {α : Type} (text : String) : Option α → Outcome RequestError α
  | some value => .ok value
  | none => .err (.message text)

/-- What is asked for. A kind that is not known is ignored. -/
def readQuery (sq : Text) (content : Dict) : Outcome RequestError (Option Query) :=
  if sq = "gr".toList then do
    let src ← required "bad message: 'src' bytes entry expected in root dict"
      (content.getBytes "src")
    let tar ← required "bad message: 'tar' bytes entry expected in root dict"
      (content.getBytes "tar")
    let srcIp ← required ("bad 'src' address: " ++ (Ip6.fault src.bytes).message)
      (Ip6.tryFrom src.bytes)
    let tarIp ← required ("bad 'tar' address: " ++ (Ip6.fault tar.bytes).message)
      (Ip6.tryFrom tar.bytes)
    return some (.gr srcIp tarIp)
  else if sq = "ann".toList then do
    let ann ← required "expected benc 'ann' entry to be bytes" (content.getBytes "ann")
    return some (.ann ann.bytes)
  else if sq = "pn".toList then .ok (some .pn)
  else if sq = "pc".toList then do
    let pc ← required "expected benc 'pc' entry to be bytes" (content.getBytes "pc")
    return some (.pc pc.bytes)
  else .ok none

/-- `on_subnode_message_impl`, up to where it begins to answer. -/
def readRequest (selfNode : Option Node) (header : RouteHeader) (content : Dict) :
    Outcome RequestError (Option Request) :=
  if (content.getObj "sq").isNone then .ok none
  else do
    let sq ← required "'sq' string entry expected in root dict" (content.getStr "sq")
    match ← requestVersion header content, header.publicKey, header.ip6 with
    | some version, some _, some ip6 => do
      let txid ← required "Txid is required" (content.getBytes "txid")
      let node ← required "self node isn't set" selfNode
      let query ← readQuery sq content
      return query.map fun query => ⟨version, ip6, txid, node.version, query⟩
    | _, _, _ => return none

/-- A supernode: its tables, with the routes that it keeps, and its seeder. -/
structure Supernode where
  router : Router
  seeder : Seeder.SeederMut

/-- What a supernode runs with. `shown` is the text of a report. -/
structure Config where
  crypto : Crypto
  useOldImpl : Bool
  seeder : Seeder.SeederConfig
  shown : Seeder.Report → Text

/-- What handling a message takes from its surroundings. A request for a route is given enough
turns for its loops. -/
structure Around where
  recvTime : UInt64
  now : Int
  fuel : Nat
  call : Call
  clock : Nat → Nat
  draws : Nat → Nat

/-- The newest of some links, the last of those that are. -/
def newest : List Link → Option Link
  | [] => none
  | link :: links =>
    some (links.foldl (fun rl nl => if rl.createTime > nl.createTime then rl else nl) link)

/-- A label of 32 bits fits into 64. -/
theorem bits_lt_wide (label : RoutingLabel 32) : label.bits < 2 ^ 64 :=
  label.bounded.trans (by decide)

/-- The same label in a wider word. -/
def widened (label : RoutingLabel 32) : Option (RoutingLabel 64) :=
  RoutingLabel.tryNew label.bits (bits_lt_wide label)

/-- The label of the peering link from the source, as the target knows it. -/
def peeringLabel (srcIp : Ip6) (tar : Option Node) : Option (RoutingLabel 64) := do
  let node ← tar
  let links ← node.inwardLinksByIp.lookup srcIp
  let link ← newest links
  widened link.label

/-- Whether the source knows of the link by the number that the label is. -/
def confirmed (tarIp : Ip6) (src : Option Node) : Option (RoutingLabel 64) → Bool
  | some routeLabel =>
    match src.bind fun node => node.inwardLinksByIp.lookup tarIp with
    | some links => links.any fun l => l.peerNum.toNat = routeLabel.bits
    | none => false
  | none => false

/-- The label that is answered. -/
def answeredLabel (route : Route) (confirmed : Bool) : Option (RoutingLabel 64) → RoutingLabel 64
  | some routeLabel =>
    if routeLabel = route.label ∧ confirmed then route.label
    else if confirmed then routeLabel
    else route.label
  | none => route.label

/-- The entries of an answer that any request gets. -/
def answerTo (request : Request) (recvTime : UInt64) : Dict :=
  Dict.insert "recvTime" (.integer (Int64.ofNat recvTime.toNat))
    (Dict.insert "p" (.integer (Int64.ofNat request.selfVersion.toNat))
      (Dict.insert "txid" (.bytes request.txid) []))

/-- The greatest number of a word. -/
def usizeMax : Nat := 2 ^ 64 - 1

/-- `peer_info`: how many nodes a node has links from, and whether another one is among them. -/
def peerInfo (nodes : Nodes) : Seeder.PeerInfoProvider := fun node referencePeer =>
  match nodes.lookup node with
  | none => (usizeMax, false)
  | some n =>
    (n.inwardLinksByIp.entries.length,
      referencePeer.any fun rp => (n.inwardLinksByIp.lookup rp).isSome)

/-- The answer to `gr`. -/
def answerRoute (useOldImpl : Bool) (router : Router) (around : Around) (srcIp tarIp : Ip6)
    (res : Dict) : Outcome RequestError Dict := do
  let src := router.server.nodes.lookup srcIp
  let tar := router.server.nodes.lookup tarIp
  let (_, route) ← (router.answer useOldImpl around.now srcIp tarIp around.fuel).mapErr .unreturned
  let routeLabel := peeringLabel srcIp tar
  match route, tar with
  | .ok route, some tar =>
    let label := answeredLabel route (confirmed tarIp src routeLabel) routeLabel
    return Dict.insert "np" (.bytes (allocated [1, tar.version.toUInt8]))
      (Dict.insert "n" (.bytes (allocated (tar.key.bytes ++ toBe 8 label.bits))) res)
  | _, _ => return res

/-- The answer to `ann`. -/
def answerAnn (handled : Handled) (res : Dict) : Outcome RequestError Dict :=
  match handled with
  | .replied hash replyErr =>
    .ok (Dict.insert "error" (.bytes (bstr replyErr.text))
      (Dict.insert "stateHash" (.bytes (allocated hash.bytes)) res))
  | .failed message => .err (.message message)
  | .panicked => .panicked

/-- The answer to `pn`. -/
def answerNode (nodes : Nodes) (ip6 : Ip6) (res : Dict) : Dict :=
  let hash := ((nodes.lookup ip6).bind fun node => node.mutState.stateHash).elim
    (List.replicate 64 0) fun hash => hash.bytes
  Dict.insert "stateHash" (.bytes (allocated hash)) res

/-- `String::truncate`. It panics inside a character. -/
def truncate : Nat → Text → Option Text
  | _, [] => some []
  | 0, _ => some []
  | len, c :: text =>
    if c.utf8Size ≤ len then (truncate (len - c.utf8Size) text).map fun text => c :: text
    else none

/-- The answer to `pc`. -/
def answerCreds (shown : Seeder.Report → Text) (posted : Outcome Seeder.Report (List UInt8))
    (res : Dict) : Outcome RequestError Dict :=
  match posted with
  | .ok r => .ok (Dict.insert "pr" (.bytes (allocated r)) res)
  | .err e =>
    match truncate 128 (shown e) with
    | some es => .ok (Dict.insert "err" (.bytes (allocated (es.flatMap String.utf8EncodeChar))) res)
    | none => .panicked
  | .panicked => .panicked

namespace Supernode

/-- What a post of credentials takes from its surroundings. -/
def surroundings (around : Around) (self : Supernode) : Seeder.Surroundings where
  pip := peerInfo self.router.server.nodes
  clock := around.clock
  draws := around.draws

/-- What is answered to a request. -/
def answer (config : Config) (around : Around) (self : Supernode) (request : Request) :
    Outcome RequestError Dict :=
  let res := answerTo request around.recvTime
  match request.query with
  | .gr src tar => answerRoute config.useOldImpl self.router around src tar res
  | .ann ann =>
    answerAnn (handleAnnounceImpl config.crypto around.call ann .direct self.router.server).2 res
  | .pn => .ok (answerNode self.router.server.nodes request.ip6 res)
  | .pc pc =>
    answerCreds config.shown (Seeder.postCredentials config.crypto config.seeder request.ip6 pc
      (self.surroundings around) self.seeder).1 res

/-- The message that goes back with an answer. -/
def resMessage (msg : Sniff.Message) (version : UInt32) (res : Dict) : Sniff.Message where
  routeHeader := { msg.routeHeader with
    switchHeader := { msg.routeHeader.switchHeader with labelShift := 0 }
    version }
  contentType := msg.contentType
  content := .benc res
  rawBytes := none

/-- `on_subnode_message`. -/
def onSubnodeMessage (config : Config) (around : Around) (self : Supernode)
    (msg : Sniff.Message) : Outcome RequestError (Option Sniff.Message) :=
  match msg.content with
  | .benc content => do
    match ← readRequest self.router.server.selfNode msg.routeHeader content with
    | some request => do
      let res ← self.answer config around request
      return some (resMessage msg request.version res)
    | none => return none
  | _ => .ok none

/-- The request in a message. -/
def requestIn (self : Supernode) (msg : Sniff.Message) : Option Request :=
  match msg.content with
  | .benc content =>
    match readRequest self.router.server.selfNode msg.routeHeader content with
    | .ok request => request
    | _ => none
  | _ => none

end Supernode

/-- What happens to a supernode: a message from the local node, something else that happens to
its tables, or results of tests. -/
inductive SupernodeEvent where
  | message (msg : Sniff.Message) (around : Around)
  | table (event : Event)
  | testres (res : Seeder.SeederTestRes) (nowS : Nat)

namespace Supernode

/-- What happens to the tables and the routes. -/
def routerEvents (self : Supernode) : SupernodeEvent → List RouterEvent
  | .message msg around =>
    match (self.requestIn msg).map Request.query with
    | some (.gr src tar) => [.request around.now src tar around.fuel]
    | some (.ann ann) => [.table (.announce ann .direct around.call)]
    | _ => []
  | .table event => [.table event]
  | .testres _ _ => []

/-- The calls of the seeder. -/
def seederCalls (self : Supernode) : SupernodeEvent → List Seeder.Call
  | .message msg around =>
    match self.requestIn msg with
    | some ⟨_, ip6, _, _, .pc pc⟩ => [.post ip6 pc (self.surroundings around)]
    | _ => []
  | .table _ => []
  | .testres res nowS => [.testres res nowS]

/-- One event. The time of a request for a route does not go back. -/
def step (config : Config) (self : Supernode) (event : SupernodeEvent) : Option Supernode := do
  let routed ←
    (Snode.router config.crypto config.useOldImpl).run self.router (self.routerEvents event)
  let posted ← (Seeder.seeder config.crypto config.seeder).run self.seeder (self.seederCalls event)
  return ⟨routed, posted⟩

end Supernode

/-- A supernode as a machine. -/
def supernode (config : Config) : Machine.System Supernode SupernodeEvent where
  initial := ⟨(router config.crypto config.useOldImpl).initial, {}⟩
  step := Supernode.step config

/-- What happened to the tables and the routes of a supernode. -/
def routed (config : Config) (events : List SupernodeEvent) : List RouterEvent :=
  (supernode config).shown Supernode.routerEvents (supernode config).initial events

section

variable {config : Config} {events : List SupernodeEvent} {self : Supernode}

/-- The tables and the routes of a supernode are those of a router. -/
theorem router_of_run
    (ran : (supernode config).run (supernode config).initial events = some self) :
    (router config.crypto config.useOldImpl).run
      (router config.crypto config.useOldImpl).initial (routed config events) =
        some self.router := by
  have each (before : Supernode) (event : SupernodeEvent) (next : Supernode)
      (possible : (supernode config).step before event = some next) :
      (router config.crypto config.useOldImpl).run before.router (before.routerEvents event) =
        some next.router := by
    obtain ⟨routed, runs, possible⟩ := Option.bind_eq_some_iff.mp possible
    obtain ⟨posted, -, same⟩ := Option.bind_eq_some_iff.mp possible
    cases same
    exact runs
  exact Machine.System.run_part each ran

/-- The seeder of a supernode handles the posts and the results of tests only. -/
theorem seeder_of_run
    (ran : (supernode config).run (supernode config).initial events = some self) :
    (Seeder.seeder config.crypto config.seeder).run {}
      ((supernode config).shown Supernode.seederCalls (supernode config).initial events) =
        some self.seeder := by
  have each (before : Supernode) (event : SupernodeEvent) (next : Supernode)
      (possible : (supernode config).step before event = some next) :
      (Seeder.seeder config.crypto config.seeder).run before.seeder (before.seederCalls event) =
        some next.seeder := by
    obtain ⟨routed, -, possible⟩ := Option.bind_eq_some_iff.mp possible
    obtain ⟨posted, runs, same⟩ := Option.bind_eq_some_iff.mp possible
    cases same
    exact runs
  exact Machine.System.run_part each ran

end

section

variable {config : Config} {around : Around} {self : Supernode}

/-- The newest of some links is one of them, and none of them is newer.

Proof: induction on the links behind the first one, which replace it when they are newer. -/
theorem newest_spec {links : List Link} {link : Link} (found : newest links = some link) :
    link ∈ links ∧ ∀ other ∈ links, other.createTime ≤ link.createTime := by
  cases links with
  | nil => cases found
  | cons first links =>
    cases found
    induction links generalizing first with
    | nil => simp
    | cons next links inductionHypothesis =>
      rw [List.foldl_cons]
      split
      · next newer =>
        obtain ⟨member, latest⟩ := inductionHypothesis first
        have notOlder := latest first List.mem_cons_self
        constructor
        · rcases List.mem_cons.mp member with same | inside
          · exact List.mem_cons.mpr (Or.inl same)
          · exact List.mem_cons_of_mem _ (List.mem_cons_of_mem _ inside)
        · intro other among
          rcases List.mem_cons.mp among with rfl | among
          · exact notOlder
          · rcases List.mem_cons.mp among with rfl | among
            · exact UInt64.le_trans (UInt64.le_of_lt newer) notOlder
            · exact latest other (List.mem_cons_of_mem _ among)
      · next notNewer =>
        obtain ⟨member, latest⟩ := inductionHypothesis next
        have notOlder := latest next List.mem_cons_self
        constructor
        · exact List.mem_cons_of_mem _ member
        · intro other among
          rcases List.mem_cons.mp among with rfl | among
          · exact UInt64.le_trans (UInt64.not_lt.mp notNewer) notOlder
          · exact latest other among

end

/-- The label is that of the newest link of the target from the source, and the number of a link
of the source from the target. -/
def Peering (nodes : Nodes) (src tar : Ip6) (label : RoutingLabel 64) : Prop :=
  ∃ srcNode tarNode links link number, nodes.lookup src = some srcNode ∧
    nodes.lookup tar = some tarNode ∧ tarNode.inwardLinksByIp.lookup src = some links ∧
    link ∈ links ∧ (∀ other ∈ links, other.createTime ≤ link.createTime) ∧
    link.label.bits = label.bits ∧ Stores srcNode.inwardLinksByIp tar number ∧
    number.toNat = label.bits

/-- A route that was computed along a cheapest path of a table not more than three seconds
before. -/
def Recent (config : Config) (events : List RouterEvent) (now : Int) (src tar : Ip6)
    (route : Route) : Prop :=
  ∃ drawnAt drawn, Requested config.crypto config.useOldImpl events drawnAt drawn ∧
    drawnAt ≤ now ∧ now ≤ drawnAt + rebuildInterval ∧
    Computed config.crypto config.useOldImpl events drawnAt drawn now src tar route

/-- The request of a message. -/
structure Asks (state : Supernode) (msg : Sniff.Message) (content : Dict) (request : Request) :
    Prop where
  holds : msg.content = .benc content
  read : readRequest state.router.server.selfNode msg.routeHeader content = .ok (some request)

/-- An answer goes back to where a message came from. -/
structure GoesBack (msg answer : Sniff.Message) : Prop where
  header : ∃ version, answer.routeHeader = { msg.routeHeader with
    switchHeader := { msg.routeHeader.switchHeader with labelShift := 0 }
    version }
  version : 0 < msg.routeHeader.version → answer.routeHeader.version = msg.routeHeader.version
  contentType : answer.contentType = msg.contentType
  txid : ∃ (content res : Dict) (txid : Bstr), msg.content = .benc content ∧
    answer.content = .benc res ∧ content.getBytes "txid" = some txid ∧
    res.getBytes "txid" = some txid

section

variable {config : Config} {around : Around} {self : Supernode}

/-- What is required is there. -/
theorem required_ok {α : Type} {text : String} {value : Option α} {found : α}
    (given : required text value = .ok found) : value = some found := by
  cases value with
  | none => cases given
  | some value =>
    cases given
    rfl

/-- An address has the bytes that it was made from. -/
theorem tryFrom_bytes {bytes : List UInt8} {ip : Ip6} (valid : Ip6.tryFrom bytes = some ip) :
    ip.bytes = bytes := by
  rw [Ip6.tryFrom] at valid
  split at valid
  · cases valid
    rfl
  · cases valid

/-- A request for a route names its ends. -/
theorem readQuery_gr {sq : Text} {content : Dict} {src tar : Ip6}
    (read : readQuery sq content = .ok (some (.gr src tar))) :
    sq = "gr".toList ∧ (content.getBytes "src").map Bstr.bytes = some src.bytes ∧
      (content.getBytes "tar").map Bstr.bytes = some tar.bytes := by
  rw [readQuery] at read
  split_ifs at read with isGr isAnn isPn isPc
  · obtain ⟨srcBytes, srcGiven, read⟩ := (Outcome.bind_ok_iff _ _ _).mp read
    obtain ⟨tarBytes, tarGiven, read⟩ := (Outcome.bind_ok_iff _ _ _).mp read
    obtain ⟨srcIp, srcValid, read⟩ := (Outcome.bind_ok_iff _ _ _).mp read
    obtain ⟨tarIp, tarValid, read⟩ := (Outcome.bind_ok_iff _ _ _).mp read
    cases read
    refine ⟨isGr, ?_, ?_⟩
    · rw [required_ok srcGiven, tryFrom_bytes (required_ok srcValid), Option.map_some]
    · rw [required_ok tarGiven, tryFrom_bytes (required_ok tarValid), Option.map_some]
  · obtain ⟨ann, -, read⟩ := (Outcome.bind_ok_iff _ _ _).mp read
    cases read
  · cases read
  · obtain ⟨pc, -, read⟩ := (Outcome.bind_ok_iff _ _ _).mp read
    cases read
  · cases read

/-- What is known of a request that is not ignored. -/
theorem readRequest_ok {selfNode : Option Node} {header : RouteHeader} {content : Dict}
    {request : Request} (read : readRequest selfNode header content = .ok (some request)) :
    requestVersion header content = .ok (some request.version) ∧
      header.ip6 = some request.ip6 ∧ content.getBytes "txid" = some request.txid ∧
      ∃ sq, content.getStr "sq" = some sq ∧ readQuery sq content = .ok (some request.query) := by
  rw [readRequest] at read
  split_ifs at read
  · cases read
  obtain ⟨sq, kind, read⟩ := (Outcome.bind_ok_iff _ _ _).mp read
  obtain ⟨version, known, read⟩ := (Outcome.bind_ok_iff _ _ _).mp read
  split at read
  · next version publicKey ip6 _ address =>
    obtain ⟨txid, identified, read⟩ := (Outcome.bind_ok_iff _ _ _).mp read
    obtain ⟨node, -, read⟩ := (Outcome.bind_ok_iff _ _ _).mp read
    obtain ⟨query, asked, read⟩ := (Outcome.bind_ok_iff _ _ _).mp read
    cases query with
    | none => cases read
    | some query =>
      cases read
      exact ⟨known, address, required_ok identified, sq, required_ok kind, asked⟩
  · cases read

/-- A message that is answered holds a request. -/
theorem asks_of_answered {msg answer : Sniff.Message}
    (answered : self.onSubnodeMessage config around msg = .ok (some answer)) :
    ∃ content request res, Asks self msg content request ∧
      self.answer config around request = .ok res ∧
      answer = Supernode.resMessage msg request.version res := by
  rw [Supernode.onSubnodeMessage] at answered
  split at answered
  · next content holds =>
    obtain ⟨request, read, answered⟩ := (Outcome.bind_ok_iff _ _ _).mp answered
    cases request with
    | none => cases answered
    | some request =>
      obtain ⟨res, made, answered⟩ := (Outcome.bind_ok_iff _ _ _).mp answered
      cases answered
      exact ⟨content, request, res, ⟨holds, read⟩, made, rfl⟩
  · cases answered

/-- A label that both ends know is that of a peering link. -/
theorem peering_of_confirmed {nodes : Nodes} {src tar : Ip6} {routeLabel : RoutingLabel 64}
    (known : peeringLabel src (nodes.lookup tar) = some routeLabel)
    (sure : confirmed tar (nodes.lookup src) (some routeLabel) = true) :
    Peering nodes src tar routeLabel := by
  obtain ⟨tarNode, found, known⟩ := Option.bind_eq_some_iff.mp known
  obtain ⟨links, stored, known⟩ := Option.bind_eq_some_iff.mp known
  obtain ⟨link, last, wide⟩ := Option.bind_eq_some_iff.mp known
  obtain ⟨member, latest⟩ := newest_spec last
  have bits : link.label.bits = routeLabel.bits := by
    rw [widened, RoutingLabel.tryNew] at wide
    split_ifs at wide
    cases wide
    rfl
  rw [confirmed] at sure
  split at sure
  · next backLinks reached =>
    obtain ⟨srcNode, hasSrc, backStored⟩ := Option.bind_eq_some_iff.mp reached
    obtain ⟨back, among, number⟩ := List.any_eq_true.mp sure
    have stores : Stores srcNode.inwardLinksByIp tar back.peerNum := by
      refine ⟨numbers backLinks, ?_, List.mem_map_of_mem among⟩
      rw [numbersOf, backStored, Option.map_some]
    exact ⟨srcNode, tarNode, links, link, back.peerNum, hasSrc, found, stored, member, latest,
      bits, stores, of_decide_eq_true number⟩
  · cases sure

/-- The label that is answered is that of the route, or a peering link has it. -/
theorem answeredLabel_cases (nodes : Nodes) (src tar : Ip6) (route : Route)
    {routeLabel : Option (RoutingLabel 64)}
    (known : peeringLabel src (nodes.lookup tar) = routeLabel) :
    answeredLabel route (confirmed tar (nodes.lookup src) routeLabel) routeLabel = route.label ∨
      Peering nodes src tar
        (answeredLabel route (confirmed tar (nodes.lookup src) routeLabel) routeLabel) := by
  cases routeLabel with
  | none => exact Or.inl rfl
  | some routeLabel =>
    rw [answeredLabel]
    split_ifs with same sure
    · exact Or.inl rfl
    · exact Or.inr (peering_of_confirmed known sure)
    · exact Or.inl rfl

/-- What the answer to `gr` has besides the entries of any answer. -/
theorem answerRoute_ok {useOldImpl : Bool} {self : Router} {src tar : Ip6} {res out : Dict}
    (made : answerRoute useOldImpl self around src tar res = .ok out) :
    ∃ routing result, self.answer useOldImpl around.now src tar around.fuel =
        .ok (routing, result) ∧
      (out = res ∨ ∃ route node label, result = .ok route ∧
        self.server.nodes.lookup tar = some node ∧
        (label = route.label ∨ Peering self.server.nodes src tar label) ∧
        out = Dict.insert "np" (.bytes (allocated [1, node.version.toUInt8]))
          (Dict.insert "n" (.bytes (allocated (node.key.bytes ++ toBe 8 label.bits))) res)) := by
  obtain ⟨⟨routing, result⟩, answers, made⟩ := (Outcome.bind_ok_iff _ _ _).mp made
  refine ⟨routing, result, (Outcome.mapErr_ok_iff _ _ _).mp answers, ?_⟩
  dsimp only at made
  split at made
  · next route node found =>
    cases made
    refine Or.inr ⟨route, node, _, rfl, found, ?_, rfl⟩
    exact answeredLabel_cases self.server.nodes src tar route rfl
  · cases made
    exact Or.inl rfl

/-- An answer has the identifier of its request. -/
theorem getBytes_answerTo_txid (request : Request) (recvTime : UInt64) :
    (answerTo request recvTime).getBytes "txid" = some request.txid := by
  rw [answerTo, Dict.getBytes_insert_ne (by decide +kernel),
    Dict.getBytes_insert_ne (by decide +kernel), Dict.getBytes_insert]

/-- An answer begins with three entries and no others. -/
theorem getBytes_answerTo_other {key : String}
    (apart : ∀ other ∈ ["recvTime", "p", "txid"], bstr key ≠ bstr other) (request : Request)
    (recvTime : UInt64) : (answerTo request recvTime).getBytes key = none := by
  rw [answerTo, Dict.getBytes_insert_ne (apart "recvTime" (by decide)),
    Dict.getBytes_insert_ne (apart "p" (by decide)),
    Dict.getBytes_insert_ne (apart "txid" (by decide))]
  rfl

/-- What holds of the entries of any answer, and is kept by those that a kind of request adds,
holds of an answer.

Proof: one case for each kind of request, with the entries it inserts in turn. -/
theorem answer_inserts {holds : Dict → Prop} {request : Request} {res : Dict}
    (made : self.answer config around request = .ok res)
    (base : holds (answerTo request around.recvTime))
    (step : ∀ key ∈ request.query.keys, ∀ content before, holds before →
      holds (Dict.insert key (.bytes content) before)) : holds res := by
  rw [Supernode.answer] at made
  cases asked : request.query with
  | gr src tar =>
    rw [asked] at made step
    obtain ⟨routing, result, -, rfl | ⟨route, node, label, -, -, -, rfl⟩⟩ := answerRoute_ok made
    · exact base
    · have withNode := step "n" List.mem_cons_self
        (allocated (node.key.bytes ++ toBe 8 label.bits)) _ base
      exact step "np" (List.mem_cons_of_mem _ List.mem_cons_self) _ _ withNode
  | ann ann =>
    rw [asked] at made step
    dsimp only at made
    unfold answerAnn at made
    split at made
    · next hash replyErr _ =>
      cases made
      have withHash := step "stateHash" List.mem_cons_self (allocated hash.bytes) _ base
      exact step "error" (List.mem_cons_of_mem _ List.mem_cons_self) _ _ withHash
    · cases made
    · cases made
  | pn =>
    rw [asked] at made step
    cases made
    exact step "stateHash" List.mem_cons_self _ _ base
  | pc pc =>
    rw [asked] at made step
    dsimp only at made
    unfold answerCreds at made
    split at made
    · cases made
      exact step "pr" List.mem_cons_self _ _ base
    · split at made
      · cases made
        exact step "err" (List.mem_cons_of_mem _ List.mem_cons_self) _ _ base
      · cases made
    · cases made

/-- No query answers with an identifier of its own. -/
theorem keys_ne_txid (query : Query) : ∀ key ∈ query.keys, bstr "txid" ≠ bstr key := by
  cases query with
  | gr src tar =>
    show ∀ key ∈ ["n", "np"], bstr "txid" ≠ bstr key
    decide +kernel
  | ann ann =>
    show ∀ key ∈ ["stateHash", "error"], bstr "txid" ≠ bstr key
    decide +kernel
  | pn => decide +kernel
  | pc pc =>
    show ∀ key ∈ ["pr", "err"], bstr "txid" ≠ bstr key
    decide +kernel

/-- An answer has the identifier of the transaction that the request belongs to. -/
theorem answer_txid {request : Request} {res : Dict}
    (made : self.answer config around request = .ok res) :
    Dict.getBytes "txid" res = some request.txid := by
  apply answer_inserts made
  · exact getBytes_answerTo_txid request around.recvTime
  · intro key added content before holds
    rw [Dict.getBytes_insert_ne (keys_ne_txid _ key added), holds]

/-- An answer has no other entries than those of any answer and of its kind. -/
theorem answer_lacks {request : Request} {res : Dict}
    (made : self.answer config around request = .ok res) {key : String}
    (apart : ∀ other ∈ ["recvTime", "p", "txid"], bstr key ≠ bstr other)
    (foreign : ∀ other ∈ request.query.keys, bstr key ≠ bstr other) :
    Dict.getBytes key res = none := by
  apply answer_inserts made
  · exact getBytes_answerTo_other apart request around.recvTime
  · intro other added content before holds
    rw [Dict.getBytes_insert_ne (foreign other added), holds]

/-- Only an answer to a request for a route has an entry for nodes. -/
theorem answer_n {request : Request} {res : Dict}
    (made : self.answer config around request = .ok res)
    (other : ∀ src tar, request.query ≠ .gr src tar) : Dict.getBytes "n" res = none := by
  apply answer_lacks made (by decide +kernel)
  cases asked : request.query with
  | gr src tar => exact absurd asked (other src tar)
  | ann ann =>
    show ∀ key ∈ ["stateHash", "error"], bstr "n" ≠ bstr key
    decide +kernel
  | pn => decide +kernel
  | pc pc =>
    show ∀ key ∈ ["pr", "err"], bstr "n" ≠ bstr key
    decide +kernel

/-- Only an answer to a post of credentials has an entry for some. -/
theorem answer_pr {request : Request} {res : Dict}
    (made : self.answer config around request = .ok res)
    (other : ∀ pc, request.query ≠ .pc pc) : Dict.getBytes "pr" res = none := by
  apply answer_lacks made (by decide +kernel)
  cases asked : request.query with
  | gr src tar =>
    show ∀ key ∈ ["n", "np"], bstr "pr" ≠ bstr key
    decide +kernel
  | ann ann =>
    show ∀ key ∈ ["stateHash", "error"], bstr "pr" ≠ bstr key
    decide +kernel
  | pn => decide +kernel
  | pc pc => exact absurd asked (other pc)

/-- Whatever is asked for, an answer goes back to the sender. -/
theorem answer_goes_back {msg answer : Sniff.Message}
    (answered : self.onSubnodeMessage config around msg = .ok (some answer)) :
    GoesBack msg answer := by
  obtain ⟨content, request, res, asks, made, rfl⟩ := asks_of_answered answered
  obtain ⟨version, -, txid, -⟩ := readRequest_ok asks.read
  refine ⟨⟨request.version, rfl⟩, ?_, rfl, content, res, request.txid, asks.holds, rfl, txid,
    answer_txid made⟩
  intro given
  rw [requestVersion, if_pos given] at version
  exact (Option.some.inj (Outcome.ok.inj version)).symm

end

section

variable {config : Config} {around : Around} {self : Supernode}

/-- A value without values of its own, which can be read. -/
inductive Leaf : Object → Prop where
  | bytes (content : Bstr) : Leaf (.bytes content)
  | integer (number : Int64) (readable : number ≠ Int64.minValue) : Leaf (.integer number)

/-- A sorted dictionary of such values. -/
structure Flat (res : Dict) : Prop where
  sorted : OrderedMap.Sorted res
  each : ∀ entry ∈ res, Leaf entry.2

/-- A value without any nesting is within the limits of a reader. -/
theorem Leaf.parsed {object : Object} (leaf : Leaf object) :
    Bencode.Parsed Sniff.limits 1 object := by
  cases leaf with
  | bytes content =>
    refine ⟨.bytes content, ?_, List.not_mem_nil⟩
    rw [Object.nesting]
    decide
  | integer number readable =>
    refine ⟨.integer number, ?_, fun least => readable (List.mem_singleton.mp least).symm⟩
    rw [Object.nesting]
    decide

/-- A dictionary of such values is within the limits. -/
theorem Flat.parsed {res : Dict} (flat : Flat res) :
    Bencode.Parsed Sniff.limits 0 (.dict res) :=
  .dict (Nat.zero_le _) flat.sorted fun entry member => (flat.each entry member).parsed

/-- One more such value keeps a dictionary flat, since it replaces one or is added. -/
theorem Flat.insert {res : Dict} (flat : Flat res) (key : String) {value : Object}
    (leaf : Leaf value) : Flat (Dict.insert key value res) where
  sorted := OrderedMap.insert_sorted _ _ _ flat.sorted
  each := by
    intro entry member
    rcases OrderedMap.mem_insert _ _ _ _ member with rfl | present
    · exact leaf
    · exact flat.each entry present

/-- An answer is a flat dictionary. -/
theorem flat_answer {request : Request} {res : Dict}
    (made : self.answer config around request = .ok res)
    (early : around.recvTime.toNat < 2 ^ 63) : Flat res := by
  have readable (number : Nat) (small : number < 2 ^ 63) :
      Int64.ofNat number ≠ Int64.minValue := by
    intro same
    have values := congrArg Int64.toInt same
    rw [Int64.toInt_ofNat_of_lt small, Int64.toInt_minValue] at values
    omega
  have version : request.selfVersion.toNat < 2 ^ 63 :=
    request.selfVersion.toNat_lt.trans (by decide)
  have empty : Flat [] := ⟨List.Pairwise.nil, fun entry member => by cases member⟩
  apply answer_inserts made
  · have withTxid := empty.insert "txid" (.bytes request.txid)
    have withVersion := withTxid.insert "p" (.integer _ (readable _ version))
    exact withVersion.insert "recvTime" (.integer _ (readable _ early))
  · intro key added content before flat
    exact flat.insert key (.bytes content)

/-- A message that holds a dictionary was received in a frame of that type. -/
theorem received_dict {crypto : Crypto} {datagram : List UInt8} {msg : Sniff.Message}
    {content : Dict} (decoded : Sniff.decodeMessage crypto datagram = .ok msg)
    (holds : msg.content = .benc content) :
    msg.routeHeader.Writable crypto ∧ msg.routeHeader.isCtrl = false ∧
      msg.contentType = .cjdht := by
  obtain ⟨writable, -, data, contentDecoded⟩ := Sniff.decodeMessage_ok decoded
  refine ⟨writable, ?_⟩
  rw [holds] at contentDecoded
  cases isCtrl : msg.routeHeader.isCtrl with
  | true =>
    rw [isCtrl, Sniff.decodeContent] at contentDecoded
    split at contentDecoded
    · cases contentDecoded
    · rw [if_neg (fun both => Bool.noConfusion both.2), if_pos rfl] at contentDecoded
      obtain ⟨ctrl, -, other⟩ := (Outcome.bind_ok_iff _ _ _).mp contentDecoded
      cases other
  | false =>
    rw [isCtrl] at contentDecoded
    rcases Sniff.decodeContent_ok contentDecoded with empty | ⟨dictionary, -⟩ | ⟨-, bytes, raw, -⟩
    · cases empty
    · exact ⟨rfl, dictionary⟩
    · cases raw

/-- **Every answer reaches the node that asked, as it was made.** An answer to a message that was
received can be sent back to where the message came from, and is received there.

Proof: the answer is flat, so it is written within the limits of the parser. Its header is that of
the request with the label cleared, and that one could be written. -/
theorem answer_reaches_sender {datagram : List UInt8} {msg answer : Sniff.Message}
    (decoded : Sniff.decodeMessage config.crypto datagram = .ok msg)
    (early : around.recvTime.toNat < 2 ^ 63)
    (answered : self.onSubnodeMessage config around msg = .ok (some answer)) :
    GoesBack msg answer ∧ Sniff.Resends config.crypto answer := by
  refine ⟨answer_goes_back answered, ?_⟩
  obtain ⟨content, request, res, asks, made, rfl⟩ := asks_of_answered answered
  obtain ⟨writable, isCtrl, dictionary⟩ := received_dict decoded asks.holds
  have flat := flat_answer made early
  have nonempty : res ≠ [] := by
    rintro rfl
    cases answer_txid made
  have sent :
      (Supernode.resMessage msg request.version res).routeHeader.Writable config.crypto := by
    obtain ⟨⟨version, -, congestion⟩, frame, publicKey, ip6⟩ := writable
    exact ⟨⟨version, UInt8.le_iff_toNat_le.mpr (Nat.zero_le _), congestion⟩, frame, publicKey, ip6⟩
  have read : Sniff.decodeContent msg.contentType (Bencode.serialize [] (.dict res) 4) false =
      .ok (.benc res) := by
    have written : Bencode.serialize [] (.dict res) 4 ≠ [] := by
      simp [Bencode.serialize, Bencode.writeValue]
    rw [Sniff.decodeContent, if_neg written, if_pos ⟨dictionary, rfl⟩,
      Bencode.parse_aligned rfl nonempty flat.parsed]
  have resends : Sniff.Resends config.crypto (Supernode.resMessage msg request.version res) ↔
      Sniff.Content.benc res ≠ .benc [] :=
    Sniff.resends_data_iff sent isCtrl (by simp [Supernode.resMessage, dictionary])
      (by simp [Supernode.resMessage, dictionary]) read
  apply resends.mpr
  rintro ⟨⟩
  exact nonempty rfl

end

/-- Where a label leads, that is answered to a request for a route: along a peering link that both
ends know of, or along a recent route, unless a node asks for a route to itself. -/
def Leads (config : Config) (events : List SupernodeEvent) (around : Around) (nodes : Nodes)
    (src tar : Ip6) (label : RoutingLabel 64) : Prop :=
  Peering nodes src tar label ∨ src = tar ∧ label = Route.identity.label ∨
    ∃ route, label = route.label ∧
      Recent config (routed config events ++ [.request around.now src tar around.fuel]) around.now
        src tar route

/-- **A node that asks for a route is sent along the peering link or along a recent route.** In
every run of a supernode, the answer to a request for a route that has an entry for nodes has the
key of the target and a label that leads to it.

Proof: only a request for a route is answered with nodes. Its label is that of a peering link or
of a route of the router, of which the answer says what any answer of the router does. -/
theorem route_answers_lead {config : Config} {around : Around} {self : Supernode}
    {events : List SupernodeEvent}
    (ran : (supernode config).run (supernode config).initial events = some self)
    (bound : self.router.clock ≤ around.now) {msg answer : Sniff.Message}
    (answered : self.onSubnodeMessage config around msg = .ok (some answer)) {res : Dict}
    (holds : answer.content = .benc res) {bytes : Bstr} (given : res.getBytes "n" = some bytes) :
    ∃ (content : Dict) (src tar : Ip6) (node : Node) (label : RoutingLabel 64),
      msg.content = .benc content ∧ content.getStr "sq" = some "gr".toList ∧
      (content.getBytes "src").map Bstr.bytes = some src.bytes ∧
      (content.getBytes "tar").map Bstr.bytes = some tar.bytes ∧
      self.router.server.nodes.lookup tar = some node ∧
      bytes.bytes = node.key.bytes ++ toBe 8 label.bits ∧
      Leads config events around self.router.server.nodes src tar label := by
  obtain ⟨content, request, made, asks, answers, rfl⟩ := asks_of_answered answered
  cases holds
  obtain ⟨-, -, -, sq, kind, query⟩ := readRequest_ok asks.read
  have routerRan := router_of_run ran
  have onlyRoutes : (∀ src tar, request.query ≠ .gr src tar) → False := by
    intro other
    cases (answer_n answers other).symm.trans given
  cases asked : request.query with
  | gr src tar =>
    rw [asked] at query
    obtain ⟨rfl, fromSrc, toTar⟩ := readQuery_gr query
    rw [Supernode.answer, asked] at answers
    obtain ⟨routing, result, routes, rfl | ⟨route, node, label, rfl, found, along, rfl⟩⟩ :=
      answerRoute_ok answers
    · rw [getBytes_answerTo_other (by decide +kernel)] at given
      cases given
    · rw [Dict.getBytes_insert_ne (by decide +kernel), Dict.getBytes_insert] at given
      cases given
      have fits : (node.key.bytes ++ toBe 8 label.bits).length < 2 ^ 63 := by
        rw [List.length_append, node.key.sized, toBe_length]
        decide
      refine ⟨content, src, tar, node, label, asks.holds, kind, fromSrc, toTar, found,
        allocated_bytes fits, ?_⟩
      rcases along with same | peering
      · right
        rcases answer_cases routerRan routes with
          ⟨-, ⟨identity, sameEnds⟩ | impossible⟩ |
          ⟨srcNode, tarNode, hasSrc, hasTar, different, routes⟩
        · cases identity
          exact Or.inl ⟨sameEnds, same⟩
        · cases impossible
        · obtain ⟨graph, drawn, -, recent, kept, computed⟩ :=
            getRouteImpl_kept routerRan (keeps_of_run routerRan) bound different hasSrc hasTar
              routes
          exact Or.inr ⟨route, same, routing.lastRebuild, drawn, kept.requested, kept.earlier,
            recent, computed route rfl⟩
      · exact Or.inl peering
  | ann ann => exact (onlyRoutes fun src tar same => by cases asked.symm.trans same).elim
  | pn => exact (onlyRoutes fun src tar same => by cases asked.symm.trans same).elim
  | pc pc => exact (onlyRoutes fun src tar same => by cases asked.symm.trans same).elim

namespace Sample

/-- A supernode whose seeder shares nothing. -/
def supernodeConfig : Config where
  crypto := neighbourCrypto
  useOldImpl := false
  seeder := ⟨[], [], 0, 0⟩
  shown _ := []

/-- Both neighbours announce themselves, and the supernode learns its own node. -/
def acquainted : List SupernodeEvent :=
  neighbours.map .table ++ [.table (.connect 22 northKey Splice.v358 north)]

/-- One of the neighbours asks for a route to the other. -/
def routeRequest : Sniff.Message where
  routeHeader := { Sniff.plainHeader false with publicKey := some northKey, ip6 := some north }
  contentType := .cjdht
  content := .benc [(bstr "sq", .bytes (bstr "gr")), (bstr "src", .bytes (allocated north.bytes)),
    (bstr "tar", .bytes (allocated south.bytes)), (bstr "txid", .bytes (bstr "1"))]
  rawBytes := none

/-- A second after the supernode began. -/
def aSecond : Around where
  recvTime := 0
  now := seconds 1
  fuel := 20
  call := ⟨0, .ofEntries⟩
  clock _ := 0
  draws _ := 0

/-- The bytes under a key of an answer. -/
def entry (key : String) (answer : Sniff.Message) : Option Bstr :=
  match answer.content with
  | .benc res => Dict.getBytes key res
  | _ => none

/-- An entry of an answer is one of its dictionary. -/
theorem entry_some {key : String} {answer : Sniff.Message} {bytes : Bstr}
    (found : entry key answer = some bytes) :
    ∃ res : Dict, answer.content = .benc res ∧ res.getBytes key = some bytes := by
  rw [entry] at found
  split at found
  · next res holds => exact ⟨res, holds, found⟩
  · cases found

end Sample

/-- Between two neighbours that were announced a route is requested and answered.

Proof: the run is evaluated to its answer, and the theorem about routes says what the answer
holds. -/
theorem route_of_neighbours_leads : ∃ self answer, ∃ (res : Dict) (bytes : Bstr),
    (supernode Sample.supernodeConfig).run (supernode Sample.supernodeConfig).initial
        Sample.acquainted = some self ∧
      self.router.clock ≤ Sample.aSecond.now ∧
      self.onSubnodeMessage Sample.supernodeConfig Sample.aSecond Sample.routeRequest =
        .ok (some answer) ∧
      answer.content = .benc res ∧ res.getBytes "n" = some bytes ∧
      ∃ (src tar : Ip6) (node : Node) (label : RoutingLabel 64),
        self.router.server.nodes.lookup tar = some node ∧
        bytes.bytes = node.key.bytes ++ toBe 8 label.bits ∧
        Leads Sample.supernodeConfig Sample.acquainted Sample.aSecond self.router.server.nodes src
          tar label := by
  have passes : ((supernode Sample.supernodeConfig).run
      (supernode Sample.supernodeConfig).initial Sample.acquainted).any (fun self =>
        self.router.clock ≤ Sample.aSecond.now &&
          (self.onSubnodeMessage Sample.supernodeConfig Sample.aSecond
            Sample.routeRequest).toOption.any (fun answer => answer.any (fun answer =>
              (Sample.entry "n" answer).isSome))) = true := by
    decide +kernel
  obtain ⟨self, ran, passes⟩ := (Option.any_eq_true _ _).mp passes
  obtain ⟨bound, passes⟩ := (Bool.and_eq_true _ _).mp passes
  obtain ⟨given, answered, passes⟩ := Outcome.exists_ok_of_any _ _ passes
  obtain ⟨answer, rfl, hasNodes⟩ := (Option.any_eq_true _ _).mp passes
  obtain ⟨bytes, present⟩ := Option.isSome_iff_exists.mp hasNodes
  obtain ⟨res, holds, found⟩ := Sample.entry_some present
  have clock := of_decide_eq_true bound
  obtain ⟨content, src, tar, node, label, -, -, -, -, inTable, spelled, leads⟩ :=
    route_answers_lead ran clock answered holds found
  exact ⟨self, answer, res, bytes, ran, clock, answered, holds, found, src, tar, node, label,
    inTable, spelled, leads⟩

/-- The neighbour gets the answer. -/
theorem answer_reaches_neighbour : ∃ datagram msg self answer,
    Sniff.decodeMessage Sample.supernodeConfig.crypto datagram = .ok msg ∧
      Sample.aSecond.recvTime.toNat < 2 ^ 63 ∧
      Supernode.onSubnodeMessage Sample.supernodeConfig Sample.aSecond self msg =
        .ok (some answer) ∧
      GoesBack msg answer ∧ Sniff.Resends Sample.supernodeConfig.crypto answer := by
  have passes : ((supernode Sample.supernodeConfig).run
      (supernode Sample.supernodeConfig).initial Sample.acquainted).any (fun self =>
        (Sniff.sendBuffer Sample.supernodeConfig.crypto Sample.routeRequest).toOption.any
          (fun datagram =>
            (Sniff.decodeMessage Sample.supernodeConfig.crypto datagram).toOption.any (fun msg =>
              (self.onSubnodeMessage Sample.supernodeConfig Sample.aSecond msg).toOption.any
                Option.isSome))) = true := by
    decide +kernel
  obtain ⟨self, -, passes⟩ := (Option.any_eq_true _ _).mp passes
  obtain ⟨datagram, -, passes⟩ := Outcome.exists_ok_of_any _ _ passes
  obtain ⟨msg, decoded, passes⟩ := Outcome.exists_ok_of_any _ _ passes
  obtain ⟨given, answered, isAnswer⟩ := Outcome.exists_ok_of_any _ _ passes
  obtain ⟨answer, rfl⟩ := Option.isSome_iff_exists.mp isAnswer
  have early : Sample.aSecond.recvTime.toNat < 2 ^ 63 := Nat.two_pow_pos 63
  exact ⟨datagram, msg, self, answer, decoded, early, answered,
    answer_reaches_sender decoded early answered⟩

end RouteServer.Snode
