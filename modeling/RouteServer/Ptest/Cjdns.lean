import Mathlib.Data.List.Infix
import RouteServer.Bencode.Dict
import RouteServer.Bytes.PeeringLine

/-!
# The node of a tester

A tester has a node of its own, and tells it over an admin connection whom to connect to. It is
asked for its interfaces and its peers page by page, connects to a peer with credentials, leaves
peers, and pings a peer to hear of its supernode.

A session is what is done with the node in one attempt: the answers that it is going to give to
the calls, in their order, and the calls that were made with the answers to them. Where a call is
made and there is no answer left, the attempt is not over before its time is up.
-/

namespace RouteServer.Ptest

open Rust Bytes Keys Bencode

/-- What the node answers to a call: entries, or the text of an error. -/
abbrev Reply : Type := Except String Dict

/-- A call, and the answer to it. -/
structure Exchange where
  remoteFn : String
  args : Dict
  reply : Reply

/-- The answers that are going to be given, and the calls that were answered. -/
structure Session where
  replies : List Reply
  exchanges : List Exchange := []

/-- Something that is done with the node. It has no result when it waits for good. -/
def Cjdns (α : Type) : Type := Session → Option (Except String α × Session)

namespace Cjdns

/-- Continue with a result. An error is the result of the whole. -/
def andThen {α β : Type} (first : Cjdns α) (next : α → Cjdns β) : Cjdns β := fun session =>
  match first session with
  | none => none
  | some (.error fault, session) => some (.error fault, session)
  | some (.ok value, session) => next value session

instance : Monad Cjdns where
  pure value := fun session => some (.ok value, session)
  bind := andThen

/-- What is done without the node. -/
def of {α : Type} (result : Except String α) : Cjdns α := fun session => some (result, session)

/-- An error is a result as well. -/
def attempt {α : Type} (action : Cjdns α) : Cjdns (Except String α) := fun session =>
  (action session).map fun (result, session) => (.ok result, session)

/-- `invoke`. -/
def invoke (remoteFn : String) (args : Dict) : Cjdns Dict := fun session =>
  match session.replies with
  | [] => none
  | reply :: replies => some (reply, ⟨replies, session.exchanges ++ [⟨remoteFn, args, reply⟩]⟩)

end Cjdns

/-- `PeerStats`, of which these fields are used; the others have to be there as well. -/
structure PeerStats where
  addr : Text
  state : Text
  user : Option Text
deriving DecidableEq

/-- `try_from` for `PeerStats`. -/
def PeerStats.tryFrom (d : Dict) : Except String PeerStats := do
  let addr ← d.get Object.asStr "addr"
  let _bytesIn ← d.get Object.asInt "bytesIn"
  let _bytesOut ← d.get Object.asInt "bytesOut"
  let _duplicates ← d.get (Object.asUnsigned 32) "duplicates"
  let _ifNum ← d.get (Object.asUnsigned 32) "ifNum"
  let _isIncoming ← d.get (Object.asUnsigned 8) "isIncoming"
  let _last ← d.get Object.asInt "last"
  let _lladdr ← d.get Object.asStr "lladdr"
  let _lostPackets ← d.get (Object.asUnsigned 32) "lostPackets"
  let _noiseProto ← d.get (Object.asUnsigned 32) "noiseProto"
  let _receivedOutOfRange ← d.get (Object.asUnsigned 32) "receivedOutOfRange"
  let _receivedPackets ← d.get Object.asInt "receivedPackets"
  let _recvKbps ← d.get (Object.asUnsigned 32) "recvKbps"
  let _sendKbps ← d.get (Object.asUnsigned 32) "sendKbps"
  let state ← d.get Object.asStr "state"
  let user ← tryGet Object.asStr (d.getObj "user")
  return { addr, state, user }

/-- `Interface`. Its beacon state has to be there as well. -/
structure Interface where
  ifNum : Int64
  name : Text
deriving DecidableEq

/-- `try_from` for `Interface`. -/
def Interface.tryFrom (d : Dict) : Except String Interface := do
  let _beaconState ← d.get Object.asStr "beaconState"
  let ifNum ← d.get Object.asInt "ifNum"
  let name ← d.get Object.asStr "name"
  return { ifNum, name }

/-- `parse_address`: the path and the key. The bytes of a path are counted. -/
def parseAddress (address : Text) : Except String (Text × Text) :=
  let shown := String.ofList address
  if address.head? ≠ some 'v' then .error ("Address " ++ shown ++ " must begin with 'v'")
  else
    match afterDot address with
    | none => .error ("Address " ++ shown ++ " missing '.'")
    | some behind =>
      let unended := "Address " ++ shown ++ " find('.')+20 != '.'"
      match sliceTo 19 behind with
      | .ok path =>
        match behind.drop path.length with
        | '.' :: key =>
          if byteLength address < 25 then .error ("Address " ++ shown ++ " too short")
          else .ok (path, key)
        | _ => .error unended
      | _ => .error unended

/-- What is read of one page: its items, and whether there are more. -/
def readPage {α : Type} (key : String) (tryFrom : Dict → Except String α) (ret : Dict) :
    Except String (List α × Bool) := do
  let items ← ret.get Object.asList key
  let out ← items.mapM fun item => item.asDict >>= tryFrom
  return (out, ret.has "more")

/-- The loop over the pages of a listing. -/
def pagesFrom {α : Type} (remoteFn key : String) (tryFrom : Dict → Except String α) (page : Nat)
    (out : List α) (exchanges : List Exchange) :
    List Reply → Option (Except String (List α) × Session)
  | [] => none
  | reply :: replies =>
    let args := Dict.insert "page" (.integer (Int64.ofNat page)) []
    let exchanges := exchanges ++ [⟨remoteFn, args, reply⟩]
    match reply >>= readPage key tryFrom with
    | .error fault => some (.error fault, ⟨replies, exchanges⟩)
    | .ok (items, true) =>
      pagesFrom remoteFn key tryFrom (page + 1) (out ++ items) exchanges replies
    | .ok (items, false) => some (.ok (out ++ items), ⟨replies, exchanges⟩)

/-- `peer_stats`. -/
def peerStats : Cjdns (List PeerStats) := fun session =>
  pagesFrom "InterfaceController_peerStats" "peers" PeerStats.tryFrom 0 [] session.exchanges
    session.replies

/-- `get_interfaces`. -/
def getInterfaces : Cjdns (List Interface) := fun session =>
  pagesFrom "InterfaceController_interfaces" "ifaces" Interface.tryFrom 0 [] session.exchanges
    session.replies

/-- The loop of `get_best_iface`. -/
def bestIface (sa : SocketAddr) : List Interface → Except String Int64
  | [] => .error "No usable interface found"
  | iface :: rest =>
    if isIpv6 sa && "UDP/IPv6/".toList.isPrefixOf iface.name then .ok iface.ifNum
    else if !isIpv6 sa && "UDP/IPv4/".toList.isPrefixOf iface.name then .ok iface.ifNum
    else bestIface sa rest

/-- `get_best_iface`. -/
def getBestIface (sa : SocketAddr) : Cjdns Int64 := do
  let ifaces ← getInterfaces
  Cjdns.of (bestIface sa ifaces)

/-- The arguments of `get_snode`. -/
def pingArgs (path : Text) : Dict :=
  Dict.insert "snode" (.integer 1) (Dict.insert "path" (Object.ofText path) [])

/-- What `get_snode` reads of an answer. -/
def readSnode (reply : Dict) : Except String (Option Text) := do
  let result ← reply.get Object.asStr "result"
  if result ≠ "pong".toList then .error ("Got result: " ++ String.ofList result)
  else tryGet Object.asStr (reply.getObj "snode")

/-- `get_snode`. -/
def getSnode (address : Text) : Cjdns (Option Text) := do
  let (path, _) ← Cjdns.of (parseAddress address)
  let reply ← Cjdns.invoke "SwitchPinger_ping" (pingArgs path)
  Cjdns.of (readSnode reply)

/-- The name that a worker gives to the peers it tests, up to their address. -/
def testingName (worker : Nat) : Text := "TESTING/".toList ++ Nat.toDigits 10 worker ++ ['/']

/-- The arguments of `begin_conn`. -/
def beginArgs (ifaceNum : Int64) (worker : Nat) (peer : PeeringLine) : Dict :=
  Dict.insert "version" (.integer (Int64.ofNat peer.version.toNat))
    (Dict.insert "peerName" (Object.ofText (testingName worker ++ peer.address))
      (Dict.insert "password" (Object.ofText peer.password)
        (Dict.insert "login" (Object.ofText peer.login)
          (Dict.insert "interfaceNumber" (.integer ifaceNum)
            (Dict.insert "publicKey" (Object.ofText peer.publicKey)
              (Dict.insert "address" (Object.ofText peer.address) []))))))

/-- `begin_conn`. -/
def beginConn (ifaceNum : Int64) (worker : Nat) (peer : PeeringLine) : Cjdns Unit := do
  let _ ← Cjdns.invoke "UDPInterface_beginConnection" (beginArgs ifaceNum worker peer)
  return ()

/-- The loop of `remove_conns` over the peers, of which those of a name are left. -/
def disconnectAll (template : Text) : List PeerStats → Cjdns Unit
  | [] => return ()
  | p :: ps =>
    if p.user.any (template.isPrefixOf ·) then do
      let (_, key) ← Cjdns.of (parseAddress p.addr)
      let _ ← Cjdns.invoke "InterfaceController_disconnectPeer"
        (Dict.insert "pubkey" (Object.ofText key) [])
      disconnectAll template ps
    else disconnectAll template ps

/-- `remove_conns`. -/
def removeConns (worker : Option Nat) : Cjdns Unit := do
  let ps ← peerStats
  disconnectAll (worker.elim "TESTING/".toList testingName) ps

/-- The first of the peers whose address has a key in it. -/
def findPeer (publicKey : Text) (peers : List PeerStats) : Option PeerStats :=
  peers.find? fun p => publicKey <:+: p.addr

/-- `peer_stats_of`. -/
def peerStatsOf (publicKey : Text) : Cjdns (Option PeerStats) := do
  let peers ← peerStats
  return findPeer publicKey peers

/-- The calls that an action makes come after those that were made before, if it has a result. -/
def Cjdns.Adds {α : Type} (action : Cjdns α) : Prop :=
  ∀ {session next result}, action session = some (result, next) →
    ∃ added, next.exchanges = session.exchanges ++ added

section

variable {α β : Type}

/-- A sequence returns a value exactly when its first part returns one from which the rest returns
that value. -/
theorem Cjdns.bind_ok_iff {first : Cjdns α} {next : α → Cjdns β} {session last : Session}
    {value : β} : (first >>= next) session = some (.ok value, last) ↔
      ∃ middle before, first session = some (.ok before, middle) ∧
        next before middle = some (.ok value, last) := by
  change first.andThen next session = _ ↔ _
  rw [andThen]
  cases done : first session with
  | none => simp
  | some result =>
    obtain ⟨result, middle⟩ := result
    cases result with
    | error fault => simp
    | ok before => simp

/-- What is done without the node returns its own result. -/
theorem Cjdns.of_ok_iff {result : Except String α} {session next : Session} {value : α} :
    Cjdns.of result session = some (.ok value, next) ↔ result = .ok value ∧ session = next := by
  simp [Cjdns.of]

/-- A call returns entries exactly when they are the first answer that is left. -/
theorem Cjdns.invoke_ok_iff {remoteFn : String} {args ret : Dict} {session next : Session} :
    Cjdns.invoke remoteFn args session = some (.ok ret, next) ↔
      ∃ replies, session.replies = .ok ret :: replies ∧
        next = ⟨replies, session.exchanges ++ [⟨remoteFn, args, .ok ret⟩]⟩ := by
  rw [Cjdns.invoke]
  split
  · next none => simp [none]
  · next reply replies waiting =>
    rw [waiting]
    constructor
    · intro done
      cases done
      exact ⟨replies, rfl, rfl⟩
    · rintro ⟨others, same, rfl⟩
      cases same
      rfl

/-- What is done without the node makes no call. -/
theorem Cjdns.adds_of (result : Except String α) : (Cjdns.of result).Adds := by
  intro session next found done
  cases done
  exact ⟨[], (List.append_nil _).symm⟩

/-- A call is one exchange. -/
theorem Cjdns.adds_invoke (remoteFn : String) (args : Dict) :
    (Cjdns.invoke remoteFn args).Adds := by
  intro session next result done
  rw [Cjdns.invoke] at done
  split at done
  · cases done
  · cases done
    exact ⟨_, rfl⟩

/-- A sequence makes the calls of its first part and then those of the rest. -/
theorem Cjdns.Adds.bind {first : Cjdns α} {next : α → Cjdns β} (starts : first.Adds)
    (continues : ∀ value, (next value).Adds) : (first >>= next).Adds := by
  intro session last result done
  change first.andThen next session = _ at done
  rw [andThen] at done
  cases began : first session with
  | none =>
    rw [began] at done
    cases done
  | some reached =>
    obtain ⟨before, middle⟩ := reached
    rw [began] at done
    obtain ⟨early, grown⟩ := starts began
    cases before with
    | error fault =>
      cases done
      exact ⟨early, grown⟩
    | ok value =>
      obtain ⟨late, further⟩ := continues value done
      exact ⟨early ++ late, by rw [further, grown, List.append_assoc]⟩

/-- What a loop over pages returns of new was on one of the pages.

Proof: induction on the replies. What the loop has collected grows by the items of one page in
every turn. -/
theorem pagesFrom_spec {remoteFn key : String} {tryFrom : Dict → Except String α} {page : Nat}
    {out : List α} {exchanges : List Exchange} {replies : List Reply}
    {result : Except String (List α)} {next : Session}
    (done : pagesFrom remoteFn key tryFrom page out exchanges replies = some (result, next)) :
    ∃ added, next.exchanges = exchanges ++ added ∧
      ∀ items, result = .ok items → ∀ item ∈ items, item ∈ out ∨
        ∃ exchange ∈ added, exchange.remoteFn = remoteFn ∧
          ∃ ret page more, exchange.reply = .ok ret ∧ readPage key tryFrom ret = .ok (page, more) ∧
            item ∈ page := by
  induction replies generalizing page out exchanges with
  | nil => cases done
  | cons reply replies inductionHypothesis =>
    rw [pagesFrom] at done
    split at done
    · cases done
      exact ⟨_, rfl, by rintro items ⟨⟩⟩
    · next items read =>
      obtain ⟨ret, answered, read⟩ := (except_bind_ok_iff _ _ _).mp read
      obtain ⟨added, grown, listed⟩ := inductionHypothesis done
      refine ⟨_ :: added, by rw [grown, List.append_assoc]; rfl, ?_⟩
      intro all whole item member
      rcases listed all whole item member with early | ⟨exchange, later, shows⟩
      · rcases List.mem_append.mp early with before | here
        · exact Or.inl before
        · exact Or.inr ⟨_, List.mem_cons_self, rfl, ret, items, true, answered, read, here⟩
      · exact Or.inr ⟨exchange, List.mem_cons_of_mem _ later, shows⟩
    · next items read =>
      obtain ⟨ret, answered, read⟩ := (except_bind_ok_iff _ _ _).mp read
      cases done
      refine ⟨_, rfl, ?_⟩
      rintro all ⟨⟩ item member
      rcases List.mem_append.mp member with before | here
      · exact Or.inl before
      · exact Or.inr ⟨_, List.mem_cons_self, rfl, ret, items, false, answered, read, here⟩

end

/-- A listing of the peers only makes calls. -/
theorem adds_peerStats : peerStats.Adds := by
  intro session next result done
  obtain ⟨added, grown, -⟩ := pagesFrom_spec done
  exact ⟨added, grown⟩

/-- A peer is looked for in a listing. -/
theorem adds_peerStatsOf (publicKey : Text) : (peerStatsOf publicKey).Adds :=
  Cjdns.Adds.bind adds_peerStats fun peers => Cjdns.adds_of (.ok (findPeer publicKey peers))

/-- A supernode is asked for with at most one call. -/
theorem adds_getSnode (address : Text) : (getSnode address).Adds := by
  refine Cjdns.Adds.bind (Cjdns.adds_of _) fun parsed => ?_
  exact Cjdns.Adds.bind (Cjdns.adds_invoke _ _) fun reply => Cjdns.adds_of _

/-- An answer to a question for the peers that shows one with a key. -/
def Exchange.Shows (exchange : Exchange) (publicKey : Text) (p : PeerStats) : Prop :=
  exchange.remoteFn = "InterfaceController_peerStats" ∧ publicKey <:+: p.addr ∧
    ∃ ret page more, exchange.reply = .ok ret ∧
      readPage "peers" PeerStats.tryFrom ret = .ok (page, more) ∧ p ∈ page

/-- An answer to a ping of a peer that names a supernode. -/
def Exchange.Names (exchange : Exchange) (address snode : Text) : Prop :=
  ∃ path key ret, parseAddress address = .ok (path, key) ∧
    exchange = ⟨"SwitchPinger_ping", pingArgs path, .ok ret⟩ ∧ readSnode ret = .ok (some snode)

/-- A peer that is found was shown in an answer. -/
theorem peerStatsOf_some {publicKey : Text} {session next : Session} {p : PeerStats}
    (done : peerStatsOf publicKey session = some (.ok (some p), next)) :
    ∃ added, next.exchanges = session.exchanges ++ added ∧
      ∃ exchange ∈ added, exchange.Shows publicKey p := by
  obtain ⟨middle, peers, asked, returned⟩ := Cjdns.bind_ok_iff.mp done
  obtain ⟨added, grown, listed⟩ := pagesFrom_spec asked
  obtain ⟨same, rfl⟩ := Cjdns.of_ok_iff.mp returned
  have found : findPeer publicKey peers = some p := Except.ok.inj same
  rw [findPeer] at found
  refine ⟨added, grown, ?_⟩
  rcases listed peers rfl p (List.mem_of_find?_eq_some found) with none | ⟨exchange, among, shows⟩
  · cases none
  · obtain ⟨asked, page⟩ := shows
    have contains := List.find?_some found
    exact ⟨exchange, among, asked, by simpa using contains, page⟩

/-- A connection that is begun was asked for with the credentials, and no error was answered. -/
theorem beginConn_ok {ifaceNum : Int64} {worker : Nat} {peer : PeeringLine}
    {session next : Session}
    (done : beginConn ifaceNum worker peer session = some (.ok (), next)) :
    ∃ ret, next.exchanges = session.exchanges ++
      [⟨"UDPInterface_beginConnection", beginArgs ifaceNum worker peer, .ok ret⟩] := by
  obtain ⟨middle, ret, invoked, returned⟩ := Cjdns.bind_ok_iff.mp done
  obtain ⟨-, rfl⟩ := Cjdns.of_ok_iff.mp returned
  obtain ⟨replies, -, rfl⟩ := Cjdns.invoke_ok_iff.mp invoked
  exact ⟨ret, rfl⟩

/-- A supernode that is heard of was named in an answer. -/
theorem getSnode_some {address snode : Text} {session next : Session}
    (done : getSnode address session = some (.ok (some snode), next)) :
    ∃ exchange : Exchange, next.exchanges = session.exchanges ++ [exchange] ∧
      exchange.Names address snode := by
  obtain ⟨_, ⟨path, key⟩, address, done⟩ := Cjdns.bind_ok_iff.mp done
  obtain ⟨parsed, rfl⟩ := Cjdns.of_ok_iff.mp address
  obtain ⟨_, ret, invoked, answer⟩ := Cjdns.bind_ok_iff.mp done
  obtain ⟨replies, -, rfl⟩ := Cjdns.invoke_ok_iff.mp invoked
  obtain ⟨read, rfl⟩ := Cjdns.of_ok_iff.mp answer
  exact ⟨_, rfl, path, key, ret, parsed, rfl, read⟩

end RouteServer.Ptest
