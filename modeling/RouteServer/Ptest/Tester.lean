import Mathlib.Data.List.Infix
import RouteServer.Machine.Histories
import RouteServer.Ptest.Cjdns
import RouteServer.Seeder.Listing

/-!
# Testing peers

A tester asks for all recorded credentials, hands those that are due to its agents and reports
their results. An agent connects a node of its own with the credentials, waits until the
connection is established and asks the peer for its supernode. It tries four times before it
reports anything but a success. The main loop and the agents talk through two channels, and every
event is one step of the main loop or of an agent.
-/

namespace RouteServer.Ptest

open Rust Bytes Keys Seeder

/-- `Status`. -/
inductive Status where
  | ok
  | connectTimeout
  | snodeError (text : String)
  | noSnode
  | wrongSnode
  | other (text : String)
deriving DecidableEq

/-- The loop of `test` that waits for the connection. There is none if it times out. -/
def awaitConnection (peer : PeeringLine) (i : Nat) : Cjdns (Option PeerStats) := do
  match ← peerStatsOf peer.publicKey with
  | none =>
    if i < 30 then awaitConnection peer (i + 1)
    else Cjdns.of (.error ("Peer " ++ String.ofList peer.address ++
      " did not register in peer stats within 30 seconds"))
  | some pso =>
    if pso.state = "ESTABLISHED".toList then return some pso
    else if i > 60 then return none
    else awaitConnection peer (i + 1)
termination_by 61 - i

/-- The loop of `test` that asks for the supernode. -/
def awaitSnode (addr : Text) (i : Nat) : Cjdns (Except String (Option Text)) := do
  match ← Cjdns.attempt (getSnode addr) with
  | .ok snode => return .ok snode
  | .error fault => if i ≥ 5 then return .error fault else awaitSnode addr (i + 1)
termination_by 5 - i

/-- The status of a test by the supernode that was heard of. -/
def snodeStatus (requireSnode : Option Text) : Except String (Option Text) → Status
  | .error fault => .snodeError fault
  | .ok none => .noSnode
  | .ok (some snode) => if requireSnode.any (snode ≠ ·) then .wrongSnode else .ok

/-- `test`. -/
def test (requireSnode : Option Text) (id : Nat) (peer : PeeringLine) : Cjdns Status := do
  match SocketAddr.parse peer.address with
  | none => Cjdns.of (.error "invalid socket address syntax")
  | some sa =>
    removeConns (some id)
    let iface ← getBestIface sa
    if (← peerStatsOf peer.publicKey).isSome then
      Cjdns.of (.error ("Can't test peer " ++ String.ofList peer.address ++
        " because we are already connected"))
    else
      beginConn iface id peer
      match ← awaitConnection peer 1 with
      | none => return .connectTimeout
      | some pso =>
        let snode ← awaitSnode pso.addr 1
        return snodeStatus requireSnode snode

/-- The status that an attempt ends with, by the answers that come in time. -/
def attemptStatus (requireSnode : Option Text) (id : Nat) (peer : PeeringLine)
    (replies : List Reply) : Status :=
  match test requireSnode id peer { replies } with
  | none => .other "Test function timed out"
  | some (.ok status, _) => status
  | some (.error fault, _) => .other fault

/-- The loop of `run` over the attempts at a peer. -/
def runTest (requireSnode : Option Text) (id : Nat) (peer : PeeringLine)
    (attempts : Nat → List Reply) (i : Nat) : Status :=
  if attemptStatus requireSnode id peer (attempts i) = .ok then .ok
  else if i > 3 then attemptStatus requireSnode id peer (attempts i)
  else runTest requireSnode id peer attempts (i + 1)
termination_by 4 - i

/-- A connection with the credentials was begun, then the peer was shown as established, and then
it named a supernode that suits. -/
def Established (requireSnode : Option Text) (id : Nat) (peer : PeeringLine)
    (exchanges : List Exchange) : Prop :=
  ∃ iface ret looked pso pinged snode,
    [⟨"UDPInterface_beginConnection", beginArgs iface id peer, .ok ret⟩, looked, pinged].Sublist
      exchanges ∧
    looked.Shows peer.publicKey pso ∧ pso.state = "ESTABLISHED".toList ∧
    pinged.Names pso.addr snode ∧ ∀ required ∈ requireSnode, snode = required

/-- A connection that was awaited is shown as established in an answer.

Proof: strong induction on the looks that are left. One look shows the peer as established or
the loop looks again. -/
theorem awaitConnection_some {peer : PeeringLine} {i : Nat} {session next : Session}
    {pso : PeerStats} (done : awaitConnection peer i session = some (.ok (some pso), next)) :
    pso.state = "ESTABLISHED".toList ∧ ∃ added, next.exchanges = session.exchanges ++ added ∧
      ∃ looked ∈ added, looked.Shows peer.publicKey pso := by
  induction left : 61 - i using Nat.strongRecOn generalizing i session with
  | ind left inductionHypothesis =>
    rw [awaitConnection] at done
    obtain ⟨middle, found, asked, done⟩ := Cjdns.bind_ok_iff.mp done
    have again : i ≤ 60 → awaitConnection peer (i + 1) middle = some (.ok (some pso), next) →
        pso.state = "ESTABLISHED".toList ∧
          ∃ added, next.exchanges = session.exchanges ++ added ∧
            ∃ looked ∈ added, looked.Shows peer.publicKey pso := by
      intro early later
      obtain ⟨before, grown⟩ := adds_peerStatsOf _ asked
      obtain ⟨established, added, further, looked, among, shows⟩ :=
        inductionHypothesis (61 - (i + 1)) (by omega) later rfl
      refine ⟨established, before ++ added, ?_, looked, List.mem_append_right _ among, shows⟩
      rw [further, grown, List.append_assoc]
    cases found with
    | none =>
      dsimp only at done
      split at done
      · next early => exact again (by omega) done
      · cases done
    | some here =>
      dsimp only at done
      split at done
      · next established =>
        obtain ⟨same, rfl⟩ := Cjdns.of_ok_iff.mp done
        cases same
        exact ⟨established, peerStatsOf_some asked⟩
      · split at done
        · cases done
        · next early => exact again (by omega) done

/-- A supernode that was asked for is named in an answer. -/
theorem awaitSnode_some {addr : Text} {i : Nat} {session next : Session} {snode : Text}
    (done : awaitSnode addr i session = some (.ok (.ok (some snode)), next)) :
    ∃ added, next.exchanges = session.exchanges ++ added ∧
      ∃ pinged ∈ added, pinged.Names addr snode := by
  induction left : 5 - i using Nat.strongRecOn generalizing i session with
  | ind left inductionHypothesis =>
    rw [awaitSnode] at done
    obtain ⟨middle, answered, asked, done⟩ := Cjdns.bind_ok_iff.mp done
    obtain ⟨⟨result, reached⟩, got, same⟩ := Option.map_eq_some_iff.mp asked
    cases same
    cases answered with
    | ok named =>
      obtain ⟨same, rfl⟩ := Cjdns.of_ok_iff.mp done
      cases same
      obtain ⟨pinged, grown, names⟩ := getSnode_some got
      exact ⟨_, grown, pinged, List.mem_singleton_self _, names⟩
    | error fault =>
      dsimp only at done
      split at done
      · cases done
      · next early =>
        obtain ⟨before, grown⟩ := adds_getSnode _ got
        obtain ⟨added, further, pinged, among, names⟩ :=
          inductionHypothesis (5 - (i + 1)) (by omega) done rfl
        refine ⟨before ++ added, ?_, pinged, List.mem_append_right _ among, names⟩
        rw [further, grown, List.append_assoc]

/-- A supernode is a success only where it is there and suits. -/
theorem snodeStatus_ok {requireSnode : Option Text} {answer : Except String (Option Text)}
    (suits : snodeStatus requireSnode answer = .ok) :
    ∃ snode, answer = .ok (some snode) ∧ ∀ required ∈ requireSnode, snode = required := by
  rcases answer with fault | named
  · cases suits
  · cases named with
    | none => cases suits
    | some snode =>
      rw [snodeStatus] at suits
      split at suits
      · cases suits
      · next right =>
        refine ⟨snode, rfl, ?_⟩
        intro required requires
        rw [Option.mem_def.mp requires, Option.any_some, decide_eq_true_eq] at right
        exact not_not.mp right

/-- A test succeeds only over an established connection.

Proof: the calls of the test one after the other: the address is read, old connections are
removed, the connection is begun and awaited, and the node is asked for. Each call gives its
exchange, and these follow one another. -/
theorem test_ok {requireSnode : Option Text} {id : Nat} {peer : PeeringLine}
    {session last : Session}
    (succeeded : test requireSnode id peer session = some (.ok .ok, last)) :
    Established requireSnode id peer last.exchanges := by
  rw [test] at succeeded
  cases address : SocketAddr.parse peer.address with
  | none =>
    rw [address] at succeeded
    cases succeeded
  | some sa =>
    rw [address] at succeeded
    obtain ⟨cleared, _, -, succeeded⟩ := Cjdns.bind_ok_iff.mp succeeded
    obtain ⟨chosen, iface, -, succeeded⟩ := Cjdns.bind_ok_iff.mp succeeded
    obtain ⟨checked, before, -, succeeded⟩ := Cjdns.bind_ok_iff.mp succeeded
    cases before with
    | some _ => cases succeeded
    | none =>
      dsimp only [Option.isSome_none] at succeeded
      obtain ⟨begun, _, began, succeeded⟩ := Cjdns.bind_ok_iff.mp succeeded
      obtain ⟨connected, connection, awaited, succeeded⟩ := Cjdns.bind_ok_iff.mp succeeded
      cases connection with
      | none => cases succeeded
      | some pso =>
        obtain ⟨heard, answer, asked, succeeded⟩ := Cjdns.bind_ok_iff.mp succeeded
        obtain ⟨same, rfl⟩ := Cjdns.of_ok_iff.mp succeeded
        obtain ⟨snode, rfl, suits⟩ := snodeStatus_ok (Except.ok.inj same)
        obtain ⟨ret, beginning⟩ := beginConn_ok began
        obtain ⟨established, looks, looking, looked, amongLooks, shows⟩ :=
          awaitConnection_some awaited
        obtain ⟨pings, pinging, pinged, amongPings, names⟩ := awaitSnode_some asked
        refine ⟨iface, ret, looked, pso, pinged, snode, ?_, shows, established, names, suits⟩
        rw [pinging, looking, beginning, List.append_assoc, List.append_assoc]
        refine List.Sublist.trans ?_ (List.sublist_append_right _ _)
        refine List.Sublist.cons_cons _ ?_
        exact (List.singleton_sublist.mpr amongLooks).append (List.singleton_sublist.mpr amongPings)

/-- Only a success of one of the attempts that are left is reported as one. -/
theorem runTest_ok {requireSnode : Option Text} {id : Nat} {peer : PeeringLine}
    {attempts : Nat → List Reply} {i : Nat} (left : i ≤ 4)
    (succeeded : runTest requireSnode id peer attempts i = .ok) :
    ∃ k last, i ≤ k ∧ k ≤ 4 ∧
      test requireSnode id peer { replies := attempts k } = some (.ok .ok, last) := by
  have attempt : ∀ k, attemptStatus requireSnode id peer (attempts k) = .ok →
      ∃ last, test requireSnode id peer { replies := attempts k } = some (.ok .ok, last) := by
    intro k same
    rw [attemptStatus] at same
    split at same
    · cases same
    · next status last tested =>
      subst same
      exact ⟨last, tested⟩
    · cases same
  fun_induction runTest requireSnode id peer attempts i with
  | case1 i success =>
    obtain ⟨last, tested⟩ := attempt i success
    exact ⟨i, last, Nat.le_refl i, left, tested⟩
  | case2 i failed last => exact absurd succeeded failed
  | case3 i failed early inductionHypothesis =>
    obtain ⟨k, last, later, bound, tested⟩ := inductionHypothesis (by omega) succeeded
    exact ⟨k, last, Nat.le_of_succ_le later, bound, tested⟩

/-- `PtestConfig`. -/
structure PtestConfig where
  retestAfterMinutes : Nat
  parallelTests : Nat
  pass : Text
  requireSnode : Option Text

/-- Where the main loop is. -/
inductive MainLoop where
  | idle
  | fetched (peers : List ListedPeer)
  | sending (rest : List ListedPeer) (nows : Nat)
  | posting (nodes : List SeederTestResNode)

/-- The main loop and the agents: what is being tested since when, the tasks that no agent took
yet, those that agents work on by the number of the agent, and the results that were not collected
yet. -/
structure Tester where
  main : MainLoop := .idle
  currentlyTesting : List (Text × Nat) := []
  tasks : List ListedPeer := []
  testing : List (Nat × ListedPeer) := []
  results : List (ListedPeer × Status) := []

/-- The task that an agent works on. -/
def Tester.task (id : Nat) (tester : Tester) : Option ListedPeer :=
  (tester.testing.find? (·.1 = id)).map Prod.snd

/-- Why a cycle of the main loop ends early. -/
inductive MainError where
  | key (fault : Keys.KeyCreationError)
  | address
deriving DecidableEq

/-- The capacity of the channels. -/
def capacity : Nat := 512

/-- The loop of `main_loop_cycle` that forgets what has been in testing for twenty minutes. -/
def expire (nows : Nat) : List (Text × Nat) → Outcome MainError (List (Text × Nat))
  | [] => .ok []
  | (address, since) :: rest => do
    let cutoff ← Outcome.checkedSub nows (60 * 20)
    if since > cutoff then return (address, since) :: rest else expire nows rest

/-- `main_loop_cycle`, from the listing to the first peer. -/
def begin (peers : List ListedPeer) (nowSec nows : Nat) (tester : Tester) :
    Outcome MainError Tester := do
  let thirtyMinutesAgo ← Outcome.checkedSub nowSec (60 * 30)
  let currentlyTesting ← expire nows tester.currentlyTesting
  return { tester with
    main := .sending (peers.filter fun p => p.lastReportSec ≥ thirtyMinutesAgo) nows
    currentlyTesting }

/-- The loop of `main_loop_cycle` over the peers, for one of them. It waits for room. -/
def sendTask (config : PtestConfig) (peer : ListedPeer) (rest : List ListedPeer) (nows : Nat)
    (tester : Tester) : Outcome MainError (Option Tester) := do
  let retest ← Outcome.checkedMul 64 config.retestAfterMinutes 60
  let due ← Outcome.checkedAdd 64 peer.lastCheckSec retest
  if due > nows then return some { tester with main := .sending rest nows }
  else if tester.currentlyTesting.any (fun (p, _) => p = peer.peer.address) then
    return some { tester with main := .sending rest nows }
  else if tester.tasks.length < capacity then
    return some { tester with
      main := .sending rest nows
      currentlyTesting := tester.currentlyTesting ++ [(peer.peer.address, nows)]
      tasks := tester.tasks ++ [peer] }
  else return none

section

variable (crypto : Crypto) (base32 : Base32Encoding) (shown : Status → Text)

/-- The node that a result is reported for. `shown` is the derived `Debug` of a status. -/
def resultNode (slp : ListedPeer) (stat : Status) : Outcome MainError SeederTestResNode := do
  let pk ← (tryFromStr base32 slp.peer.publicKey).mapErr .key
  match Ip6.ofPublicKey crypto pk with
  | none => .err (.key .resultingIp6OutOfValidRange)
  | some ip6 =>
    match SocketAddr.parse slp.peer.address with
    | none => .err .address
    | some addr =>
      return { addr, ip6 := ip6Text ip6, error := if stat ≠ .ok then some (shown stat) else none }

/-- The loop of `main_loop_cycle` over the results there are: the nodes to report, and the
results that are left when it ends early. -/
def collectResults : List (ListedPeer × Status) → List SeederTestResNode →
    Outcome MainError (List SeederTestResNode) × List (ListedPeer × Status)
  | [], nodes => (.ok nodes, [])
  | (slp, stat) :: rest, nodes =>
    match resultNode crypto base32 shown slp stat with
    | .ok node => collectResults rest (nodes ++ [node])
    | .err fault => (.err fault, rest)
    | .panicked => (.panicked, rest)

/-- A step of the main loop or of an agent that is no request to the supernode. -/
inductive Action where
  | begin (nowSec nows : Nat)
  | send
  | collect
  | take (id : Nat)
  | finish (id : Nat) (attempts : Nat → List Reply)

/-- One such step. A panic of the main loop ends the tester. -/
def Tester.act (config : PtestConfig) (tester : Tester) : Action → Option Tester
  | .begin nowSec nows =>
    match tester.main with
    | .fetched peers =>
      match begin peers nowSec nows tester with
      | .ok next => some next
      | .err _ => some { tester with main := .idle }
      | .panicked => none
    | _ => none
  | .send =>
    match tester.main with
    | .sending (peer :: rest) nows =>
      match sendTask config peer rest nows tester with
      | .ok next => next
      | .err _ => some { tester with main := .idle }
      | .panicked => none
    | _ => none
  | .collect =>
    match tester.main with
    | .sending [] _ =>
      match collectResults crypto base32 shown tester.results [] with
      | (.ok nodes, results) =>
        some { tester with main := if nodes.isEmpty then .idle else .posting nodes, results }
      | (.err _, results) => some { tester with main := .idle, results }
      | (.panicked, _) => none
    | _ => none
  | .take id =>
    match tester.tasks with
    | peer :: tasks =>
      if id < config.parallelTests ∧ tester.task id = none then
        some { tester with tasks, testing := tester.testing ++ [(id, peer)] }
      else none
    | [] => none
  | .finish id attempts =>
    match tester.task id with
    | some peer =>
      if tester.results.length < capacity then
        some { tester with
          testing := tester.testing.filter (·.1 ≠ id)
          results := tester.results ++
            [(peer, runTest config.requireSnode id peer.peer attempts 1)] }
      else none
    | none => none

/-- What is the case of all listings that a tester works on, of those that passed and of the
nodes that it reports. -/
structure Tester.Carries (listed passed : ListedPeer → Prop) (reported : SeederTestResNode → Prop)
    (tester : Tester) : Prop where
  fetched : ∀ peers, tester.main = .fetched peers → ∀ peer ∈ peers, listed peer
  sending : ∀ peers nows, tester.main = .sending peers nows → ∀ peer ∈ peers, listed peer
  posting : ∀ nodes, tester.main = .posting nodes → ∀ node ∈ nodes, reported node
  tasks : ∀ peer ∈ tester.tasks, listed peer
  testing : ∀ task ∈ tester.testing, listed task.2
  results : ∀ result ∈ tester.results, result.2 = .ok → passed result.1

end

section

variable {crypto : Crypto} {base32 : Base32Encoding} {shown : Status → Text}
  {listed passed : ListedPeer → Prop} {reported : SeederTestResNode → Prop} {tester : Tester}

/-- The main loop goes on where it waits for nothing. -/
theorem Tester.Carries.idle (carries : tester.Carries listed passed reported) :
    Tester.Carries listed passed reported { tester with main := .idle } where
  fetched := by rintro peers ⟨⟩
  sending := by rintro peers nows ⟨⟩
  posting := by rintro nodes ⟨⟩
  tasks := carries.tasks
  testing := carries.testing
  results := carries.results

/-- What a tester carries may be said more weakly. -/
theorem Tester.Carries.mono (carries : tester.Carries listed passed reported)
    {listed' passed' : ListedPeer → Prop} {reported' : SeederTestResNode → Prop}
    (lists : ∀ peer, listed peer → listed' peer) (passes : ∀ peer, passed peer → passed' peer)
    (reports : ∀ node, reported node → reported' node) :
    tester.Carries listed' passed' reported' where
  fetched peers same peer member := lists peer (carries.fetched peers same peer member)
  sending peers nows same peer member := lists peer (carries.sending peers nows same peer member)
  posting nodes same node member := reports node (carries.posting nodes same node member)
  tasks peer member := lists peer (carries.tasks peer member)
  testing task member := lists task.2 (carries.testing task member)
  results result member success := passes result.1 (carries.results result member success)

/-- The nodes that are reported come from results, and no result is made up.

Proof: induction on the results; each gives one node, or ends the loop. -/
theorem collectResults_ok
    (reports : ∀ slp stat node, (stat = .ok → passed slp) →
      resultNode crypto base32 shown slp stat = .ok node → reported node)
    {results : List (ListedPeer × Status)} {before : List SeederTestResNode}
    (passes : ∀ result ∈ results, result.2 = .ok → passed result.1)
    (earlier : ∀ node ∈ before, reported node) :
    (∀ nodes, (collectResults crypto base32 shown results before).1 = .ok nodes →
      ∀ node ∈ nodes, reported node) ∧
    (collectResults crypto base32 shown results before).2 ⊆ results := by
  induction results generalizing before with
  | nil =>
    refine ⟨?_, fun result member => member⟩
    rintro nodes ⟨⟩
    exact earlier
  | cons result results inductionHypothesis =>
    obtain ⟨slp, stat⟩ := result
    obtain ⟨first, others⟩ := List.forall_mem_cons.mp passes
    rw [collectResults]
    split
    · next node made =>
      have next : ∀ each ∈ before ++ [node], reported each := by
        have new := List.forall_mem_singleton.mpr (reports slp stat node first made)
        exact List.forall_mem_append.mpr ⟨earlier, new⟩
      obtain ⟨all, left⟩ := inductionHypothesis others next
      exact ⟨all, fun result member => List.mem_cons_of_mem _ (left member)⟩
    · refine ⟨?_, List.subset_cons_self _ _⟩
      rintro nodes ⟨⟩
    · refine ⟨?_, List.subset_cons_self _ _⟩
      rintro nodes ⟨⟩

/-- A cycle begins with listings that were fetched. -/
theorem Tester.Carries.begin {peers : List ListedPeer} {nowSec nows : Nat} {next : Tester}
    (carries : tester.Carries listed passed reported) (fetched : tester.main = .fetched peers)
    (begun : begin peers nowSec nows tester = .ok next) :
    next.Carries listed passed reported := by
  obtain ⟨cutoff, -, begun⟩ := (Outcome.bind_ok_iff _ _ _).mp begun
  obtain ⟨expired, -, begun⟩ := (Outcome.bind_ok_iff _ _ _).mp begun
  cases begun
  refine ⟨?_, ?_, ?_, carries.tasks, carries.testing, carries.results⟩
  · rintro other ⟨⟩
  · rintro rest since ⟨⟩ peer member
    exact carries.fetched peers fetched peer (List.mem_of_mem_filter member)
  · rintro nodes ⟨⟩

/-- The first of the listings is passed over or becomes a task. -/
theorem Tester.Carries.sendTask {config : PtestConfig} {peer : ListedPeer}
    {rest : List ListedPeer} {nows since : Nat} {next : Tester}
    (carries : tester.Carries listed passed reported)
    (sending : tester.main = .sending (peer :: rest) since)
    (sent : sendTask config peer rest nows tester = .ok (some next)) :
    next.Carries listed passed reported := by
  obtain ⟨first, others⟩ := List.forall_mem_cons.mp (carries.sending _ _ sending)
  have skipped : Tester.Carries listed passed reported
      { tester with main := .sending rest nows } := by
    refine ⟨?_, ?_, ?_, carries.tasks, carries.testing, carries.results⟩
    · rintro peers ⟨⟩
    · rintro peers nows ⟨⟩
      exact others
    · rintro nodes ⟨⟩
  obtain ⟨retest, -, sent⟩ := (Outcome.bind_ok_iff _ _ _).mp sent
  obtain ⟨due, -, sent⟩ := (Outcome.bind_ok_iff _ _ _).mp sent
  split_ifs at sent
  · cases sent
    exact skipped
  · cases sent
    exact skipped
  · cases sent
    refine ⟨skipped.fetched, ?_, skipped.posting, ?_, carries.testing, carries.results⟩
    · rintro peers nows ⟨⟩
      exact others
    · exact List.forall_mem_append.mpr ⟨carries.tasks, List.forall_mem_singleton.mpr first⟩
  · cases sent

/-- The loop over the results takes some of them and leaves the others. -/
theorem Tester.Carries.collected {main : MainLoop} {results : List (ListedPeer × Status)}
    (carries : tester.Carries listed passed reported) (left : results ⊆ tester.results)
    (waits : main = .idle ∨ ∃ nodes, main = .posting nodes ∧ ∀ node ∈ nodes, reported node) :
    Tester.Carries listed passed reported { tester with main, results } := by
  have remain : ∀ result ∈ results, result.2 = .ok → passed result.1 :=
    fun result member => carries.results result (left member)
  rcases waits with rfl | ⟨nodes, rfl, made⟩
  · exact ⟨carries.idle.fetched, carries.idle.sending, carries.idle.posting, carries.tasks,
      carries.testing, remain⟩
  · refine ⟨?_, ?_, ?_, carries.tasks, carries.testing, remain⟩
    · rintro peers ⟨⟩
    · rintro peers nows ⟨⟩
    · rintro posted ⟨⟩
      exact made

/-- A step of the main loop or of an agent makes no listing up, lets a listing pass only with a
test that succeeded, and reports only what passed.

Proof: one case for each action. What it takes from one list it puts into the next one, with
what the action itself ensures. -/
theorem Tester.Carries.act {config : PtestConfig} {action : Action} {next : Tester}
    (carries : tester.Carries listed passed reported)
    (acted : tester.act crypto base32 shown config action = some next)
    (reports : ∀ slp stat node, (stat = .ok → passed slp) →
      resultNode crypto base32 shown slp stat = .ok node → reported node)
    (passes : ∀ id attempts peer, action = .finish id attempts → tester.task id = some peer →
      listed peer → runTest config.requireSnode id peer.peer attempts 1 = .ok → passed peer) :
    next.Carries listed passed reported := by
  cases action with
  | begin nowSec nows =>
    simp only [Tester.act] at acted
    split at acted
    · next peers fetched =>
      split at acted
      · next begun =>
        cases acted
        exact carries.begin fetched begun
      · cases acted
        exact carries.idle
      · cases acted
    · cases acted
  | send =>
    simp only [Tester.act] at acted
    split at acted
    · next peer rest nows sending =>
      split at acted
      · next sent =>
        subst acted
        exact carries.sendTask sending sent
      · cases acted
        exact carries.idle
      · cases acted
    · cases acted
  | collect =>
    simp only [Tester.act] at acted
    obtain ⟨made, left⟩ := collectResults_ok reports carries.results
      (fun node member => absurd member List.not_mem_nil)
    split at acted
    · split at acted
      · next nodes rest collected =>
        rw [collected] at made left
        cases acted
        apply carries.collected left
        split
        · exact Or.inl rfl
        · exact Or.inr ⟨nodes, rfl, made nodes rfl⟩
      · next rest collected =>
        rw [collected] at left
        cases acted
        exact carries.collected left (Or.inl rfl)
      · cases acted
    · cases acted
  | take id =>
    simp only [Tester.act] at acted
    split at acted
    · next peer tasks waiting =>
      have tasksListed := carries.tasks
      rw [waiting] at tasksListed
      obtain ⟨first, others⟩ := List.forall_mem_cons.mp tasksListed
      split at acted
      · cases acted
        refine ⟨carries.fetched, carries.sending, carries.posting, others, ?_, carries.results⟩
        exact List.forall_mem_append.mpr ⟨carries.testing, List.forall_mem_singleton.mpr first⟩
      · cases acted
    · cases acted
  | finish id attempts =>
    simp only [Tester.act] at acted
    split at acted
    · next peer taken =>
      obtain ⟨task, found, rfl⟩ := Option.map_eq_some_iff.mp taken
      have listing := carries.testing task (List.mem_of_find?_eq_some found)
      split at acted
      · cases acted
        refine ⟨carries.fetched, carries.sending, carries.posting, carries.tasks, ?_, ?_⟩
        · exact fun each member => carries.testing each (List.mem_of_mem_filter member)
        · have new := passes id attempts task.2 rfl taken listing
          exact List.forall_mem_append.mpr ⟨carries.results, List.forall_mem_singleton.mpr new⟩
      · cases acted
    · cases acted

end

end RouteServer.Ptest
