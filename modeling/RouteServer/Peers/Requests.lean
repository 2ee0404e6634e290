import RouteServer.Machine.Histories
import RouteServer.Peers.Changes

/-!
# Requests and answers

A server asks for announcements under numbers that count up, also for its pings. As long as
the numbers do not wrap around, an answer belongs to one request of the same connection, and
to no other answer, whatever the other side sends: what a connection hands on to the task that
handles announcements are answers to its own requests, for hashes it was offered.
-/

namespace RouteServer.Peers

open Ann Machine.System
open Snode.Msgpack (Message MessageData)

/-- The request that the task of a connection is about to make. -/
def asked (self : State) (conn : ConnId) : List (UInt64 × Snode.Msgpack.AnnHash) :=
  match (self.conns conn).task with
  | .ready (.requesting (hash :: _)) =>
    if hashKnown self.anns hash then [] else [(self.msgIdSeq, hash)]
  | _ => []

/-- The requests that an event makes on a connection. -/
def requestOf (conn : ConnId) (self : State) : Event → List (UInt64 × Snode.Msgpack.AnnHash)
  | .advance changed => if changed = conn then asked self conn else []
  | _ => []

/-- Whether a connection reads a message and asked for announcements. -/
def State.listens (self : State) (conn : ConnId) : Prop :=
  (self.conns conn).task = .ready .serving ∧ (self.conns conn).peerType = .outgoing

instance (self : State) (conn : ConnId) : Decidable (self.listens conn) :=
  inferInstanceAs (Decidable (_ ∧ _))

/-- The answer that a message brings, if it is accepted. -/
def answerIn (peer : Peer) (message : Message) : List (UInt64 × List UInt8) :=
  match message.data with
  | .data data => if message.id ∈ peer.outstandingReqs then [(message.id, data)] else []
  | _ => []

/-- The answers that an event brings to a connection. -/
def answerOf (conn : ConnId) (self : State) : Event → List (UInt64 × List UInt8)
  | .read changed _ message =>
    if changed = conn ∧ self.listens conn then answerIn (self.conns conn) message else []
  | _ => []

/-- The hashes that a message offers. -/
def hashesOf (message : Message) : List Snode.Msgpack.AnnHash :=
  match message.data with
  | .inv hashes => hashes
  | _ => []

/-- The hashes that an event offers to a connection. -/
def offeredBy (conn : ConnId) (self : State) : Event → List Snode.Msgpack.AnnHash
  | .read changed _ message => if changed = conn ∧ self.listens conn then hashesOf message else []
  | _ => []

/-- The announcement that a task waits to hand on. -/
def Task.held : Task → List (List UInt8)
  | .announcing data => [data]
  | _ => []

/-- The announcements that an event hands on from a connection. -/
def handedOn (conn : ConnId) (self : State) : Event → List (List UInt8)
  | .advance changed => if changed = conn then (self.conns conn).task.held else []
  | _ => []

/-- The hashes that a task still has to look up. -/
def Task.wanted : Task → List Snode.Msgpack.AnnHash
  | .ready (.requesting hashes) => hashes
  | .sending _ (.requesting hashes) => hashes
  | _ => []

/-- The numbers that an event takes. -/
def drawn (self : State) : Event → List UInt64
  | .advance conn => (asked self conn).map Prod.fst
  | .pingNext =>
    match self.pings with
    | ⟨_ :: _, none, _⟩ => [self.msgIdSeq]
    | _ => []
  | _ => []

/-- What a task does without a request. -/
theorem Moved.asked_nil {self : State} {conn : ConnId} {peer : Peer}
    (moved : Moved self conn peer) : asked self conn = [] := by
  rw [asked]
  cases moved with
  | finished stage ended stands =>
    rw [stands]
    rcases ended with rfl | rfl <;> rfl
  | known hash hashes stands knows =>
    rw [stands]
    exact if_pos knows
  | listed stands => rw [stands]
  | invited hashes chunks stands => rw [stands]
  | sent message next stands room => rw [stands]

/-- An event takes the next number, or none. -/
theorem step_msgIdSeq {self next : State} {event : Event} (stepped : step self event = some next) :
    (drawn self event = [] ∧ next.msgIdSeq = self.msgIdSeq) ∨
      (drawn self event = [self.msgIdSeq] ∧ next.msgIdSeq = self.msgIdSeq + 1) := by
  cases step_effect stepped with
  | requested conn hash hashes stands unknown =>
    refine .inr ⟨?_, rfl⟩
    rw [drawn, asked, stands]
    simp [unknown]
  | numbered conn rest dropList waits =>
    refine .inr ⟨?_, rfl⟩
    rw [drawn, waits]
  | moved conn peer moved => exact .inl ⟨by rw [drawn, moved.asked_nil]; rfl, rfl⟩
  | announced conn data stands room =>
    refine .inl ⟨?_, rfl⟩
    rw [drawn, asked, stands]
    rfl
  | pingPassed seq conn rest dropList waits isClosed =>
    refine .inl ⟨?_, rfl⟩
    rw [drawn, waits]
  | pinged seq conn rest dropList waits isOpen room =>
    refine .inl ⟨?_, rfl⟩
    rw [drawn, waits]
  | pingDropped seq conn rest waits =>
    refine .inl ⟨?_, rfl⟩
    rw [drawn, waits]
  | _ => exact .inl ⟨rfl, rfl⟩

/-- The first numbers from a seed on. -/
def numbers (seed : UInt64) (count : Nat) : List UInt64 :=
  (List.range count).map fun k => seed + UInt64.ofNat k

/-- One more number is given out after the others. -/
theorem numbers_succ (seed : UInt64) (count : Nat) :
    numbers seed (count + 1) = numbers seed count ++ [seed + UInt64.ofNat count] := by
  rw [numbers, List.range_succ, List.map_append]
  rfl

/-- Numbers do not repeat before all of a machine word are used up. -/
theorem nodup_numbers (seed : UInt64) {count : Nat} (short : count ≤ 2 ^ 64) :
    (numbers seed count).Nodup := by
  refine (List.nodup_range).map_on ?_
  intro first inFirst second inSecond same
  have firstSmall := List.mem_range.mp inFirst
  have secondSmall := List.mem_range.mp inSecond
  have equal := congrArg UInt64.toNat ((UInt64.add_right_inj seed).mp same)
  rwa [UInt64.toNat_ofNat_of_lt' (Nat.lt_of_lt_of_le firstSmall short),
    UInt64.toNat_ofNat_of_lt' (Nat.lt_of_lt_of_le secondSmall short)] at equal

/-- What handling a message does to requests, to the task and to the wanted hashes.

Proof: one case for each kind of message, with the branches of its handler. -/
theorem handleMessage_spec (peer : Peer) (anns : Snode.AnnList) (now : Nat) (message : Message) :
    let answers := if peer.peerType = .outgoing then answerIn peer message else []
    let next := peer.handleMessage anns now message
    (∀ answer ∈ answers, answer.1 ∈ peer.outstandingReqs) ∧ (answers.map Prod.fst).Nodup ∧
      (∀ id, id ∈ next.outstandingReqs ↔
        id ∈ peer.outstandingReqs ∧ id ∉ answers.map Prod.fst) ∧
      (next.task = peer.task ∧ answers = [] ∨ next.task.held = answers.map Prod.snd ∧
        next.task.wanted = if peer.peerType = .outgoing then hashesOf message else []) := by
  rw [Peer.handleMessage, answerIn, hashesOf]
  dsimp only
  cases message.data with
  | data data =>
    dsimp only
    split_ifs with outgoing known
    · simp [Task.held, Task.wanted, known, and_comm]
    · simp [Task.held, Task.wanted, Peer.close]
    · simp
  | inv hashes =>
    dsimp only
    split_ifs with outgoing
    · simp [Task.held, Task.wanted]
    · simp
  | hello number =>
    dsimp only
    split_ifs <;> simp [Task.held, Task.wanted, Peer.close]
  | olleh number =>
    dsimp only
    split_ifs <;> simp [Task.held, Task.wanted, Peer.close]
  | getData hash => simp [Task.held, Task.wanted]
  | ping => simp [Task.held, Task.wanted]
  | ack => simp

/-- What is true of the requests of a connection, of the answers it accepted, of the hashes it
was offered and of what it handed on, given the numbers that were taken. -/
structure Accounts (taken : List UInt64) (requests : List (UInt64 × Snode.Msgpack.AnnHash))
    (answers : List (UInt64 × List UInt8)) (offered : List Snode.Msgpack.AnnHash)
    (handed : List (List UInt8)) (peer : Peer) : Prop where
  numbered : (requests.map Prod.fst).Sublist taken
  answered : ∀ answer ∈ answers, answer.1 ∈ requests.map Prod.fst
  once : (answers.map Prod.fst).Nodup
  outstanding : ∀ id, id ∈ peer.outstandingReqs ↔
    id ∈ requests.map Prod.fst ∧ id ∉ answers.map Prod.fst
  wanted : ∀ hash ∈ peer.task.wanted, hash ∈ offered
  requested : ∀ request ∈ requests, request.2 ∈ offered
  handed : handed ++ peer.task.held = answers.map Prod.snd

/-- An event that is no step of the task leaves its accounts as they are. -/
theorem shows_nothing {conn : ConnId} {event : Event} (elsewhere : event.actor ≠ some conn)
    (self : State) : requestOf conn self event = [] ∧ answerOf conn self event = [] ∧
      offeredBy conn self event = [] ∧ handedOn conn self event = [] := by
  cases event with
  | advance changed =>
    have other : changed ≠ conn := fun same => elsewhere (congrArg some same)
    exact ⟨if_neg other, rfl, rfl, if_neg other⟩
  | read changed now message =>
    have other : ¬(changed = conn ∧ self.listens conn) :=
      fun both => elsewhere (congrArg some both.1)
    exact ⟨rfl, if_neg other, if_neg other, rfl⟩
  | _ => exact ⟨rfl, rfl, rfl, rfl⟩

section Step

variable {taken : List UInt64} {requests : List (UInt64 × Snode.Msgpack.AnnHash)}
  {answers : List (UInt64 × List UInt8)} {offered : List Snode.Msgpack.AnnHash}
  {handed : List (List UInt8)}

/-- A connection that keeps its requests and what its task holds, and wants nothing new, keeps
its accounts. -/
theorem Accounts.keep {peer next : Peer}
    (accounts : Accounts taken requests answers offered handed peer) (more : List UInt64)
    (outstanding : next.outstandingReqs = peer.outstandingReqs)
    (held : next.task.held = peer.task.held)
    (wanted : ∀ hash ∈ next.task.wanted, hash ∈ peer.task.wanted) :
    Accounts (taken ++ more) requests answers offered handed next where
  numbered := accounts.numbered.trans (List.sublist_append_left taken more)
  answered := accounts.answered
  once := accounts.once
  outstanding := outstanding ▸ accounts.outstanding
  wanted := fun hash want => accounts.wanted hash (wanted hash want)
  requested := accounts.requested
  handed := held ▸ accounts.handed

/-- What a task does by itself changes nothing that is accounted for. -/
theorem Moved.keeps {self : State} {conn : ConnId} {peer : Peer} (moved : Moved self conn peer) :
    peer.outstandingReqs = (self.conns conn).outstandingReqs ∧ peer.task.held = [] ∧
      (self.conns conn).task.held = [] ∧
      ∀ hash ∈ peer.task.wanted, hash ∈ (self.conns conn).task.wanted := by
  cases moved with
  | finished stage ended stands => exact ⟨rfl, rfl, by rw [stands]; rfl, nofun⟩
  | known hash hashes stands knows =>
    refine ⟨rfl, rfl, by rw [stands]; rfl, fun other want => ?_⟩
    rw [stands]
    exact List.mem_cons_of_mem hash want
  | listed stands => exact ⟨rfl, rfl, by rw [stands]; rfl, nofun⟩
  | invited hashes chunks stands => exact ⟨rfl, rfl, by rw [stands]; rfl, nofun⟩
  | sent message next stands room =>
    refine ⟨rfl, rfl, by rw [stands]; rfl, fun other want => ?_⟩
    rw [stands]
    cases next with
    | requesting hashes => exact want
    | _ => exact want

/-- A request takes a number that was not taken before.

Proof: field by field. The number is new, so it has not been answered, and the hash was offered,
because it was wanted. -/
theorem Accounts.request {peer : Peer} {number : UInt64} {hash : Snode.Msgpack.AnnHash}
    {hashes : List Snode.Msgpack.AnnHash}
    (accounts : Accounts taken requests answers offered handed peer)
    (stands : peer.task = .ready (.requesting (hash :: hashes))) (fresh : number ∉ taken) :
    Accounts (taken ++ [number]) (requests ++ [(number, hash)]) answers offered handed
      { peer with
        outstandingReqs := insert number peer.outstandingReqs
        task := .sending ⟨number, .getData hash⟩ (.requesting hashes) } := by
  have unanswered : number ∉ answers.map Prod.fst := by
    intro listed
    obtain ⟨answer, among, rfl⟩ := List.mem_map.mp listed
    exact fresh (accounts.numbered.subset (accounts.answered answer among))
  have wanted : ∀ other ∈ hash :: hashes, other ∈ offered := by
    have before := accounts.wanted
    rw [stands] at before
    exact before
  constructor
  · rw [List.map_append]
    exact accounts.numbered.append (List.Sublist.refl _)
  · intro answer among
    rw [List.map_append]
    exact List.mem_append_left _ (accounts.answered answer among)
  · exact accounts.once
  · intro id
    rw [Finset.mem_insert, accounts.outstanding id, List.map_append, List.mem_append]
    simp only [List.map_cons, List.map_nil, List.mem_singleton]
    constructor
    · rintro (rfl | ⟨asked, waiting⟩)
      · exact ⟨.inr rfl, unanswered⟩
      · exact ⟨.inl asked, waiting⟩
    · rintro ⟨asked | rfl, waiting⟩
      · exact .inr ⟨asked, waiting⟩
      · exact .inl rfl
  · exact fun other want => wanted other (List.mem_cons_of_mem hash want)
  · intro request among
    rcases List.mem_append.mp among with earlier | now
    · exact accounts.requested request earlier
    · rw [List.mem_singleton.mp now]
      exact wanted hash List.mem_cons_self
  · have before := accounts.handed
    rw [stands] at before
    exact before

/-- A message is handled while the task waits for messages.

Proof: field by field, by what handling the message does; an answer is accepted only if its
number is outstanding, and leaves it. -/
theorem Accounts.handle {peer : Peer} (anns : Snode.AnnList) (now : Nat) (message : Message)
    (accounts : Accounts taken requests answers offered handed peer)
    (stands : peer.task = .ready .serving) :
    Accounts taken requests
      (answers ++ if peer.peerType = .outgoing then answerIn peer message else [])
      (offered ++ if peer.peerType = .outgoing then hashesOf message else []) handed
      (peer.handleMessage anns now message) := by
  obtain ⟨were, once, outstanding, task⟩ := handleMessage_spec peer anns now message
  generalize (if peer.peerType = .outgoing then answerIn peer message else []) = fresh at *
  generalize (if peer.peerType = .outgoing then hashesOf message else []) = offers at *
  have handed : handed = answers.map Prod.snd := by
    have before := accounts.handed
    rw [stands] at before
    exact (List.append_nil _).symm.trans before
  have asked (answer) (among : answer ∈ fresh) :=
    (accounts.outstanding answer.1).mp (were answer among)
  constructor
  · exact accounts.numbered
  · intro answer among
    rcases List.mem_append.mp among with earlier | now
    · exact accounts.answered answer earlier
    · exact (asked answer now).1
  · rw [List.map_append]
    refine List.nodup_append.mpr ⟨accounts.once, once, ?_⟩
    rintro id earlier _ now rfl
    obtain ⟨answer, among, rfl⟩ := List.mem_map.mp now
    exact (asked answer among).2 earlier
  · intro id
    rw [outstanding id, accounts.outstanding id, List.map_append, List.mem_append, not_or,
      and_assoc]
  · intro hash want
    rcases task with ⟨same, _⟩ | ⟨_, wanted⟩
    · rw [same, stands] at want
      cases want
    · rw [wanted] at want
      exact List.mem_append_right offered want
  · exact fun request among => List.mem_append_left _ (accounts.requested request among)
  · rw [List.map_append, handed]
    rcases task with ⟨same, rfl⟩ | ⟨held, _⟩
    · rw [same, stands]
      rfl
    · rw [held]

/-- One event keeps the accounts of a connection.

Proof: by whether the event is one of this connection. If it is, by what it does to the task; if
not, nothing that is counted changes. -/
theorem Accounts.step {conn : ConnId} {self next : State} {event : Event}
    (accounts : Accounts taken requests answers offered handed (self.conns conn))
    (unborn : self.connCount ≤ conn → self.conns conn = Peer.unused)
    (fresh : self.msgIdSeq ∉ taken) (stepped : step self event = some next) :
    Accounts (taken ++ drawn self event) (requests ++ requestOf conn self event)
      (answers ++ answerOf conn self event) (offered ++ offeredBy conn self event)
      (handed ++ handedOn conn self event) (next.conns conn) := by
  have change := (step_effect stepped).change conn
  generalize next.conns conn = peer at change
  by_cases acts : event.actor = some conn
  · cases change with
    | kept event elsewhere => exact absurd acts elsewhere
    | created peerType now new => cases acts
    | moved peer moved =>
      obtain ⟨outstanding, held, before, wanted⟩ := moved.keeps
      simp only [requestOf, moved.asked_nil, handedOn, before, answerOf, offeredBy, if_true,
        List.append_nil]
      exact accounts.keep _ outstanding (held.trans before.symm) wanted
    | requested hash hashes stands unknown =>
      have asks : asked self conn = [(self.msgIdSeq, hash)] := by
        rw [asked, stands]
        simp [unknown]
      simp only [drawn, requestOf, asks, handedOn, stands, answerOf, offeredBy, if_true, Task.held,
        List.map_cons, List.map_nil, List.append_nil]
      exact accounts.request stands fresh
    | announced data stands =>
      have asks : asked self conn = [] := by rw [asked, stands]
      simp only [drawn, requestOf, asks, handedOn, stands, answerOf, offeredBy, if_true, Task.held,
        List.map_nil, List.append_nil]
      have before := accounts.handed
      rw [stands] at before
      exact { accounts with
        wanted := nofun
        handed := (List.append_nil _).trans before }
    | wrote message queue stands first =>
      simp only [drawn, requestOf, answerOf, offeredBy, handedOn, List.append_nil]
      exact { accounts with }
    | handled now message stands =>
      have handled := accounts.handle self.anns now message stands
      simp only [drawn, requestOf, answerOf, offeredBy, handedOn, State.listens, stands, true_and,
        List.append_nil]
      exact handled
    | disconnected stands =>
      simp only [drawn, requestOf, answerOf, offeredBy, handedOn, List.append_nil]
      have before := accounts.handed
      rw [stands] at before
      exact { accounts with
        wanted := nofun
        handed := before }
    | pushed event message elsewhere told isOpen room =>
      cases elsewhere.symm.trans acts
  · obtain ⟨noRequest, noAnswer, noOffer, noneHanded⟩ := shows_nothing acts self
    rw [noRequest, noAnswer, noOffer, noneHanded, List.append_nil, List.append_nil,
      List.append_nil, List.append_nil]
    cases change with
    | kept event elsewhere => exact accounts.keep _ rfl rfl fun _ want => want
    | created peerType now new =>
      have unused := unborn (Nat.le_of_eq new.symm)
      refine accounts.keep _ ?_ ?_ ?_
      · rw [unused]
        rfl
      · rw [unused]
        cases peerType <;> rfl
      · cases peerType <;> exact nofun
    | pushed event message elsewhere told isOpen room =>
      exact accounts.keep _ rfl rfl fun _ want => want
    | _ => exact absurd rfl acts

end Step

variable {seed : UInt64} {events : List Event} {last : State}

/-- The numbers taken in a run are the first ones from the seed on, at most one an event. -/
theorem taken_numbers (ran : (peers seed).run (State.new seed) events = some last) :
    ∃ count, count ≤ events.length ∧ last.msgIdSeq = seed + UInt64.ofNat count ∧
      (peers seed).shown drawn (State.new seed) events = numbers seed count := by
  refine run_history (fun events state => ∃ count, count ≤ events.length ∧
    state.msgIdSeq = seed + UInt64.ofNat count ∧
    (peers seed).shown drawn (State.new seed) events = numbers seed count) ?_ ?_ ran
  · exact ⟨0, Nat.le_refl 0, (UInt64.add_zero seed).symm, rfl⟩
  · rintro before state event next reached ⟨count, few, number, taken⟩ possible
    rw [shown_snoc reached possible, taken, List.length_append, List.length_singleton]
    rcases step_msgIdSeq possible with ⟨none, same⟩ | ⟨one, later⟩
    · rw [none, List.append_nil, same]
      exact ⟨count, Nat.le_succ_of_le few, number, rfl⟩
    · rw [one, number, later, number]
      refine ⟨count + 1, Nat.succ_le_succ few, ?_, (numbers_succ seed count).symm⟩
      rw [UInt64.add_assoc, UInt64.ofNat_add]
      rfl

/-- The next number was not taken before. -/
theorem fresh_number (ran : (peers seed).run (State.new seed) events = some last)
    (short : events.length < 2 ^ 64) :
    last.msgIdSeq ∉ (peers seed).shown drawn (State.new seed) events := by
  obtain ⟨count, few, number, taken⟩ := taken_numbers ran
  have distinct : (numbers seed (count + 1)).Nodup := nodup_numbers seed (by omega)
  rw [numbers_succ, List.nodup_append] at distinct
  rw [taken, number]
  exact fun among => distinct.2.2 _ among _ (List.mem_singleton_self _) rfl

/-- Connections that were never made are as at first, in every run. -/
theorem unborn_of_run (ran : (peers seed).run (State.new seed) events = some last) :
    last.Unborn := by
  have start : (State.new seed).Unborn := fun _ _ => rfl
  have keeps (state : State) (event : Event) (next : State) (unborn : state.Unborn)
      (possible : (peers seed).step state event = some next) : next.Unborn :=
    unborn_step unborn possible
  exact run_keeps keeps ran start

/-- The accounts of a connection hold in every run without an overflow of the numbers. -/
theorem accounts_of_run (ran : (peers seed).run (State.new seed) events = some last)
    (short : events.length ≤ 2 ^ 64) (conn : ConnId) :
    Accounts ((peers seed).shown drawn (State.new seed) events)
      ((peers seed).shown (requestOf conn) (State.new seed) events)
      ((peers seed).shown (answerOf conn) (State.new seed) events)
      ((peers seed).shown (offeredBy conn) (State.new seed) events)
      ((peers seed).shown (handedOn conn) (State.new seed) events) (last.conns conn) := by
  revert short
  refine run_history (fun events state => events.length ≤ 2 ^ 64 → Accounts
    ((peers seed).shown drawn (State.new seed) events)
    ((peers seed).shown (requestOf conn) (State.new seed) events)
    ((peers seed).shown (answerOf conn) (State.new seed) events)
    ((peers seed).shown (offeredBy conn) (State.new seed) events)
    ((peers seed).shown (handedOn conn) (State.new seed) events) (state.conns conn)) ?_ ?_ ran
  · intro short
    exact ⟨List.Sublist.refl _, nofun, List.nodup_nil, by simp [State.new, shown, Peer.unused],
      nofun, nofun, rfl⟩
  · intro before state event next reached accounts possible short
    rw [List.length_append, List.length_singleton] at short
    rw [shown_snoc reached possible, shown_snoc reached possible, shown_snoc reached possible,
      shown_snoc reached possible, shown_snoc reached possible]
    exact (accounts (by omega)).step (unborn_of_run reached conn)
      (fresh_number reached (by omega)) possible

/-- No two requests of a connection have the same number. -/
theorem distinct_requests (ran : (peers seed).run (State.new seed) events = some last)
    (short : events.length ≤ 2 ^ 64) (conn : ConnId) :
    (((peers seed).shown (requestOf conn) (State.new seed) events).map Prod.fst).Nodup := by
  obtain ⟨count, few, _, taken⟩ := taken_numbers ran
  have distinct : ((peers seed).shown drawn (State.new seed) events).Nodup :=
    taken ▸ nodup_numbers seed (Nat.le_trans few short)
  exact distinct.sublist (accounts_of_run ran short conn).numbered

/-- Whatever other servers send, what a connection hands on to the task that handles
announcements is, in order, the data of answers to its own requests: every answer belongs to
one request, no two answers belong to the same one, the requests without an answer are those
outstanding, and only hashes offered on the same connection are requested.

Proof: the invariant accounts for all requests of a connection: those answered, in order, and
those outstanding. A step adds to one side of it or moves an identifier from one to the other. -/
theorem announcements_were_requested
    (ran : (peers seed).run (State.new seed) events = some last)
    (short : events.length ≤ 2 ^ 64) (conn : ConnId) :
    let requests := (peers seed).shown (requestOf conn) (State.new seed) events
    let answers := (peers seed).shown (answerOf conn) (State.new seed) events
    let offered := (peers seed).shown (offeredBy conn) (State.new seed) events
    let handed := (peers seed).shown (handedOn conn) (State.new seed) events
    handed ++ (last.conns conn).task.held = answers.map Prod.snd ∧
      (requests.map Prod.fst).Nodup ∧ (answers.map Prod.fst).Nodup ∧
      (∀ answer ∈ answers, answer.1 ∈ requests.map Prod.fst) ∧
      (∀ id, id ∈ (last.conns conn).outstandingReqs ↔
        id ∈ requests.map Prod.fst ∧ id ∉ answers.map Prod.fst) ∧
      ∀ request ∈ requests, request.2 ∈ offered := by
  have accounts := accounts_of_run ran short conn
  exact ⟨accounts.handed, distinct_requests ran short conn, accounts.once, accounts.answered,
    accounts.outstanding, accounts.requested⟩

/-- A hash, and events by which a connection asks for it and is answered. -/
def soughtHash : Snode.Msgpack.AnnHash := ⟨List.replicate 64 0⟩

def soughtAndFound : List Event :=
  [.connect .outgoing 0, .advance 0, .read 0 0 ⟨0, .inv [soughtHash]⟩, .advance 0, .advance 0,
    .advance 0, .read 0 0 ⟨5, .data [7]⟩, .advance 0]

/-- In a run over one announcement it is handed on, and it had been asked for. -/
theorem announcement_was_requested : ∃ last : State,
    (peers 5).run (State.new 5) soughtAndFound = some last ∧ soughtAndFound.length ≤ 2 ^ 64 ∧
      (peers 5).shown (handedOn 0) (State.new 5) soughtAndFound ++ (last.conns 0).task.held =
        ((peers 5).shown (answerOf 0) (State.new 5) soughtAndFound).map Prod.snd := by
  have possible : ((peers 5).run (State.new 5) soughtAndFound).isSome = true := by decide +kernel
  have short : soughtAndFound.length ≤ 2 ^ 64 := by decide
  obtain ⟨last, ran⟩ := Option.isSome_iff_exists.mp possible
  exact ⟨last, ran, short, (announcements_were_requested ran short 0).1⟩

end RouteServer.Peers
