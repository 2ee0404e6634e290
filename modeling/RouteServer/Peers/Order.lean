import RouteServer.Peers.Link

/-!
# No message between two servers is at fault

A number on its way is either the number of a request that has not been answered or of an
answer that has not been read. Each is there once and is outstanding, so no end of the
connection ever finds fault with a message from the other.
-/

namespace RouteServer.Peers

open Ann Machine.System
open Snode.Msgpack (Message MessageData)

/-- The number of a request, and of an answer. -/
def requestId (message : Message) : Option UInt64 :=
  match message.data with
  | .getData _ => some message.id
  | _ => none

def answerId (message : Message) : Option UInt64 :=
  match message.data with
  | .data _ => some message.id
  | _ => none

/-- What is emitted of its own accord answers nothing, and asks what is counted as asked. -/
theorem Emitted.ids {self : State} {conn : ConnId} {event : Event} {added : List Message}
    (emitted : Emitted self conn event added) :
    added.filterMap answerId = [] ∧
      added.filterMap requestId = (requestOf conn self event).map Prod.fst := by
  cases emitted with
  | nothing event quiet => rw [quiet]; exact ⟨rfl, rfl⟩
  | greeting peerType now new => cases peerType <;> exact ⟨rfl, rfl⟩
  | invitation hashes chunks stands =>
    rw [requestOf, if_pos rfl, asked, stands]
    exact ⟨rfl, rfl⟩
  | request hash hashes stands unknown =>
    have asks : asked self conn = [(self.msgIdSeq, hash)] := by
      rw [asked, stands]
      simp [unknown]
    rw [requestOf, if_pos rfl, asks]
    exact ⟨rfl, rfl⟩
  | pushed event message elsewhere told =>
    rw [(shows_nothing (by simp [elsewhere]) self).1]
    rcases told with data | ⟨_, _, _, data, _⟩ <;> simp [answerId, requestId, data]

/-- The numbers of requests on their way in one direction, and of answers in the other. -/
def numbersOnWay (up down : List Message) : List UInt64 :=
  up.filterMap requestId ++ down.filterMap answerId

/-- What is true of the messages on their way, given the numbers of all requests and of all
answers that were accepted. -/
structure Orderly (requests answers : List UInt64) (up down : List Message) : Prop where
  noHello : ∀ message ∈ up, ∀ number, message.data ≠ .hello number
  noOlleh : ∀ message ∈ down, ∀ number, message.data ≠ .olleh number
  once : (numbersOnWay up down).Nodup
  waiting : ∀ id ∈ numbersOnWay up down, id ∈ requests ∧ id ∉ answers

section Orderly

variable {requests answers : List UInt64} {up down kept added : List Message}

/-- The order of messages within a direction does not matter. -/
theorem Orderly.perm {up' down' : List Message} (orderly : Orderly requests answers up down)
    (upPerm : up'.Perm up) (downPerm : down'.Perm down) : Orderly requests answers up' down' where
  noHello := fun message among => orderly.noHello message (upPerm.subset among)
  noOlleh := fun message among => orderly.noOlleh message (downPerm.subset among)
  once := ((upPerm.filterMap _).append (downPerm.filterMap _)).nodup_iff.mpr orderly.once
  waiting := fun id among =>
    orderly.waiting id (((upPerm.filterMap _).append (downPerm.filterMap _)).subset among)

/-- Messages may be lost. -/
theorem Orderly.sublist {up' down' : List Message} (orderly : Orderly requests answers up down)
    (upSub : up'.Sublist up) (downSub : down'.Sublist down) :
    Orderly requests answers up' down' where
  noHello := fun message among => orderly.noHello message (upSub.subset among)
  noOlleh := fun message among => orderly.noOlleh message (downSub.subset among)
  once := orderly.once.sublist ((upSub.filterMap _).append (downSub.filterMap _))
  waiting := fun id among =>
    orderly.waiting id (((upSub.filterMap _).append (downSub.filterMap _)).subset among)

/-- What carries no number of an answer may be added on the way down. -/
theorem Orderly.downward (orderly : Orderly requests answers up down)
    (unnumbered : added.filterMap answerId = [])
    (noOlleh : ∀ message ∈ added, ∀ number, message.data ≠ .olleh number) :
    Orderly requests answers up (down ++ added) := by
  have same : numbersOnWay up (down ++ added) = numbersOnWay up down := by
    rw [numbersOnWay, List.filterMap_append, unnumbered, List.append_nil, numbersOnWay]
  refine ⟨orderly.noHello, fun message among => ?_, same ▸ orderly.once, same ▸ orderly.waiting⟩
  rcases List.mem_append.mp among with earlier | now
  · exact orderly.noOlleh message earlier
  · exact noOlleh message now

/-- Requests with new numbers may be added on the way up. -/
theorem Orderly.upward {fresh : List UInt64} (orderly : Orderly requests answers up down)
    (numbered : added.filterMap requestId = fresh)
    (noHello : ∀ message ∈ added, ∀ number, message.data ≠ .hello number)
    (distinct : fresh.Nodup) (unused : ∀ id ∈ fresh, id ∉ requests ∧ id ∉ answers) :
    Orderly (requests ++ fresh) answers (up ++ added) down := by
  have same : (numbersOnWay (up ++ added) down).Perm (numbersOnWay up down ++ fresh) := by
    rw [numbersOnWay, List.filterMap_append, numbered, numbersOnWay, List.append_assoc,
      List.append_assoc]
    exact List.perm_append_comm.append_left _
  refine ⟨fun message among => ?_, orderly.noOlleh, ?_, fun id among => ?_⟩
  · rcases List.mem_append.mp among with earlier | now
    · exact orderly.noHello message earlier
    · exact noHello message now
  · refine same.nodup_iff.mpr (List.nodup_append.mpr ⟨orderly.once, distinct, ?_⟩)
    rintro id among _ new rfl
    exact (unused id new).1 (orderly.waiting id among).1
  · rcases List.mem_append.mp (same.subset among) with earlier | now
    · obtain ⟨asked, waits⟩ := orderly.waiting id earlier
      exact ⟨List.mem_append_left _ asked, waits⟩
    · exact ⟨List.mem_append_right _ now, (unused id now).2⟩

/-- An answer takes over the number of the request. -/
theorem Orderly.served {message : Message} (anns : Snode.AnnList)
    (orderly : Orderly requests answers (message :: up) down) :
    Orderly requests answers up (down ++ replies anns message) := by
  have moved : (replies anns message).filterMap answerId = [message].filterMap requestId := by
    rw [replies]
    cases data : message.data <;> simp [requestId, answerId, data]
  have same : (numbersOnWay up (down ++ replies anns message)).Perm
      (numbersOnWay (message :: up) down) := by
    have split : (message :: up).filterMap requestId =
        [message].filterMap requestId ++ up.filterMap requestId :=
      @List.filterMap_append _ _ [message] up requestId
    rw [numbersOnWay, numbersOnWay, List.filterMap_append, moved, split, ← List.append_assoc,
      List.append_assoc ([message].filterMap requestId)]
    exact List.perm_append_comm
  refine ⟨fun other among => orderly.noHello other (List.mem_cons_of_mem _ among),
    fun other among => ?_, same.nodup_iff.mpr orderly.once,
    fun id among => orderly.waiting id (same.subset among)⟩
  rcases List.mem_append.mp among with earlier | now
  · exact orderly.noOlleh other earlier
  · exact fun number => (replies_greet_not anns message now number).2

/-- An answer that is accepted is not on its way any more. -/
theorem Orderly.answered {message : Message} {accepted : List UInt64}
    (orderly : Orderly requests answers up (message :: down))
    (brought : ∀ id ∈ accepted, answerId message = some id) :
    Orderly requests (answers ++ accepted) up down := by
  have shorter := orderly.sublist (.refl up) (List.sublist_cons_self message down)
  refine ⟨shorter.noHello, shorter.noOlleh, shorter.once, fun id among => ?_⟩
  obtain ⟨asked, waits⟩ := shorter.waiting id among
  refine ⟨asked, fun old => ?_⟩
  rcases List.mem_append.mp old with earlier | now
  · exact waits earlier
  · have split : numbersOnWay up (message :: down) =
        up.filterMap requestId ++ id :: down.filterMap answerId := by
      rw [numbersOnWay, List.filterMap_cons_some (brought id now)]
    have once := orderly.once
    rw [split, List.nodup_middle, List.nodup_cons] at once
    exact once.1 among

end Orderly

/-- What is true of two servers and the connection between them. -/
structure Ordered (cl cr : ConnId) (requests answers : List UInt64) (link : Link) : Prop where
  leftType : Typed cl .incoming link.left
  rightType : Typed cr .outgoing link.right
  orderly : Orderly requests answers (link.up cr) (link.down cl)

/-- A message leaves the types of the connections. -/
theorem typed_handled {self : State} {conn changed : ConnId} {peerType : PeerType} {now : Nat}
    {message : Message} (typed : Typed conn peerType self) :
    Typed conn peerType (self.setPeer changed
      ((self.conns changed).handleMessage self.anns now message)) := by
  intro made
  by_cases same : conn = changed
  · subst same
    simp only [State.setPeer, Function.update_self, handleMessage_peerType]
    exact typed made
  · simp only [State.setPeer, Function.update_of_ne same]
    exact typed made

section Ordered

variable {cl cr : ConnId} {requests answers : List UInt64} {link : Link}

/-- A step of the server on the left keeps the order. -/
theorem Ordered.left {event : Event} {server : State}
    (ordered : Ordered cl cr requests answers link) (unborn : link.left.Unborn)
    (permits : permitted cl .incoming link.left event = true)
    (stepped : Peers.step link.left event = some server) :
    Ordered cl cr requests answers
      { link with left := server, toRight := link.toRight ++ written cl link.left event } := by
  refine ⟨typed_step ordered.leftType stepped fun _ _ connects new =>
    permitted_fits permits connects new, ordered.rightType, ?_⟩
  obtain ⟨kept, added, fewer, perm, emitted⟩ :=
    ((step_effect stepped).change cl).stream unborn (permitted_silent permits) link.toRight
  have olleh : ∀ message ∈ added, ∀ number, message.data ≠ .olleh number :=
    fun message among number greets => by cases (emitted.greets permits among number).2 greets
  exact ((ordered.orderly.sublist (.refl _) fewer).downward emitted.ids.1 olleh).perm (.refl _) perm

/-- So does a step of the server on the right, whose requests have new numbers. -/
theorem Ordered.right {event : Event} {server : State}
    (ordered : Ordered cl cr requests answers link) (unborn : link.right.Unborn)
    (permits : permitted cr .outgoing link.right event = true)
    (stepped : Peers.step link.right event = some server)
    (distinct : ((requestOf cr link.right event).map Prod.fst).Nodup)
    (unused : ∀ id ∈ (requestOf cr link.right event).map Prod.fst,
      id ∉ requests ∧ id ∉ answers) :
    Ordered cl cr (requests ++ (requestOf cr link.right event).map Prod.fst) answers
      { link with right := server, toLeft := link.toLeft ++ written cr link.right event } := by
  refine ⟨ordered.leftType, typed_step ordered.rightType stepped fun _ _ connects new =>
    permitted_fits permits connects new, ?_⟩
  obtain ⟨kept, added, fewer, perm, emitted⟩ :=
    ((step_effect stepped).change cr).stream unborn (permitted_silent permits) link.toLeft
  have hello : ∀ message ∈ added, ∀ number, message.data ≠ .hello number :=
    fun message among number greets => by cases (emitted.greets permits among number).1 greets
  exact ((ordered.orderly.sublist fewer (.refl _)).upward emitted.ids.2 hello distinct unused).perm
    perm (.refl _)

/-- So does a message that the left end reads. -/
theorem Ordered.readLeft {now : Nat} {message : Message} {rest : List Message}
    (ordered : Ordered cl cr requests answers link) (first : link.toLeft = message :: rest)
    (stands : (link.left.conns cl).task = .ready .serving) :
    Ordered cl cr requests answers { link with
      left := link.left.setPeer cl ((link.left.conns cl).handleMessage link.left.anns now message)
      toLeft := rest } := by
  refine ⟨typed_handled ordered.leftType, ordered.rightType, ?_⟩
  have orderly := ordered.orderly
  rw [Link.up, first, List.cons_append] at orderly
  obtain ⟨kept, added, fewer, same, replied⟩ :=
    handleMessage_stream stands link.left.anns now message link.toRight
  simp only [Link.up, Link.down, State.setPeer, Function.update_self]
  rw [same]
  rcases replied with rfl | rfl
  · rw [List.append_nil]
    exact orderly.sublist (List.sublist_cons_self _ _) fewer
  · exact (orderly.served link.left.anns).sublist (.refl _) (fewer.append_right _)

/-- So does a message that the right end reads. If it is an answer, it is accepted.

Proof: the message that is read was the first one on its way, so its number is the one waited
for first; a reply has no number of its own. -/
theorem Ordered.readRight {now : Nat} {message : Message} {rest : List Message}
    {accepted : List UInt64}
    (ordered : Ordered cl cr requests answers link) (first : link.toRight = message :: rest)
    (stands : (link.right.conns cr).task = .ready .serving)
    (brought : ∀ id ∈ accepted, answerId message = some id) :
    Ordered cl cr requests (answers ++ accepted) { link with
      right := link.right.setPeer cr
        ((link.right.conns cr).handleMessage link.right.anns now message)
      toRight := rest } := by
  refine ⟨ordered.leftType, typed_handled ordered.rightType, ?_⟩
  have orderly := ordered.orderly
  rw [Link.down, first, List.cons_append] at orderly
  obtain ⟨kept, added, fewer, same, replied⟩ :=
    handleMessage_stream stands link.right.anns now message link.toLeft
  have unnumbered : added.filterMap requestId = [] := by
    rcases replied with rfl | rfl
    · rfl
    · rw [replies]
      cases message.data <;> rfl
  have greets : ∀ reply ∈ added, ∀ number, reply.data ≠ .hello number := by
    rcases replied with rfl | rfl
    · exact fun _ among => absurd among List.not_mem_nil
    · exact fun reply among number => (replies_greet_not _ message among number).1
  have shorter := (orderly.answered brought).sublist fewer (.refl _)
  have longer := shorter.upward unnumbered greets List.nodup_nil
    fun _ among => absurd among List.not_mem_nil
  rw [List.append_nil] at longer
  simp only [Link.up, Link.down, State.setPeer, Function.update_self]
  rw [same]
  exact longer

end Ordered

section Run

variable {cl cr : ConnId} {seedLeft seedRight : UInt64} {events : List LinkEvent} {last : Link}

/-- Where no message is read no answer is accepted. -/
theorem answerOf_silent {conn : ConnId} {event : Event}
    (silent : ∀ now message, event ≠ .read conn now message) (self : State) :
    answerOf conn self event = [] := by
  cases event with
  | read changed now message => exact if_neg fun both => silent now message (by rw [both.1])
  | _ => rfl

/-- An answer that is accepted is the one that the message carries. -/
theorem of_mem_answerOf {conn : ConnId} {self : State} {now : Nat} {message : Message}
    {answer : UInt64 × List UInt8}
    (accepted : answer ∈ answerOf conn self (.read conn now message)) :
    message.id = answer.1 ∧ message.data = .data answer.2 := by
  rw [answerOf] at accepted
  split_ifs at accepted
  · rw [answerIn] at accepted
    split at accepted
    · next data brings =>
      split_ifs at accepted
      · rw [List.mem_singleton.mp accepted]
        exact ⟨rfl, brings⟩
      · cases accepted
    · cases accepted
  · cases accepted

/-- In every run the numbers under way are those that are waited for, by induction on the run. -/
theorem ordered_of_run
    (ran : (linked cl cr seedLeft seedRight).run (Link.new seedLeft seedRight) events =
      some last) (short : events.length ≤ 2 ^ 64) :
    Ordered cl cr ((requestsMade cl cr seedLeft seedRight events).map Prod.fst)
      ((answersAccepted cl cr seedLeft seedRight events).map Prod.fst) last := by
  revert short
  refine run_history (fun events link => events.length ≤ 2 ^ 64 → Ordered cl cr
    ((requestsMade cl cr seedLeft seedRight events).map Prod.fst)
    ((answersAccepted cl cr seedLeft seedRight events).map Prod.fst) link) ?_ ?_ ran
  · exact fun _ => ⟨nofun, nofun, nofun, nofun, List.nodup_nil, nofun⟩
  · intro before link event next reached ordered possible long
    have short : before.length ≤ 2 ^ 64 := by
      rw [List.length_append, List.length_singleton] at long
      omega
    have ordered := ordered short
    obtain ⟨unbornLeft, unbornRight⟩ := unborn_of_linked reached
    have accounts := accounts_of_run (right_ran reached) (rightEvents_short short) cr
    have further := right_ran (run_further reached possible)
    have distinct := distinct_requests further (rightEvents_short long) cr
    rw [shown_right_snoc _ reached possible, List.map_append] at distinct
    rw [requestsMade, answersAccepted, shown_right_snoc _ reached possible,
      shown_right_snoc _ reached possible, List.map_append, List.map_append]
    rw [requestsMade, answersAccepted] at ordered
    cases link_effect possible with
    | left event server permits stepped =>
      simp only [rightSteps, shown, List.map_nil, List.append_nil]
      exact ordered.left unbornLeft permits stepped
    | right event server permits stepped =>
      obtain ⟨_, once, apart⟩ := List.nodup_append.mp distinct
      simp only [rightSteps, shown_singleton, answerOf_silent (permitted_silent permits),
        List.map_nil, List.append_nil] at once apart ⊢
      refine ordered.right unbornRight permits stepped once fun id new => ?_
      have unasked : id ∉ (requestsMade cl cr seedLeft seedRight before).map Prod.fst :=
        fun old => apart id old id new rfl
      refine ⟨unasked, fun old => unasked ?_⟩
      obtain ⟨answer, among, rfl⟩ := List.mem_map.mp old
      exact accounts.answered answer among
    | readLeft now message rest first stands =>
      simp only [rightSteps, shown, List.map_nil, List.append_nil]
      exact ordered.readLeft first stands
    | readRight now message rest first stands =>
      simp only [rightSteps, first, List.take_succ_cons, List.take_zero, List.map_singleton,
        shown_singleton]
      rw [show requestOf cr link.right (.read cr now message) = [] from rfl, List.map_nil,
        List.append_nil]
      refine ordered.readRight first stands fun id accepted => ?_
      obtain ⟨answer, among, rfl⟩ := List.mem_map.mp accepted
      obtain ⟨number, brings⟩ := of_mem_answerOf among
      rw [answerId, brings, number]

/-- A connection that was made and stands open is of its type. -/
theorem Typed.of_task {self : State} {conn : ConnId} {peerType : PeerType}
    (typed : Typed conn peerType self) (unborn : self.Unborn)
    (isOpen : (self.conns conn).task ≠ .closed) : (self.conns conn).peerType = peerType := by
  refine typed (Nat.lt_of_not_le fun unmade => isOpen ?_)
  rw [unborn conn unmade]
  rfl

/-- Between two servers that run this code, no message that is read at either end is found at
fault, so reading one never closes the connection: greetings fit the ends, and every answer
comes while its request is outstanding.

Proof: the numbers of requests and answers under way are those that are waited for, in every run
of the link. The cases of a fault are a greeting at the wrong end, which is never sent, and an
answer without a request. -/
theorem no_message_at_fault {link next : Link} {event : LinkEvent}
    (taken : (linked cl cr seedLeft seedRight).Taken events link event next)
    (short : events.length ≤ 2 ^ 64) :
    (∀ now, event = .readLeft now → (next.left.conns cl).task ≠ .closed) ∧
      ∀ now, event = .readRight now → (next.right.conns cr).task ≠ .closed := by
  obtain ⟨before, after, rfl, reached, possible⟩ := taken
  have shorter : before.length ≤ 2 ^ 64 := by
    rw [List.length_append] at short
    omega
  have ordered := ordered_of_run reached shorter
  obtain ⟨unbornLeft, unbornRight⟩ := unborn_of_linked reached
  constructor
  · rintro now rfl
    have effect : LinkEffect cl cr link (.readLeft now) next := link_effect possible
    cases effect with
    | readLeft now message rest first stands =>
      have incoming := ordered.leftType.of_task unbornLeft (by rw [stands]; nofun)
      have among : message ∈ link.up cr :=
        List.mem_append_left _ (first ▸ List.mem_cons_self)
      simp only [State.setPeer, Function.update_self]
      rw [Ne, handleMessage_closed_iff stands, incoming]
      rintro (⟨number, hello, _⟩ | ⟨_, _, role⟩ | ⟨_, _, role, _⟩)
      · exact ordered.orderly.noHello message among number hello
      · cases role
      · cases role
  · rintro now rfl
    have effect : LinkEffect cl cr link (.readRight now) next := link_effect possible
    cases effect with
    | readRight now message rest first stands =>
      have outgoing := ordered.rightType.of_task unbornRight (by rw [stands]; nofun)
      have among : message ∈ link.down cl :=
        List.mem_append_left _ (first ▸ List.mem_cons_self)
      simp only [State.setPeer, Function.update_self]
      rw [Ne, handleMessage_closed_iff stands, outgoing]
      rintro (⟨_, _, role⟩ | ⟨number, olleh, _⟩ | ⟨data, brings, _, unknown⟩)
      · cases role
      · exact ordered.orderly.noOlleh message among number olleh
      · have numbered : answerId message = some message.id := by rw [answerId, brings]
        have accounts := accounts_of_run (right_ran reached) (rightEvents_short shorter) cr
        refine unknown ((accounts.outstanding message.id).mpr (ordered.orderly.waiting _ ?_))
        exact List.mem_append_right _ (List.mem_filterMap.mpr ⟨message, among, numbered⟩)

end Run

/-- A hash, and events by which the second server learns that the first one lists it, asks for
it and receives the answer. -/
def someHash : AnnHash := ⟨List.replicate 64 9, rfl⟩

def exchange : List LinkEvent :=
  [.left (.addAnn someHash [7]), .left (.listPeers 0), .left (.connect .incoming 0),
    .right (.connect .outgoing 0), .left (.advance 0), .left (.advance 0), .left (.advance 0),
    .left (.advance 0), .left (.advance 0), .left (.write 0), .left (.write 0), .right (.advance 0),
    .right (.write 0), .readLeft 0, .readRight 0, .readRight 0, .right (.advance 0),
    .right (.advance 0), .right (.advance 0), .right (.write 0), .readLeft 0,
    .left (.advance 0), .left (.write 0)]

/-- In an exchange of one announcement the connection stays open. -/
theorem no_message_at_fault_in_exchange : ∃ link next : Link,
    (linked 0 0 0 0).Taken (exchange ++ [LinkEvent.readRight 0]) link (.readRight 0) next ∧
      (exchange ++ [LinkEvent.readRight 0]).length ≤ 2 ^ 64 ∧
      (next.right.conns 0).task ≠ .closed := by
  obtain ⟨link, next, taken⟩ := exists_taken_of_isSome (linked 0 0 0 0) exchange
    (LinkEvent.readRight 0) (by decide +kernel)
  have short : (exchange ++ [LinkEvent.readRight 0]).length ≤ 2 ^ 64 := by decide
  exact ⟨link, next, taken, short, (no_message_at_fault taken short).2 0 rfl⟩

end RouteServer.Peers
