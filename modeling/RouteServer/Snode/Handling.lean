import RouteServer.Snode.Checks

/-!
# What a call can do

A call changes the tables only if its packet parses, passes the checks and finds a
node to apply to: the known node, or a new one for a reset. Otherwise it writes at
most a state hash. Every property of calls and of runs of calls is derived from these
two cases.
-/

namespace RouteServer.Snode

open Rust Keys Ann Encoding

/-- A node without its state hash. -/
def Node.core (node : Node) : Node :=
  { node with mutState := { node.mutState with stateHash := none } }

/-- A state after a call that applied nothing. -/
structure Unchanged (before after : Server) : Prop where
  nodes : ∀ ip, (after.nodes.lookup ip).map Node.core = (before.nodes.lookup ip).map Node.core
  anns : after.anns = before.anns
  selfNode : after.selfNode = before.selfNode

/-- A state in which one node and the announcements offered have changed. -/
structure Becomes (before after : Server) (ip : Ip6) (node : Node) (anns : AnnList) : Prop where
  changed : (after.nodes.lookup ip).map Node.core = some node.core
  others : ∀ other, other ≠ ip → after.nodes.lookup other = before.nodes.lookup other
  anns : after.anns = anns
  selfNode : after.selfNode = before.selfNode

/-- The node that an announcement turns into the next one of its address, before the
links into it are updated. -/
def appliedTo (server : Server) (ann : Announcement) : Option Node :=
  if ann.header.isReset then
    (versionFromAnnouncement ann).bind fun version =>
      (newNode server.nodes version ann.nodePubKey (encodingSchemeFromAnnouncement ann)
        (annTime ann) ann.nodeIp (some ann)).toOption
  else (server.nodes.lookup ann.nodeIp).map fun node =>
    { node with mutState := addAnnouncement ann node.mutState }

/-- An announcement finds a node to apply to: a reset states its version, and its scheme
unless the node is known; any other announcement is about a known node. -/
def Applicable (server : Server) (ann : Announcement) : Prop :=
  let isKnown := (server.nodes.lookup ann.nodeIp).isSome
  if ann.header.isReset then
    (versionFromAnnouncement ann).isSome ∧
      ((encodingSchemeFromAnnouncement ann).isSome ∨ isKnown)
  else isKnown

/-- An announcement that a call accepts: it passes the checks and applies. -/
def Accepts (call : Call) (source : Source) (server : Server) (ann : Announcement) : Prop :=
  Passes call source server ann ∧ Applicable server ann

/-- The announcements still offered after an announcement has been applied, itself not
yet counted. -/
def remainingAnns (server : Server) (ann : Announcement) : AnnList :=
  match server.nodes.lookup ann.nodeIp with
  | some node =>
    if ann.header.isReset then forgetNode node server.anns
    else server.anns.delAnns (droppedHashes ann node.mutState)
  | none => server.anns

/-- A node that is made has its address, no links and the one announcement. -/
theorem newNode_ok {nodes : Nodes} {version : UInt16} {key : PublicKey}
    {scheme : Option EncodingScheme} {timestamp : SystemTime} {ipv6 : Ip6}
    {announcement : Option Announcement} {node : Node}
    (built : newNode nodes version key scheme timestamp ipv6 announcement = .ok node) :
    node.ipv6 = ipv6 ∧ node.nodeType = .node ∧ node.inwardLinksByIp = ∅ ∧
      node.mutState = ⟨timestamp, announcement.toList, none, announcement⟩ := by
  unfold newNode at built
  dsimp only at built
  split at built
  · cases built
  · cases built
    exact ⟨rfl, rfl, rfl, rfl⟩

/-- Overwriting forgets the announcements of the node replaced. -/
theorem addNode_overwrite (server : Server) (node : Node) (ordinary : node.nodeType = .node) :
    addNode server node true = some { server with
      anns := match server.nodes.lookup node.ipv6 with
        | some oldNode => forgetNode oldNode server.anns
        | none => server.anns
      nodes := server.nodes.insert node.ipv6 node } := by
  rw [addNode, if_neg (not_not.mpr ordinary)]
  cases server.nodes.lookup node.ipv6 with
  | some oldNode => exact if_neg (by decide)
  | none => rfl

/-- A node can be created when its scheme is stated or its address is known. -/
theorem newNode_isOk_iff (nodes : Nodes) (version : UInt16) (key : PublicKey)
    (scheme : Option EncodingScheme) (timestamp : SystemTime) (ipv6 : Ip6)
    (announcement : Option Announcement) :
    (newNode nodes version key scheme timestamp ipv6 announcement).toOption.isSome ↔
      scheme.isSome ∨ (nodes.lookup ipv6).isSome := by
  unfold newNode
  cases scheme with
  | some scheme => simp [Except.toOption]
  | none => cases nodes.lookup ipv6 <;> simp [Except.toOption]

/-- An announcement can be applied exactly when there is a node that it is applied to. -/
theorem applicable_iff (server : Server) (ann : Announcement) :
    Applicable server ann ↔ (appliedTo server ann).isSome := by
  rw [Applicable, appliedTo]
  split
  · cases versionFromAnnouncement ann with
    | none => simp
    | some version => simp only [Option.isSome_some, true_and, Option.bind_some, newNode_isOk_iff]
  · rw [Option.isSome_map]

/-- An announcement that is no reset applies to a known node. -/
theorem applicable_iff_known {server : Server} {ann : Announcement}
    (notReset : ¬ann.header.isReset = true) :
    Applicable server ann ↔ (server.nodes.lookup ann.nodeIp).isSome := by
  simp only [Applicable, notReset, Bool.false_eq_true, if_false]

/-- An answer writes the state hash of its node and nothing else. -/
theorem reply_unchanged (crypto : Crypto) (ip : Option Ip6) (replyError : ReplyError)
    (server : Server) : Unchanged server (reply crypto ip replyError server).1 := by
  rw [reply]
  split
  · next known found =>
    refine ⟨?_, rfl, rfl⟩
    intro other
    by_cases same : other = known.ip
    · subst same
      rw [HashMap.lookup_modify_self, Option.map_map]
      rfl
    · rw [HashMap.lookup_modify_ne _ same]
  · exact ⟨fun _ => rfl, rfl, rfl⟩

/-- An answer is never a panic. -/
theorem reply_ne_panicked (crypto : Crypto) (ip : Option Ip6) (replyError : ReplyError)
    (server : Server) : (reply crypto ip replyError server).2 ≠ .panicked := by
  rw [reply]
  split <;> exact Handled.noConfusion

/-- Entering notes an address and changes no table. -/
theorem entered_unchanged (server : Server) (ann : Announcement) :
    Unchanged server (entered server ann) := ⟨fun _ => rfl, rfl, rfl⟩

/-- What two steps leave, both leave together. -/
theorem Unchanged.trans {first second third : Server} (earlier : Unchanged first second)
    (later : Unchanged second third) : Unchanged first third :=
  ⟨fun ip => (later.nodes ip).trans (earlier.nodes ip), later.anns.trans earlier.anns,
    later.selfNode.trans earlier.selfNode⟩

/-- With the node of an accepted announcement in the table, and holding it, the rest of
the call updates the links of the node and offers the announcement. -/
theorem finish_becomes (crypto : Crypto) (call : Call) (ann : Announcement)
    (replyError : ReplyError) (server : Server) (node : Node)
    (found : server.nodes.lookup ann.nodeIp = some node) (holds : node.holds ann) :
    Becomes server (finish crypto call ann replyError server).1 ann.nodeIp
      (updateLinks call.order ann node) (server.anns.addAnn ann.hash ann.binary) := by
  have updated : (HashMap.modify ann.nodeIp (updateLinks call.order ann) server.nodes).lookup
      ann.nodeIp = some (updateLinks call.order ann node) := by
    rw [HashMap.lookup_modify_self, found, Option.map_some]
  have kept : (updateLinks call.order ann node).holds ann := holds
  simp only [finish, updated, kept, decide_true, if_true]
  have same := reply_unchanged crypto (some ann.nodeIp) replyError
    { server with
      nodes := HashMap.modify ann.nodeIp (updateLinks call.order ann) server.nodes
      anns := server.anns.addAnn ann.hash ann.binary }
  refine ⟨?_, ?_, same.anns, same.selfNode⟩
  · rw [same.nodes]
    exact congrArg (Option.map Node.core) updated
  · intro other different
    have other_kept : ∀ hash, (HashMap.modify ann.nodeIp (Node.withStateHash hash)
        (HashMap.modify ann.nodeIp (updateLinks call.order ann) server.nodes)).lookup other =
          server.nodes.lookup other := by
      intro hash
      rw [HashMap.lookup_modify_ne _ different, HashMap.lookup_modify_ne _ different]
    rw [reply]
    simp only [Option.bind_some, byIp, updated, Option.map_some]
    exact other_kept _

/-- A packet that parses: either it is rejected, or it is accepted with what its
announcement says about scheme and version. -/
theorem handle_of_read {crypto : Crypto} {announce : List UInt8} {ann : Announcement}
    (call : Call) (source : Source) (server : Server)
    (read : readAnnouncement crypto announce = .ok ann) :
    handleAnnounceImpl crypto call announce source server =
      match checked call source server ann with
      | .error message => (entered server ann, .failed message)
      | .ok ⟨none, replyError⟩ =>
        reply crypto ((byIp server.nodes ann.nodeIp).map Known.ip) replyError
          (entered server ann)
      | .ok ⟨some ann', replyError⟩ =>
        accept crypto call (byIp server.nodes ann.nodeIp) (encodingSchemeFromAnnouncement ann')
          (versionFromAnnouncement ann') ann' replyError (entered server ann) := by
  rw [handleAnnounceImpl]
  rw [read]
  simp only [enter]
  rw [show ({ server with currentNode := some ann.nodeIp } : Server) = entered server ann from rfl]
  rw [checked]
  cases check call source (entered server ann) (byIp server.nodes ann.nodeIp)
      ⟨some ann, .none⟩ with
  | error message => rfl
  | ok intake =>
    obtain ⟨annOpt, replyError⟩ := intake
    cases annOpt with
    | some ann' => rfl
    | none => cases byIp server.nodes ann.nodeIp <;> rfl

/-- A packet that parses and passes is accepted. -/
theorem handle_of_passes {crypto : Crypto} {call : Call} {announce : List UInt8}
    {source : Source} {server : Server} {ann : Announcement}
    (read : readAnnouncement crypto announce = .ok ann)
    (passes : Passes call source server ann) :
    handleAnnounceImpl crypto call announce source server =
      accept crypto call (byIp server.nodes ann.nodeIp) (encodingSchemeFromAnnouncement ann)
        (versionFromAnnouncement ann) ann .none (entered server ann) := by
  rw [handle_of_read call source server read, checked_of_passes passes]

/-- A call that applies an announcement, to the node given. -/
structure Applies (crypto : Crypto) (call : Call) (announce : List UInt8) (source : Source)
    (server : Server) (ann : Announcement) (node : Node) : Prop where
  read : readAnnouncement crypto announce = .ok ann
  passes : Passes call source server ann
  target : appliedTo server ann = some node

/-- What an accepted reset comes to: a new node in place of any earlier one. -/
theorem accept_of_reset {crypto : Crypto} {call : Call} {known : Option Known}
    {scheme : Option EncodingScheme} {version : UInt16} {ann : Announcement}
    {replyError : ReplyError} {server : Server} {node : Node}
    (fresh : ¬∃ node ∈ known, node.node.mutState.timestamp > annTime ann)
    (isReset : ann.header.isReset = true)
    (built : newNode server.nodes version ann.nodePubKey scheme (annTime ann) ann.nodeIp
      (some ann) = .ok node) :
    accept crypto call known scheme (some version) ann replyError server =
      finish crypto call ann replyError { server with
        anns := match server.nodes.lookup ann.nodeIp with
          | some oldNode => forgetNode oldNode server.anns
          | none => server.anns
        nodes := server.nodes.insert ann.nodeIp node } := by
  obtain ⟨ip, nodeType, -, -⟩ := newNode_ok built
  unfold accept
  rw [if_neg fresh, if_pos isReset]
  simp only [built]
  rw [addNode_overwrite _ _ nodeType, ip]

/-- What an accepted announcement that is no reset comes to. -/
theorem accept_of_known {crypto : Crypto} {call : Call} {known : Known}
    {scheme : Option EncodingScheme} {version : Option UInt16} {ann : Announcement}
    {replyError : ReplyError} {server : Server}
    (fresh : ¬∃ node ∈ some known, node.node.mutState.timestamp > annTime ann)
    (notReset : ¬ann.header.isReset = true) :
    accept crypto call (some known) scheme version ann replyError server =
      finish crypto call ann replyError { server with
        anns := server.anns.delAnns (droppedHashes ann known.node.mutState)
        nodes := server.nodes.insert known.ip
          { known.node with mutState := addAnnouncement ann known.node.mutState } } := by
  unfold accept
  rw [if_neg fresh, if_neg notReset]

/-- A call that applies an announcement has put the node in the table, taken what it
forgets off the list, and finishes from there.

Proof: by whether the announcement is a reset, which makes a new node, or not, which takes the
known one. -/
theorem handle_finishes {crypto : Crypto} {call : Call} {announce : List UInt8}
    {source : Source} {server : Server} {ann : Announcement} {node : Node}
    (applies : Applies crypto call announce source server ann node) :
    handleAnnounceImpl crypto call announce source server =
      finish crypto call ann .none { entered server ann with
        anns := remainingAnns server ann
        nodes := server.nodes.insert ann.nodeIp node } := by
  obtain ⟨read, passes, target⟩ := applies
  rw [handle_of_passes read passes]
  by_cases isReset : ann.header.isReset = true
  · simp only [appliedTo, isReset, if_true, Option.bind_eq_some_iff] at target
    obtain ⟨version, hasVersion, built⟩ := target
    cases new : newNode server.nodes version ann.nodePubKey (encodingSchemeFromAnnouncement ann)
        (annTime ann) ann.nodeIp (some ann) with
    | error message =>
      rw [new] at built
      cases built
    | ok created =>
      rw [new] at built
      cases built
      have newInEntered : newNode (entered server ann).nodes version ann.nodePubKey
          (encodingSchemeFromAnnouncement ann) (annTime ann) ann.nodeIp (some ann) = .ok node := new
      rw [hasVersion, accept_of_reset (not_older_known passes.2) isReset newInEntered]
      simp only [entered, remainingAnns, isReset, if_true]
  · simp only [appliedTo, isReset, Bool.false_eq_true, if_false, Option.map_eq_some_iff] at target
    obtain ⟨old, found, rfl⟩ := target
    have known : byIp server.nodes ann.nodeIp = some ⟨ann.nodeIp, old⟩ := by
      rw [byIp, found, Option.map_some]
    have fresh := not_older_known passes.2
    rw [known] at fresh ⊢
    rw [accept_of_known fresh isReset]
    simp only [entered, remainingAnns, found, isReset, Bool.false_eq_true, if_false]

/-- What an announcement is applied to: a reset starts a node anew, any other
announcement is added to the known one. -/
theorem appliedTo_cases {server : Server} {ann : Announcement} {node : Node}
    (target : appliedTo server ann = some node) :
    (ann.header.isReset = true ∧ node.ipv6 = ann.nodeIp ∧ node.inwardLinksByIp = ∅ ∧
        node.mutState = ⟨annTime ann, [ann], none, some ann⟩) ∨
      (¬ann.header.isReset = true ∧ ∃ old, server.nodes.lookup ann.nodeIp = some old ∧
        node = { old with mutState := addAnnouncement ann old.mutState }) := by
  rw [appliedTo] at target
  split at target
  · next isReset =>
    obtain ⟨version, -, built⟩ := Option.bind_eq_some_iff.mp target
    cases new : newNode server.nodes version ann.nodePubKey (encodingSchemeFromAnnouncement ann)
        (annTime ann) ann.nodeIp (some ann) with
    | error message =>
      rw [new] at built
      cases built
    | ok created =>
      rw [new] at built
      cases built
      obtain ⟨ip, -, links, state⟩ := newNode_ok new
      exact Or.inl ⟨isReset, ip, links, state⟩
  · next notReset =>
    obtain ⟨old, found, rfl⟩ := Option.map_eq_some_iff.mp target
    exact Or.inr ⟨notReset, old, found, rfl⟩

/-- The node an announcement is applied to holds it. -/
theorem appliedTo_holds {server : Server} {ann : Announcement} {node : Node}
    (target : appliedTo server ann = some node) : node.holds ann := by
  rcases appliedTo_cases target with ⟨-, -, -, state⟩ | ⟨-, old, -, rfl⟩
  · exact Or.inr (by rw [state])
  · apply Or.inl
    rw [addAnnouncement_announcements]
    exact mem_pruneAnnouncements ann old.mutState.announcements

/-- A call that applies an announcement puts the node with updated links in place of
the earlier one, and offers the announcement. -/
theorem handle_becomes {crypto : Crypto} {call : Call} {announce : List UInt8}
    {source : Source} {server : Server} {ann : Announcement} {node : Node}
    (applies : Applies crypto call announce source server ann node) :
    Becomes server (handleAnnounceImpl crypto call announce source server).1 ann.nodeIp
      (updateLinks call.order ann node)
      ((remainingAnns server ann).addAnn ann.hash ann.binary) := by
  rw [handle_finishes applies]
  have finished := finish_becomes crypto call ann .none { entered server ann with
    anns := remainingAnns server ann
    nodes := server.nodes.insert ann.nodeIp node } node (AList.lookup_insert _)
    (appliedTo_holds applies.target)
  exact ⟨finished.changed, fun other different => (finished.others other different).trans
    (AList.lookup_insert_ne different), finished.anns, finished.selfNode⟩

/-- The calls that apply their announcement are those that accept it. -/
theorem accepts_iff {crypto : Crypto} {announce : List UInt8} {ann : Announcement}
    (call : Call) (source : Source) (server : Server)
    (read : readAnnouncement crypto announce = .ok ann) :
    Accepts call source server ann ↔
      ∃ node, Applies crypto call announce source server ann node := by
  simp only [Accepts, applicable_iff, Option.isSome_iff_exists]
  constructor
  · rintro ⟨passes, node, target⟩
    exact ⟨node, read, passes, target⟩
  · rintro ⟨node, -, passes, target⟩
    exact ⟨passes, node, target⟩

/-- A packet that does not parse writes nothing. -/
theorem handle_of_unread {crypto : Crypto} {announce : List UInt8} (call : Call)
    (source : Source) (server : Server)
    (unread : ∀ ann, readAnnouncement crypto announce ≠ .ok ann) :
    (handleAnnounceImpl crypto call announce source server).1 = server := by
  rw [handleAnnounceImpl]
  cases read : readAnnouncement crypto announce with
  | panicked => rfl
  | ok ann => exact absurd read (unread ann)
  | err fault => cases source <;> rfl

/-- An announcement that is old, or finds no node to apply to, is not applied.

Proof: the checks in turn, none of which touches the table before it has failed. -/
theorem accept_unchanged {crypto : Crypto} {call : Call} {ann : Announcement}
    {replyError : ReplyError} {server : Server}
    (idle : Older server ann ∨ appliedTo server ann = none) :
    Unchanged server (accept crypto call (byIp server.nodes ann.nodeIp)
      (encodingSchemeFromAnnouncement ann) (versionFromAnnouncement ann) ann replyError
      (entered server ann)).1 := by
  have noted := entered_unchanged server ann
  unfold accept
  split
  · exact noted.trans (reply_unchanged crypto _ _ _)
  next fresh =>
    have none_applies : appliedTo server ann = none := by
      apply idle.resolve_left
      rintro ⟨node, found, older⟩
      exact fresh ⟨⟨ann.nodeIp, node⟩, (byIp_eq_some_iff _ _ _).mpr ⟨found, rfl⟩, older⟩
    by_cases isReset : ann.header.isReset = true
    · rw [if_pos isReset]
      simp only [appliedTo, isReset, if_true] at none_applies
      cases hasVersion : versionFromAnnouncement ann with
      | none => exact noted
      | some version =>
        rw [hasVersion, Option.bind_some] at none_applies
        have same_nodes : (entered server ann).nodes = server.nodes := rfl
        dsimp only
        rw [same_nodes]
        cases built : newNode server.nodes version ann.nodePubKey
            (encodingSchemeFromAnnouncement ann) (annTime ann) ann.nodeIp (some ann) with
        | error message => exact noted
        | ok node =>
          rw [built] at none_applies
          cases none_applies
    · rw [if_neg isReset]
      simp only [appliedTo, isReset, Bool.false_eq_true, if_false, Option.map_eq_none_iff]
        at none_applies
      rw [byIp, none_applies]
      exact noted.trans (reply_unchanged crypto _ _ _)

/-- A call that applies nothing leaves the tables as they are. -/
theorem handle_unchanged {crypto : Crypto} {call : Call} {announce : List UInt8}
    {source : Source} {server : Server}
    (idle : ∀ ann node, ¬Applies crypto call announce source server ann node) :
    Unchanged server (handleAnnounceImpl crypto call announce source server).1 := by
  by_cases readable : ∃ ann, readAnnouncement crypto announce = .ok ann
  · obtain ⟨ann, read⟩ := readable
    have noted := entered_unchanged server ann
    rw [handle_of_read call source server read]
    by_cases passes : Passes call source server ann
    · rw [checked_of_passes passes]
      refine accept_unchanged (Or.inr (Option.eq_none_iff_forall_not_mem.mpr ?_))
      intro node target
      exact idle ann node ⟨read, passes, target⟩
    · rcases checked_of_not_passes passes with
        ⟨message, verdict⟩ | ⟨replyError, verdict⟩ | ⟨verdict, old⟩
      · rw [verdict]
        exact noted
      · rw [verdict]
        exact noted.trans (reply_unchanged crypto _ _ _)
      · rw [verdict]
        exact accept_unchanged (Or.inl old)
  · rw [handle_of_unread call source server fun ann read => readable ⟨ann, read⟩]
    exact ⟨fun _ => rfl, rfl, rfl⟩

end RouteServer.Snode
