import RouteServer.Snode.Handling

/-!
# Scheme and version of a node

An announcement need not repeat the scheme and the version of a known node: what it
leaves out is taken from the node, and only a node that is not known must be announced
in full. The reading of both from the announcement is wrapped once more than the code
expects, so that the node is never asked. A node that is created without a scheme asks
its predecessor; nothing asks for its version.
-/

namespace RouteServer.Snode

open Rust Keys Ann Encoding

/-- The scheme an announcement resolves to: its own, or that of the known node. -/
def resolvedScheme (known : Option Known) (ann : Announcement) : Option EncodingScheme :=
  (encodingSchemeFromAnnouncement ann).or (known.map fun known => known.node.encodingScheme)

/-- The version an announcement resolves to, in the same way. -/
def resolvedVersion (known : Option Known) (ann : Announcement) : Option UInt16 :=
  (versionFromAnnouncement ann).or (known.map fun known => known.node.version)

/-- The handling of a packet as it is meant: what an announcement leaves out is taken
from the known node, and an announcement without a scheme or a version is answered with
the reason alone. -/
def resolvedAnnounce (crypto : Crypto) (call : Call) (announce : List UInt8) (source : Source)
    (server : Server) : Server × Handled :=
  match readAnnouncement crypto announce with
  | .panicked => (server, .panicked)
  | outcome =>
    let (server, known, intake) := enter outcome server
    match check call source server known intake with
    | .error message => (server, .failed message)
    | .ok ⟨none, replyError⟩ => reply crypto (known.map Known.ip) replyError server
    | .ok ⟨some ann, replyError⟩ =>
      match resolvedScheme known ann, resolvedVersion known ann with
      | none, _ => reply crypto none .noEncodingScheme server
      | some _, none => reply crypto none .noVersion server
      | some scheme, some version =>
        accept crypto call known (some scheme) (some version) ann replyError server

/-- An announcement that leaves out no more than the code supplies. -/
def Resolvable (server : Server) (ann : Announcement) : Prop :=
  let isKnown := (server.nodes.lookup ann.nodeIp).isSome
  ((encodingSchemeFromAnnouncement ann).isSome ∨ isKnown) ∧
    ((versionFromAnnouncement ann).isSome ∨ isKnown ∧ ¬ann.header.isReset)

/-- What becomes of an announcement that was read, by the checks and by what is known of its scheme
and version. -/
theorem resolvedAnnounce_of_read {crypto : Crypto} {announce : List UInt8} {ann : Announcement}
    (call : Call) (source : Source) (server : Server)
    (read : readAnnouncement crypto announce = .ok ann) :
    resolvedAnnounce crypto call announce source server =
      match checked call source server ann with
      | .error message => (entered server ann, .failed message)
      | .ok ⟨none, replyError⟩ =>
        reply crypto ((byIp server.nodes ann.nodeIp).map Known.ip) replyError
          (entered server ann)
      | .ok ⟨some ann', replyError⟩ =>
        match resolvedScheme (byIp server.nodes ann.nodeIp) ann',
            resolvedVersion (byIp server.nodes ann.nodeIp) ann' with
        | none, _ => reply crypto none .noEncodingScheme (entered server ann)
        | some _, none => reply crypto none .noVersion (entered server ann)
        | some scheme, some version =>
          accept crypto call (byIp server.nodes ann.nodeIp) (some scheme) (some version) ann'
            replyError (entered server ann) := by
  rw [resolvedAnnounce]
  rw [read]
  rfl

/-- A node created without a scheme takes the one of its predecessor. -/
theorem newNode_known_scheme (nodes : Nodes) (version : UInt16) (key : PublicKey)
    (scheme : Option EncodingScheme) (timestamp : SystemTime) (ipv6 : Ip6)
    (announcement : Option Announcement) :
    newNode nodes version key (scheme.or ((nodes.lookup ipv6).map Node.encodingScheme)) timestamp
        ipv6 announcement =
      newNode nodes version key scheme timestamp ipv6 announcement := by
  unfold newNode
  cases scheme with
  | some scheme => rfl
  | none => cases nodes.lookup ipv6 <;> rfl

/-- An accepted announcement that is older than its node is answered only. -/
theorem accept_of_old {crypto : Crypto} {call : Call} {known : Option Known}
    {scheme : Option EncodingScheme} {version : Option UInt16} {ann : Announcement}
    {replyError : ReplyError} {server : Server}
    (old : ∃ node ∈ known, node.node.mutState.timestamp > annTime ann) :
    accept crypto call known scheme version ann replyError server =
      reply crypto (known.map Known.ip) replyError server := by
  unfold accept
  rw [if_pos old]

/-- What follows an accepted announcement ends in an answer. -/
theorem finish_ne_panicked (crypto : Crypto) (call : Call) (ann : Announcement)
    (replyError : ReplyError) (server : Server) :
    (finish crypto call ann replyError server).2 ≠ .panicked := reply_ne_panicked crypto _ _ _

/-- With a version at hand nothing panics. -/
theorem accept_ne_panicked (crypto : Crypto) (call : Call) (known : Option Known)
    (scheme : Option EncodingScheme) (version : UInt16) (ann : Announcement)
    (replyError : ReplyError) (server : Server) :
    (accept crypto call known scheme (some version) ann replyError server).2 ≠ .panicked := by
  unfold accept
  split
  · exact reply_ne_panicked crypto _ _ _
  split
  · dsimp only
    split
    · exact Handled.noConfusion
    · split
      · exact Handled.noConfusion
      · exact finish_ne_panicked crypto call ann _ _
  · split
    · exact finish_ne_panicked crypto call ann _ _
    · exact reply_ne_panicked crypto _ _ _

/-- The handling as it is meant panics on no packet that parses. -/
theorem resolvedAnnounce_ne_panicked {crypto : Crypto} {announce : List UInt8}
    {ann : Announcement} (call : Call) (source : Source) (server : Server)
    (read : readAnnouncement crypto announce = .ok ann) :
    (resolvedAnnounce crypto call announce source server).2 ≠ .panicked := by
  rw [resolvedAnnounce_of_read call source server read]
  split
  · exact Handled.noConfusion
  · exact reply_ne_panicked crypto _ _ _
  · split
    · exact reply_ne_panicked crypto _ _ _
    · exact reply_ne_panicked crypto _ _ _
    · exact accept_ne_panicked crypto call _ _ _ _ _ _

/-- A reset without a version panics. -/
theorem accept_of_no_version {crypto : Crypto} {call : Call} {known : Option Known}
    {scheme : Option EncodingScheme} {ann : Announcement} {replyError : ReplyError}
    {server : Server} (fresh : ¬∃ node ∈ known, node.node.mutState.timestamp > annTime ann)
    (isReset : ann.header.isReset = true) :
    accept crypto call known scheme none ann replyError server = (server, .panicked) := by
  unfold accept
  rw [if_neg fresh, if_pos isReset]

/-- A reset with a version makes its node from the scheme, whatever is known. -/
theorem accept_of_version {crypto : Crypto} {call : Call} {known : Option Known}
    {version : UInt16} {first second : Option EncodingScheme} {ann : Announcement}
    {replyError : ReplyError} {server : Server}
    (fresh : ¬∃ node ∈ known, node.node.mutState.timestamp > annTime ann)
    (isReset : ann.header.isReset = true)
    (same : newNode server.nodes version ann.nodePubKey first (annTime ann) ann.nodeIp (some ann) =
      newNode server.nodes version ann.nodePubKey second (annTime ann) ann.nodeIp (some ann)) :
    accept crypto call known first (some version) ann replyError server =
      accept crypto call known second (some version) ann replyError server := by
  unfold accept
  rw [if_neg fresh, if_neg fresh, if_pos isReset, if_pos isReset]
  simp only [same]

/-- What is refused is refused in the same way. -/
theorem handle_eq_resolved_of_refused {crypto : Crypto} {call : Call} {announce : List UInt8}
    {source : Source} {server : Server} {ann : Announcement}
    (read : readAnnouncement crypto announce = .ok ann)
    (refused : ¬Passes call source server ann) :
    handleAnnounceImpl crypto call announce source server =
      resolvedAnnounce crypto call announce source server := by
  rw [handle_of_read call source server read, resolvedAnnounce_of_read call source server read]
  rcases checked_of_not_passes refused with
    ⟨message, verdict⟩ | ⟨replyError, verdict⟩ | ⟨verdict, node, found, older⟩
  · rw [verdict]
  · rw [verdict]
  · rw [verdict]
    have known : byIp server.nodes ann.nodeIp = some ⟨ann.nodeIp, node⟩ := by
      rw [byIp, found, Option.map_some]
    have old : ∃ node ∈ byIp server.nodes ann.nodeIp,
        node.node.mutState.timestamp > annTime ann := ⟨⟨ann.nodeIp, node⟩, known, older⟩
    dsimp only
    rw [accept_of_old old]
    split
    · next noScheme =>
      rw [resolvedScheme, known] at noScheme
      simp at noScheme
    · next noVersion =>
      rw [resolvedVersion, known] at noVersion
      simp at noVersion
    · exact (accept_of_old old).symm

/-- For a known node only the version of a reset is not supplied.

Proof: the scheme of a known node is there, and so is its version, except in a reset, which
makes a new node out of the announcement alone. -/
theorem handle_eq_resolved_iff_of_known {crypto : Crypto} {call : Call} {announce : List UInt8}
    {source : Source} {server : Server} {ann : Announcement} {node : Node}
    (read : readAnnouncement crypto announce = .ok ann) (passes : Passes call source server ann)
    (found : server.nodes.lookup ann.nodeIp = some node) :
    handleAnnounceImpl crypto call announce source server =
        resolvedAnnounce crypto call announce source server ↔
      (versionFromAnnouncement ann).isSome ∨ ¬ann.header.isReset = true := by
  have noPanic := resolvedAnnounce_ne_panicked call source server read
  rw [handle_of_passes read passes]
  rw [resolvedAnnounce_of_read call source server read, checked_of_passes passes] at noPanic ⊢
  have known : byIp server.nodes ann.nodeIp = some ⟨ann.nodeIp, node⟩ := by
    rw [byIp, found, Option.map_some]
  have fresh := not_older_known passes.2
  rw [known] at fresh noPanic ⊢
  obtain ⟨scheme, hasScheme⟩ : ∃ scheme,
      resolvedScheme (some ⟨ann.nodeIp, node⟩) ann = some scheme :=
    Option.isSome_iff_exists.mp (by simp [resolvedScheme])
  obtain ⟨version, hasVersion⟩ : ∃ version,
      resolvedVersion (some ⟨ann.nodeIp, node⟩) ann = some version :=
    Option.isSome_iff_exists.mp (by simp [resolvedVersion])
  simp only [hasScheme, hasVersion] at noPanic ⊢
  by_cases isReset : ann.header.isReset = true
  · cases own : versionFromAnnouncement ann with
    | none =>
      rw [accept_of_no_version fresh isReset]
      simp only [Option.isSome_none, Bool.false_eq_true, isReset, not_true_eq_false, or_self,
        iff_false]
      intro same
      exact noPanic (congrArg Prod.snd same).symm
    | some ownVersion =>
      have same : ownVersion = version := by
        rw [resolvedVersion, own, Option.some_or] at hasVersion
        exact Option.some.inj hasVersion
      have schemes := newNode_known_scheme server.nodes version ann.nodePubKey
        (encodingSchemeFromAnnouncement ann) (annTime ann) ann.nodeIp (some ann)
      rw [found, Option.map_some] at schemes
      rw [resolvedScheme, Option.map_some] at hasScheme
      rw [hasScheme] at schemes
      subst same
      simp only [Option.isSome_some, true_or, iff_true]
      exact accept_of_version fresh isReset schemes.symm
  · rw [accept_of_known fresh isReset, accept_of_known fresh isReset]
    simp [isReset]

/-- Past the checks an answer gives no other reason than that the node is unknown. -/
theorem accept_replies {crypto : Crypto} {call : Call} {known : Option Known}
    {scheme : Option EncodingScheme} {version : Option UInt16} {ann : Announcement}
    {replyError reason : ReplyError} {server : Server} {hash : AnnHash}
    (answer : (accept crypto call known scheme version ann replyError server).2 =
      .replied hash reason) : reason = replyError ∨ reason = .unknownNode := by
  have replies : ∀ {ip : Option Ip6} {given : ReplyError} {server : Server},
      (reply crypto ip given server).2 = .replied hash reason → reason = given := by
    intro ip given server answer
    rw [reply] at answer
    split at answer <;> (cases answer; rfl)
  unfold accept at answer
  split at answer
  · exact Or.inl (replies answer)
  split at answer
  · split at answer
    · cases answer
    · split at answer
      · cases answer
      · split at answer
        · cases answer
        · exact Or.inl (replies answer)
  · split at answer
    · exact Or.inl (replies answer)
    · exact Or.inr (replies answer)

/-- A node that is not known must be announced in full. -/
theorem handle_eq_resolved_iff_of_unknown {crypto : Crypto} {call : Call}
    {announce : List UInt8} {source : Source} {server : Server} {ann : Announcement}
    (read : readAnnouncement crypto announce = .ok ann) (passes : Passes call source server ann)
    (missing : server.nodes.lookup ann.nodeIp = none) :
    handleAnnounceImpl crypto call announce source server =
        resolvedAnnounce crypto call announce source server ↔
      (encodingSchemeFromAnnouncement ann).isSome ∧ (versionFromAnnouncement ann).isSome := by
  rw [handle_of_passes read passes, resolvedAnnounce_of_read call source server read,
    checked_of_passes passes]
  have known : byIp server.nodes ann.nodeIp = none := by rw [byIp, missing, Option.map_none]
  rw [known]
  simp only [resolvedScheme, resolvedVersion, Option.map_none, Option.or_none]
  have differs : ∀ (scheme : Option EncodingScheme) (version : Option UInt16)
      (reason : ReplyError), reason ≠ .none → reason ≠ .unknownNode →
      accept crypto call none scheme version ann .none (entered server ann) ≠
        reply crypto none reason (entered server ann) := by
    intro scheme version reason notNone notUnknown same
    have answer := congrArg Prod.snd same
    rcases accept_replies answer with reason_none | reason_unknown
    · exact notNone reason_none
    · exact notUnknown reason_unknown
  cases encodingSchemeFromAnnouncement ann with
  | none =>
    simpa using differs none (versionFromAnnouncement ann) .noEncodingScheme (by decide) (by decide)
  | some scheme =>
    cases versionFromAnnouncement ann with
    | some version => simp
    | none => simpa using differs (some scheme) none .noVersion (by decide) (by decide)

/-- **A call resolves scheme and version as meant exactly when its announcement, if it
is not refused before, leaves out no more than the code supplies.** A node that is not
known must announce both, and a reset must announce its version.

Proof: if the checks refuse the announcement neither version comes to scheme and version.
Otherwise the cases are those of a node that is known and of one that is not, and in each the code
and the resolution meant are compared reply by reply. -/
theorem announce_resolves_iff {crypto : Crypto} {announce : List UInt8} {ann : Announcement}
    (call : Call) (source : Source) (server : Server)
    (read : readAnnouncement crypto announce = .ok ann) :
    (handleAnnounceImpl crypto call announce source server =
        resolvedAnnounce crypto call announce source server ∧
      (handleAnnounceImpl crypto call announce source server).2 ≠ .panicked) ↔
      (Passes call source server ann → Resolvable server ann) := by
  have noPanic := resolvedAnnounce_ne_panicked call source server read
  rw [and_iff_left_of_imp fun same => same ▸ noPanic]
  by_cases passes : Passes call source server ann
  · simp only [passes, true_implies, Resolvable]
    cases found : server.nodes.lookup ann.nodeIp with
    | some node =>
      rw [handle_eq_resolved_iff_of_known read passes found]
      simp
    | none =>
      rw [handle_eq_resolved_iff_of_unknown read passes found]
      simp
  · simp only [passes, false_implies, iff_true]
    exact handle_eq_resolved_of_refused read passes

/-- A reset that states scheme and version resolves as meant. -/
theorem full_reset_resolves :
    handleAnnounceImpl Sample.crypto ⟨0, .ofEntries⟩ Sample.resetWithPeer .gossip Server.new =
        resolvedAnnounce Sample.crypto ⟨0, .ofEntries⟩ Sample.resetWithPeer .gossip Server.new ∧
      (handleAnnounceImpl Sample.crypto ⟨0, .ofEntries⟩ Sample.resetWithPeer .gossip
        Server.new).2 ≠ .panicked := by
  obtain ⟨ann, read, full⟩ := Outcome.exists_ok_of_any
    (readAnnouncement Sample.crypto Sample.resetWithPeer)
    (fun ann => (encodingSchemeFromAnnouncement ann).isSome &&
      (versionFromAnnouncement ann).isSome) (by decide +kernel)
  rw [Bool.and_eq_true] at full
  exact (announce_resolves_iff ⟨0, .ofEntries⟩ .gossip Server.new read).mpr
    fun _ => ⟨Or.inl full.1, Or.inl full.2⟩

/-- A signed reset that parses and states no version stops the server. -/
theorem reset_without_version_panics :
    (∃ ann, readAnnouncement Sample.crypto Sample.resetWithoutVersion = .ok ann) ∧
      (handleAnnounceImpl Sample.crypto ⟨0, .ofEntries⟩ Sample.resetWithoutVersion .gossip
        Server.new).2 = .panicked := by
  refine ⟨?_, by decide +kernel⟩
  obtain ⟨ann, read, -⟩ := Outcome.exists_ok_of_any
    (readAnnouncement Sample.crypto Sample.resetWithoutVersion) (fun _ => true)
    (by decide +kernel)
  exact ⟨ann, read⟩

end RouteServer.Snode
