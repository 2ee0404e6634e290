import RouteServer.Bytes.PeeringLine

/-!
# Credentials on the command line

`generate` makes credentials from its arguments and prints them as a peering line and as bytes,
`txtrec` makes the record of a seed from such bytes. What is generated is decoded from the record
again, but for the scope of an address, which has no place in the bytes. Peering lines are parsed
as the credentials they show.

`testseed` looks a record up to show what is in it. It takes the text of the whole record for
that of its data, and the text of a record has blanks, which are no digits in base 64.
-/

namespace RouteServer.Nameserver

open Rust Bytes Keys

/-- `context` of something that may be missing. -/
def context {α : Type} (text : String) : Option α → Outcome Bytes.Report α
  | some value => .ok value
  | none => .err (.message text)

/-- A password of eight bytes in base 64. -/
def decodePass (pass : Text) : Option (Rust.Bytes 8) :=
  match Base64.decode pass with
  | some x => if sized : x.length = 8 then some ⟨x, sized⟩ else none
  | none => none

/-- `try_from` for a key, in the words of its callers. -/
def parseKey (base32 : Base32Encoding) (text : String) (key : Text) :
    Outcome Bytes.Report PublicKey :=
  (tryFromStr base32 key).mapErr fun _ => .message text

/-- `parse_list_peer`, of the peering line of a listed peer. -/
def parseListPeer (base32 : Base32Encoding) (peer : PeeringLine) :
    Outcome Bytes.Report CjdnsPeer := do
  let address ← context "ip_port could not be parsed" (SocketAddr.parse peer.address)
  let pubkey ← parseKey base32 "pubkey not a valid cjdns public key" peer.publicKey
  let indexStr ← context "login must start with AP_LOGIN: "
    (stripPrefix "AP_LOGIN: ".toList peer.login)
  let login ← context "index must be an unsigned number between 0 and 65535"
    (parseNumber (2 ^ 16) indexStr)
  let pass ← context "password must start with AP_PASS: "
    (stripPrefix "AP_PASS: ".toList peer.password)
  let password ← context "If specified --pass must be 8 bytes encoded as base64" (decodePass pass)
  return { address, pubkey, login := UInt16.ofNat login, password, version := peer.version }

/-- The arguments of `generate`. -/
structure GenerateArgs where
  ipPort : Text
  index : Text
  pubkey : Text
  version : Text
  pass : Option Text

/-- The credentials that `generate` makes, with a password that is drawn unless one is given. -/
def GenerateArgs.credentials (base32 : Base32Encoding) (args : GenerateArgs)
    (drawn : Rust.Bytes 8) : Outcome Bytes.Report CjdnsPeer := do
  let address ← context "ip_port could not be parsed" (SocketAddr.parse args.ipPort)
  let index ← context "index must be an unsigned number between 0 and 65535"
    (parseNumber (2 ^ 16) args.index)
  let version ← context "Version must be a u32" (parseNumber (2 ^ 32) args.version)
  let pubkey ← parseKey base32 "pubkey not a valid cjdns public key" args.pubkey
  let password ← match args.pass with
    | some pass => context "If specified --pass must be 8 bytes encoded as base64" (decodePass pass)
    | none => .ok drawn
  return { address, pubkey, login := UInt16.ofNat index, password,
           version := UInt32.ofNat version }

/-- What `generate` prints. -/
structure Generated where
  line : PeeringLine
  authorized : AuthorizedPassword
  encoded : Text
deriving DecidableEq

/-- `generate`. -/
def generate (base32 : Base32Encoding) (args : GenerateArgs) (drawn : Rust.Bytes 8) :
    Outcome Bytes.Report Generated := do
  let p ← args.credentials base32 drawn
  let msg ← p.encode Message.new
  return { line := p.peeringLine base32, authorized := p.authorizedPassword,
           encoded := hexEncode msg.asVec }

/-- The loop of `txtrec` over the peers, for one of them. -/
def decodeCred (ps : Text) : Outcome Bytes.Report CjdnsPeer := do
  let shown := String.ofList ps
  let tlv ← context ("Unable to decode " ++ shown ++ " as hex") (hexDecode ps)
  match tlv with
  | code :: _ :: data =>
    context ("Unable to decode " ++ shown ++ " as a CjdnsPeer")
      (CjdnsPeer.decode code data).toOption
  | _ => .err (.message ("Peer " ++ shown ++ " must be more than 2 bytes"))

/-- The loop of `txtrec` over the peers. -/
def decodeCreds : List Text → Outcome Bytes.Report (List CjdnsPeer)
  | [] => .ok []
  | ps :: rest => do
    let p ← decodeCred ps
    let decodedPeers ← decodeCreds rest
    return p :: decodedPeers

/-- `txtrec`. -/
def txtrec (base32 : Base32Encoding) (snode : Text) (peers : List Text) :
    Outcome Bytes.Report Text := do
  let snode ← parseKey base32 "Unable to parse snode address" snode
  let decodedPeers ← decodeCreds peers
  CjdnsTxtRecord.encode { snodePubkey := some snode, peers := decodedPeers }

/-- What is printed of a record: its key and its peering lines. -/
def printedOf (base32 : Base32Encoding) (ctr : CjdnsTxtRecord) : Option Text × List PeeringLine :=
  (ctr.snodePubkey.map (Keys.toText base32), ctr.peers.map (CjdnsPeer.peeringLine base32))

/-- A record of an answer by the texts of its parts. -/
structure AnswerRecord where
  name : Text
  ttl : UInt32
  dnsClass : Text
  recordType : Text
  data : Option Text

/-- `Record::to_string`. -/
def AnswerRecord.toText (record : AnswerRecord) : Text :=
  record.name ++ ' ' :: (Nat.toDigits 10 record.ttl.toNat ++ ' ' :: (record.dnsClass ++ ' ' ::
    (record.recordType ++ record.data.elim [] fun data => ' ' :: data)))

/-- `testseed`, from the answers to its query on. -/
def testseed (base32 : Base32Encoding) (answers : List AnswerRecord) :
    Except String (Option Text × List PeeringLine) :=
  match answers with
  | [] => .error "No TXT records found"
  | record :: _ =>
    -- this is the text of the record, and not of its data
    let txt := record.toText
    match CjdnsTxtRecord.decode txt with
    | .ok ctr => .ok (printedOf base32 ctr)
    | .error _ => .error ("Unable to decode seed TXT record " ++ String.ofList txt)

section

variable {base32 : Base32Encoding}

/-- A printed key is parsed. -/
theorem parseKey_toText (canonical : base32.Canonical) (text : String) (key : PublicKey) :
    parseKey base32 text (Keys.toText base32 key) = .ok key := by
  obtain ⟨sized, symbols⟩ := canonical.encode_key key
  have bytes : byteLength (base32.encode key.bytes) = 52 := by
    rw [byteLength_symbols symbols, sized]
  rw [parseKey, Keys.toText,
    (tryFromStr_of_front canonical (isFound_toText canonical key) bytes).1 key rfl]
  rfl

/-- A password is read back from its text. -/
theorem decodePass_encode (password : Rust.Bytes 8) :
    decodePass (Base64.encode password.bytes) = some password := by
  rw [decodePass, Base64.decode_encode]
  exact dif_pos password.sized

/-- What is there needs no context. -/
@[simp] theorem context_some {α : Type} (text : String) (value : α) :
    context text (some value) = .ok value := rfl

/-- A peering line is parsed as the credentials it shows. -/
theorem parseListPeer_peeringLine (canonical : base32.Canonical) (peer : CjdnsPeer) :
    parseListPeer base32 (peer.peeringLine base32) =
      .ok { peer with address := peer.address.printed } := by
  have login : stripPrefix "AP_LOGIN: ".toList peer.mkLogin =
      some (Nat.toDigits 10 peer.login.toNat) := stripPrefix_append _ _
  have pass : stripPrefix "AP_PASS: ".toList peer.mkPass =
      some (Base64.encode peer.password.bytes) := stripPrefix_append _ _
  have index : parseNumber (2 ^ 16) (Nat.toDigits 10 peer.login.toNat) = some peer.login.toNat :=
    parseNumber_toDigits peer.login.toNat_lt
  rw [parseListPeer, CjdnsPeer.peeringLine, SocketAddr.parse_toText, context_some,
    Outcome.ok_bind, parseKey_toText canonical, Outcome.ok_bind, login, context_some,
    Outcome.ok_bind, index, context_some, Outcome.ok_bind, pass, context_some, Outcome.ok_bind,
    decodePass_encode, context_some, Outcome.ok_bind, UInt16.ofNat_toNat]
  rfl

end

/-- An address without what has no place in bytes. -/
def unscoped : SocketAddr → SocketAddr
  | .v4 ip port => .v4 ip port
  | .v6 ip port _ _ => .v6 ip port 0 0

/-- A peering line with the scope of its address left out. -/
def unscopedLine (line : PeeringLine) : PeeringLine :=
  { line with address := ((SocketAddr.parse line.address).map fun address =>
      (unscoped address).toText).getD line.address }

/-- Credentials with the scope of their address left out. -/
def unscopedCreds (p : CjdnsPeer) : CjdnsPeer := { p with address := unscoped p.address }

/-- Without scope and flow an address is plain. -/
theorem unscoped_plain (address : SocketAddr) : (unscoped address).Plain := by
  cases address with
  | v4 ip port => trivial
  | v6 ip port flowinfo scopeId => exact ⟨rfl, rfl⟩

/-- The scope of an address is not written, so it can be left out. -/
theorem item_unscoped (p : CjdnsPeer) : (unscopedCreds p).item = p.item := by
  obtain ⟨address, pubkey, login, password, version⟩ := p
  cases address <;> rfl

section

variable {base32 : Base32Encoding}

/-- A line without the scope is the line of the credentials without it. -/
theorem unscopedLine_peeringLine (p : CjdnsPeer) :
    unscopedLine (p.peeringLine base32) = (unscopedCreds p).peeringLine base32 := by
  obtain ⟨address, pubkey, login, password, version⟩ := p
  simp only [unscopedLine, CjdnsPeer.peeringLine, SocketAddr.parse_toText, Option.map_some,
    Option.getD_some]
  cases address <;> rfl

/-- What is printed of credentials as bytes is their item. -/
theorem encode_new (p : CjdnsPeer) :
    ∃ msg, p.encode Message.new = .ok msg ∧ msg.asVec = wire p.item := by
  obtain ⟨msg, encoded, held⟩ := message_prepends.peer_encode (Message.holds_withChunkSize 0) p
  refine ⟨msg, encoded, ?_⟩
  rw [held.asVec, List.append_nil]

/-- Credentials are read from what is printed of them. -/
theorem decodeCred_wire (p : CjdnsPeer) :
    decodeCred (hexEncode (wire p.item)) = .ok (unscopedCreds p) := by
  have plain : (unscopedCreds p).address.Plain := unscoped_plain p.address
  have decoded := CjdnsPeer.decode_item plain
  rw [item_unscoped] at decoded
  rw [decodeCred, hexDecode_hexEncode, context_some, Outcome.ok_bind, wire]
  simp only [decoded]
  rfl

/-- Credentials are read back from their hexadecimal text without scopes, one by one. -/
theorem decodeCreds_wire (peers : List CjdnsPeer) :
    decodeCreds (peers.map fun p => hexEncode (wire p.item)) = .ok (peers.map unscopedCreds) := by
  induction peers with
  | nil => rfl
  | cons p peers inductionHypothesis =>
    rw [List.map_cons, decodeCreds, decodeCred_wire, Outcome.ok_bind, inductionHypothesis]
    rfl

/-- What is generated is printed of some credentials. -/
theorem exists_of_generate {args : GenerateArgs} {drawn : Rust.Bytes 8} {made : Generated}
    (generated : generate base32 args drawn = .ok made) :
    ∃ p : CjdnsPeer, made.line = p.peeringLine base32 ∧ made.encoded = hexEncode (wire p.item) := by
  obtain ⟨p, -, generated⟩ := (Outcome.bind_ok_iff _ _ _).mp generated
  obtain ⟨msg, encoded, bytes⟩ := encode_new p
  rw [encoded] at generated
  cases generated
  exact ⟨p, rfl, by rw [bytes]⟩

/-- What was generated comes from credentials, by induction on the calls. -/
theorem exists_of_generated {made : List Generated}
    (generated : ∀ each ∈ made, ∃ args drawn, generate base32 args drawn = .ok each) :
    ∃ peers : List CjdnsPeer,
      made.map Generated.encoded = peers.map (fun p => hexEncode (wire p.item)) ∧
      made.map (fun each => unscopedLine each.line) =
        (peers.map unscopedCreds).map (CjdnsPeer.peeringLine base32) := by
  induction made with
  | nil => exact ⟨[], rfl, rfl⟩
  | cons each made inductionHypothesis =>
    obtain ⟨⟨args, drawn, first⟩, others⟩ := List.forall_mem_cons.mp generated
    obtain ⟨p, line, encoded⟩ := exists_of_generate first
    obtain ⟨peers, allEncoded, lines⟩ := inductionHypothesis others
    refine ⟨p :: peers, ?_, ?_⟩
    · rw [List.map_cons, List.map_cons, encoded, allEncoded]
    · rw [List.map_cons, List.map_cons, List.map_cons, line, unscopedLine_peeringLine, lines]

/-- No text with a blank is decoded: neither the prefix nor base 64 has one. -/
theorem decode_of_blank {txt : Text} (blank : ' ' ∈ txt) :
    ∃ fault, CjdnsTxtRecord.decode txt = .error fault := by
  rw [CjdnsTxtRecord.decode]
  split
  · exact ⟨_, rfl⟩
  · next rest stripped =>
    have whole : txt = "cjdns0=".toList ++ rest := eq_append_of_stripPrefix stripped
    have behind : ' ' ∈ rest := by
      rw [whole] at blank
      exact (List.mem_append.mp blank).resolve_left (by decide)
    split
    · exact ⟨_, rfl⟩
    · next bytes decoded =>
      rw [(Base64.decode_iff rest bytes).mp decoded] at behind
      exact absurd (Base64.mem_symbols behind) (by decide)

/-- Nothing is shown of any answer. -/
theorem testseed_fails (answers : List AnswerRecord) :
    ∃ fault, testseed base32 answers = .error fault := by
  cases answers with
  | nil => exact ⟨_, rfl⟩
  | cons record answers =>
    have blank : ' ' ∈ record.toText := List.mem_append_right _ List.mem_cons_self
    obtain ⟨fault, fails⟩ := decode_of_blank blank
    rw [testseed, fails]
    exact ⟨_, rfl⟩

/-- A record is made of any credentials that were generated. It is decoded as their peering lines
in their order, but for the scopes of addresses, and each line is parsed as credentials that have
the same bytes. What looks a record up to show it fails on every answer.

Proof: credentials that were generated are written as one item each, so the record can be put
together from their bytes. The text that is shown is not that of the record's data, and its prefix
is missed. -/
theorem generated_shown (canonical : base32.Canonical) {snode : Text} {key : PublicKey}
    (own : tryFromStr base32 snode = .ok key) (made : List Generated)
    (generated : ∀ each ∈ made, ∃ args drawn, generate base32 args drawn = .ok each) :
    (∃ txt ctr, txtrec base32 snode (made.map Generated.encoded) = .ok txt ∧
      CjdnsTxtRecord.decode txt = .ok ctr ∧ printedOf base32 ctr =
        (some (Keys.toText base32 key), made.map fun each => unscopedLine each.line)) ∧
    (∀ each ∈ made, ∃ p msg, parseListPeer base32 (unscopedLine each.line) = .ok p ∧
      p.encode Message.new = .ok msg ∧ hexEncode msg.asVec = each.encoded) ∧
    ∀ answers, ∃ fault, testseed base32 answers = .error fault := by
  refine ⟨?_, ?_, testseed_fails⟩
  · obtain ⟨peers, encoded, lines⟩ := exists_of_generated generated
    have plain : ∀ peer ∈ peers.map unscopedCreds, peer.address.Plain := by
      intro peer listed
      obtain ⟨p, -, rfl⟩ := List.mem_map.mp listed
      exact unscoped_plain p.address
    let record : CjdnsTxtRecord := { snodePubkey := some key, peers := peers.map unscopedCreds }
    have noPid : ∀ pid ∈ record.peerId, pid.id.length ≤ 64 := by
      rintro pid ⟨⟩
    have known : record.unknownRecords = [] := rfl
    obtain ⟨txt, printed, shown⟩ := CjdnsTxtRecord.decode_encode known noPid plain
    refine ⟨txt, record, ?_, shown, ?_⟩
    · rw [txtrec, parseKey, own, encoded, decodeCreds_wire]
      exact printed
    · rw [printedOf, lines]
      rfl
  · intro each member
    obtain ⟨args, drawn, one⟩ := generated each member
    obtain ⟨p, line, encoded⟩ := exists_of_generate one
    obtain ⟨msg, written, bytes⟩ := encode_new (unscopedCreds p)
    refine ⟨unscopedCreds p, msg, ?_, written, ?_⟩
    · have printed : (unscopedCreds p).address.printed = (unscopedCreds p).address :=
        SocketAddr.printed_of_plain (unscoped_plain p.address)
      rw [line, unscopedLine_peeringLine, parseListPeer_peeringLine canonical, printed]
    · rw [bytes, item_unscoped, encoded]

end

namespace Sample

/-- The printed key of a supernode, and of a node. -/
def key : Text := "xpr2z2s3hnr0qzpk2u121uqjv15dc335v54pccqlqj6c5p840yy0.k".toList

/-- Arguments with an address that has a scope. -/
def args : GenerateArgs where
  ipPort := "[fe80::1%3]:64512".toList
  index := "20221".toList
  pubkey := key
  version := "22".toList
  pass := some "AAECAwQFBgc".toList

end Sample

/-- Credentials with a scope are shown without it. -/
theorem generated_shown_scope :
    ∃ (made : Generated) (txt : Text) (ctr : CjdnsTxtRecord),
      txtrec dnscurve Sample.key [made.encoded] = .ok txt ∧
      CjdnsTxtRecord.decode txt = .ok ctr ∧
      (printedOf dnscurve ctr).2 = [unscopedLine made.line] ∧
      made.line.address = "[fe80::1%3]:64512".toList ∧
      (unscopedLine made.line).address = "[fe80::1]:64512".toList := by
  obtain ⟨key, own, -⟩ := Outcome.exists_ok_of_any (tryFromStr dnscurve Sample.key)
    (fun _ => true) (by decide +kernel)
  obtain ⟨made, generated, shown⟩ := Outcome.exists_ok_of_any
    (generate dnscurve Sample.args ⟨List.replicate 8 0, by decide⟩)
    (fun made => made.line.address = "[fe80::1%3]:64512".toList &&
      (unscopedLine made.line).address = "[fe80::1]:64512".toList) (by decide +kernel)
  rw [Bool.and_eq_true, decide_eq_true_eq, decide_eq_true_eq] at shown
  obtain ⟨⟨txt, ctr, printed, decoded, seen⟩, -⟩ := generated_shown canonical_dnscurve own [made]
    (by
      intro each listed
      rw [List.mem_singleton.mp listed]
      exact ⟨_, _, generated⟩)
  refine ⟨made, txt, ctr, printed, decoded, ?_, shown.1, shown.2⟩
  rw [seen]
  rfl

end RouteServer.Nameserver
