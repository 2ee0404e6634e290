import RouteServer.Bytes.PeeringLine
import RouteServer.Seeder.Entries
import RouteServer.Seeder.Replies

/-!
# What is known of recorded credentials

Entries are listed with their credentials as text. Only a check result says of an entry that it
was found to work, and only for the address and the node that it names. A credential that is
handled resets what is known or leaves it. A listing for a nameserver shows entries of which the
last result is younger than an hour and names no error.
-/

namespace RouteServer.Seeder

open Rust Bytes Keys

/-- `SeederListPeer`, as it is sent. -/
structure ListedPeer where
  lastCheckSec : Nat
  lastReportSec : Nat
  ring : UInt32
  checkError : Option Text
  peer : PeeringLine
  id : Text
deriving DecidableEq

/-- A listed peer with its credentials as a peering line. -/
def SeederListPeer.sent (base32 : Base32Encoding) (x : SeederListPeer) : ListedPeer where
  lastCheckSec := x.lastCheckSec
  lastReportSec := x.lastReportSec
  ring := x.ring
  checkError := x.checkError
  peer := x.peer.peeringLine base32
  id := x.id

/-- `Display` for `CJDNS_IP6`: colons are inserted after every four digits. -/
def ip6Text (ip6 : Ip6) : Text :=
  (List.range' 1 7).foldl (fun text i => text.insertIdx (4 * i + i - 1) ':') (hexEncode ip6.bytes)

/-- Separators that are filtered out may be inserted anywhere. -/
theorem filter_insertIdx (text : Text) (pos : Nat) :
    (text.insertIdx pos ':').filter (· != ':') = text.filter (· != ':') := by
  induction text generalizing pos with
  | nil =>
    cases pos with
    | zero => rfl
    | succ pos => rfl
  | cons c text inductionHypothesis =>
    cases pos with
    | zero => rfl
    | succ pos =>
      rw [List.insertIdx_succ_cons, List.filter_cons, List.filter_cons, inductionHypothesis]

/-- Without its separators an address is its hexadecimal text. -/
theorem filter_ip6Text (ip6 : Ip6) : (ip6Text ip6).filter (· != ':') = hexEncode ip6.bytes := by
  have inserted : ∀ (positions : List Nat) (text : Text),
      (positions.foldl (fun text i => text.insertIdx (4 * i + i - 1) ':') text).filter
        (· != ':') = text.filter (· != ':') := by
    intro positions
    induction positions with
    | nil => exact fun text => rfl
    | cons i positions inductionHypothesis =>
      intro text
      rw [List.foldl_cons, inductionHypothesis, filter_insertIdx]
  have digits : ∀ digit < 16, (Nat.digitChar digit != ':') = true := by decide
  rw [ip6Text, inserted, List.filter_eq_self]
  intro c listed
  obtain ⟨byte, -, digit⟩ := List.mem_flatMap.mp listed
  have bound := byte.toNat_lt
  simp only [List.mem_cons, List.not_mem_nil, or_false] at digit
  rcases digit with rfl | rfl
  · exact digits _ (by omega)
  · exact digits _ (by omega)

/-- No other address is parsed from the text of an address. -/
theorem ip6FromText_ip6Text {ip6 other : Ip6} (parsed : ip6FromText (ip6Text ip6) = some other) :
    other = ip6 := by
  rw [ip6FromText, filter_ip6Text, hexDecode_hexEncode, Option.bind_some] at parsed
  split at parsed
  · rw [Ip6.tryFrom, dif_pos ip6.valid] at parsed
    exact (Option.some.inj parsed).symm
  · cases parsed

/-- An entry goes on with what is known of it. -/
structure Knows (p p' : SeederPeer) : Prop where
  ip : p'.ip = p.ip
  creds : p'.creds = p.creds
  checkError : p'.checkError = p.checkError
  lastCheckSec : p'.lastCheckSec = p.lastCheckSec

/-- An entry knows what it knows. -/
theorem knows_self (p : SeederPeer) : Knows p p := ⟨rfl, rfl, rfl, rfl⟩

/-- After a credential is recorded, nothing is known of an entry, or what was known before. -/
theorem updateOrInsert_knows {sender : Ip6} {peerId : PeerID} {creds : CjdnsPeer} {nowS : Nat}
    {m : SeederMut} {p' : SeederPeer}
    (member : p' ∈ (updateOrInsert sender peerId creds nowS m).2.peers) :
    p'.lastCheckSec = 0 ∨ ∃ p ∈ m.peers, Knows p p' := by
  rcases updateOrInsert_cases sender peerId creds nowS m with
    ⟨before, ent, after, split, ip, same, result⟩ | ⟨-, result⟩
  · rw [result] at member
    have others : p' ∈ m.peers ∨ p' = ent.update peerId creds nowS := by
      rw [split]
      simp only [List.mem_append, List.mem_cons] at member ⊢
      tauto
    rcases others with old | rfl
    · exact Or.inr ⟨p', old, knows_self p'⟩
    · rw [SeederPeer.update]
      split_ifs with changed
      · exact Or.inl rfl
      · exact Or.inr ⟨ent, by simp [split], rfl, rfl, rfl, rfl⟩
  · rw [result] at member
    rcases List.mem_append.mp member with old | new
    · exact Or.inr ⟨p', old, knows_self p'⟩
    · rw [List.mem_singleton.mp new]
      exact Or.inl rfl

/-- What is handled of a credential is at most that it is recorded. -/
theorem handleCred_state (crypto : Crypto) (config : SeederConfig) (sender : Ip6)
    (peerId : PeerID) (creds : CjdnsPeer) (pip : PeerInfoProvider) (nowS : Nat)
    (out : List CjdnsPeer) (m : SeederMut) :
    (handleCred crypto config sender peerId creds pip nowS out m).2 = m ∨
      Ip6.ofPublicKey crypto creds.pubkey = some sender ∧
        (handleCred crypto config sender peerId creds pip nowS out m).2 =
          (updateOrInsert sender peerId creds nowS m).2 := by
  rw [handleCred]
  cases key : Ip6.ofPublicKey crypto creds.pubkey with
  | none => exact Or.inl rfl
  | some ip6 =>
    by_cases other : ip6 = sender
    · subst other
      exact Or.inr ⟨rfl, by simp only [ne_eq, not_true_eq_false, if_false]⟩
    · exact Or.inl (by simp only [ne_eq, other, not_false_eq_true, if_true])

/-- What is known of an entry after check results was known before, or is one of them. -/
theorem testResults_known {nowS : Nat} {nodes : List SeederTestResNode} {m : SeederMut}
    {p' : SeederPeer} (member : p' ∈ (testResults nowS nodes m).2.peers) :
    (∃ p ∈ m.peers, Knows p p') ∨
      ∃ node ∈ nodes, ip6FromText node.ip6 = some p'.ip ∧ node.addr = p'.creds.address ∧
        p'.checkError = node.error ∧ p'.lastCheckSec = nowS := by
  induction nodes generalizing m with
  | nil => exact Or.inl ⟨p', member, knows_self p'⟩
  | cons node rest inductionHypothesis =>
    rw [testResults] at member
    split at member
    · exact Or.inl ⟨p', member, knows_self p'⟩
    · next ip6 named =>
      rcases inductionHypothesis member with ⟨p, middle, known⟩ | ⟨later, listed, result⟩
      · rcases mem_updateFirst middle with old | ⟨found, isFirst, rfl⟩
        · exact Or.inl ⟨p, old, known⟩
        · have here := (isAt_iff ip6 node.addr found).mp (List.find?_some isFirst)
          rw [place_eq_iff] at here
          refine Or.inr ⟨node, List.mem_cons_self, ?_, ?_, known.checkError, known.lastCheckSec⟩
          · rw [named, known.ip]
            exact congrArg some here.1.symm
          · rw [known.creds]
            exact here.2.symm
      · exact Or.inr ⟨later, List.mem_cons_of_mem _ listed, result⟩

/-- What an entry must be to be listed to a nameserver. -/
structure Found (config : SeederConfig) (pip : PeerInfoProvider) (nowSec : Nat) (p : SeederPeer) :
    Prop where
  isPublic : p.isPrivate = false
  works : p.checkError = none
  checked : p.lastCheckSec ≠ 0
  recent : nowSec < p.lastCheckSec + 60 * 60
  suits : isAppropriate config p.ip none pip = true

/-- The loop lists entries that may take one more connection.

Proof: induction on the peers that are left. -/
theorem mem_shareLoop {config : SeederConfig} {pip : PeerInfoProvider} {peers : List SeederPeer}
    {out : List SeederListPeer} {entry : SeederListPeer}
    (member : entry ∈ shareLoop config pip peers out) :
    entry ∈ out ∨
      ∃ p ∈ peers, isAppropriate config p.ip none pip = true ∧ entry = SeederListPeer.ofPeer p := by
  induction peers generalizing out with
  | nil => exact Or.inl member
  | cons p rest inductionHypothesis =>
    have later : ∀ {out}, entry ∈ shareLoop config pip rest out → entry ∈ out ∨
        ∃ q ∈ p :: rest, isAppropriate config q.ip none pip = true ∧
          entry = SeederListPeer.ofPeer q := by
      intro out inside
      rcases inductionHypothesis inside with early | ⟨q, listed, suits, same⟩
      · exact Or.inl early
      · exact Or.inr ⟨q, List.mem_cons_of_mem _ listed, suits, same⟩
    rw [shareLoop] at member
    split at member
    · next suits =>
      have here : entry ∈ out ++ [SeederListPeer.ofPeer p] ∨
          ∃ q ∈ p :: rest, isAppropriate config q.ip none pip = true ∧
            entry = SeederListPeer.ofPeer q := by
        dsimp only at member
        split at member
        · exact Or.inl member
        · exact later member
      rcases here with added | found
      · rcases List.mem_append.mp added with early | new
        · exact Or.inl early
        · exact Or.inr ⟨p, List.mem_cons_self, suits, List.mem_singleton.mp new⟩
      · exact Or.inr found
    · exact later member

/-- Every listed peer is an entry, and one that was found to work in a listing for those who do
not test peers themselves. -/
theorem listPeers_entries {config : SeederConfig} {passwd : Text} {pip : PeerInfoProvider}
    {nowSec : Nat} {m : SeederMut} {listed : List SeederListPeer}
    (done : listPeers config passwd pip nowSec m = .ok listed) :
    ∀ entry ∈ listed, ∃ p ∈ m.peers, entry = SeederListPeer.ofPeer p ∧
      (config.testerPasswds.contains passwd = false → Found config pip nowSec p) := by
  intro entry member
  rw [listPeers] at done
  split at done
  · next tester =>
    cases done
    obtain ⟨p, inside, rfl⟩ := List.mem_map.mp member
    exact ⟨p, inside, rfl, fun other => absurd tester (by rw [other]; exact Bool.false_ne_true)⟩
  · split at done
    · cases done
    · obtain ⟨cutoff, subtracted, done⟩ := (Outcome.bind_ok_iff _ _ _).mp done
      cases done
      rcases mem_shareLoop member with early | ⟨p, inside, suits, same⟩
      · cases early
      · obtain ⟨enough, rfl⟩ := (Outcome.checkedSub_ok_iff _ _ _).mp subtracted
        simp only [List.mem_mergeSort, List.mem_filter, isShared, Bool.and_eq_true,
          Bool.not_eq_true', Option.isNone_iff_eq_none, decide_eq_true_eq] at inside
        obtain ⟨inPeers, ⟨isPublic, works⟩, young⟩ := inside
        exact ⟨p, inPeers, same, fun _ => ⟨isPublic, works, by omega, by omega, suits⟩⟩

end RouteServer.Seeder
