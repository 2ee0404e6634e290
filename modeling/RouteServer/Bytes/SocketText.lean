import RouteServer.Bytes.DnsSeed
import RouteServer.Rust.IpText

/-!
# The text of a socket address

An address is printed with its port, and one of version 6 between brackets and with its scope if
it has one. Flow information is not printed. A text is an address only as a whole. So every
address without flow information is parsed from its own text, and no two share one.
-/

namespace RouteServer.Bytes

open Rust

/-- The groups of an address of version 6. -/
def segments : List UInt8 → List Nat
  | high :: low :: bytes => (high.toNat * 256 + low.toNat) :: segments bytes
  | _ => []

/-- An address of version 4 from its octets, of which an array has all. -/
def ipv4OfOctets (octets : List Nat) : Rust.Bytes 4 :=
  ⟨(List.range 4).map fun i => UInt8.ofNat (octets.getD i 0),
    by rw [List.length_map, List.length_range]⟩

/-- An address of version 6 from its groups, of which an array has all. -/
def ipv6OfGroups (groups : List Nat) : Rust.Bytes 16 :=
  ⟨(List.range 8).flatMap fun i => toBe 2 (groups.getD i 0), by simp [List.range_succ]⟩

namespace SocketAddr

/-- `Display`. -/
def toText : SocketAddr → Text
  | v4 ip port =>
    ipv4Text (ip.bytes.map UInt8.toNat) ++ ':' :: Nat.toDigits 10 port.toNat
  | v6 ip port _ scopeId =>
    let scope := if scopeId = 0 then [] else '%' :: Nat.toDigits 10 scopeId.toNat
    '[' :: (ipv6Text (segments ip.bytes) ++ scope ++ ']' :: ':' :: Nat.toDigits 10 port.toNat)

/-- `Parser::read_port`. -/
def readPort (text : Text) : Option (UInt16 × Text) := do
  let text ← readGivenChar ':' text
  let (port, text) ← Rust.readNumber 10 none true (2 ^ 16) text
  return (UInt16.ofNat port, text)

/-- `Parser::read_scope_id`. -/
def readScopeId (text : Text) : Option (UInt32 × Text) := do
  let text ← readGivenChar '%' text
  let (scopeId, text) ← Rust.readNumber 10 none true (2 ^ 32) text
  return (UInt32.ofNat scopeId, text)

/-- `Parser::read_socket_addr_v4`. -/
def readV4 (text : Text) : Option (SocketAddr × Text) := do
  let (octets, text) ← readIpv4Addr text
  let (port, text) ← readPort text
  return (v4 (ipv4OfOctets octets) port, text)

/-- `Parser::read_socket_addr_v6`. -/
def readV6 (text : Text) : Option (SocketAddr × Text) := do
  let text ← readGivenChar '[' text
  let (groups, text) ← readIpv6Addr text
  let (scopeId, text) := (readScopeId text).getD (0, text)
  let text ← readGivenChar ']' text
  let (port, text) ← readPort text
  return (v6 (ipv6OfGroups groups) port 0 scopeId, text)

/-- `parse`: the whole text is an address. -/
def parse (text : Text) : Option SocketAddr :=
  match (readV4 text).or (readV6 text) with
  | some (address, []) => some address
  | _ => none

/-- The address without what its text leaves out. -/
def printed : SocketAddr → SocketAddr
  | v4 ip port => v4 ip port
  | v6 ip port _ scopeId => v6 ip port 0 scopeId

/-- A plain address is printed with all that it has. -/
theorem printed_of_plain {address : SocketAddr} (plain : address.Plain) :
    address.printed = address := by
  cases address with
  | v4 ip port => rfl
  | v6 ip port flowinfo scopeId =>
    obtain ⟨rfl, -⟩ := plain
    rfl

end SocketAddr

/-- The octets of an address give it back. -/
theorem ipv4OfOctets_own (ip : Rust.Bytes 4) :
    ipv4OfOctets (ip.bytes.map UInt8.toNat) = ip := by
  obtain ⟨bytes, sized⟩ := ip
  obtain ⟨a, b, c, d, rfl⟩ := List.length_eq_four.mp sized
  simp [ipv4OfOctets, List.range_succ]

/-- An even number of bytes begins with two of them. -/
theorem exists_pair {count : Nat} {bytes : List UInt8} (sized : bytes.length = 2 * (count + 1)) :
    ∃ high low rest, bytes = high :: low :: rest := by
  cases bytes with
  | nil => cases sized
  | cons high bytes =>
    cases bytes with
    | nil =>
      rw [List.length_singleton] at sized
      omega
    | cons low rest => exact ⟨high, low, rest, rfl⟩

/-- Two bytes make one group. -/
theorem length_segments {count : Nat} {bytes : List UInt8} (sized : bytes.length = 2 * count) :
    (segments bytes).length = count := by
  induction count generalizing bytes with
  | zero =>
    rw [List.length_eq_zero_iff.mp sized]
    rfl
  | succ count inductionHypothesis =>
    obtain ⟨high, low, rest, rfl⟩ := exists_pair sized
    have shorter : rest.length = 2 * count := by
      simp only [List.length_cons] at sized
      omega
    rw [segments, List.length_cons, inductionHypothesis shorter]

/-- A group has sixteen bits. -/
theorem segments_lt (bytes : List UInt8) : ∀ group ∈ segments bytes, group < 2 ^ 16 := by
  fun_induction segments bytes with
  | case1 high low bytes inductionHypothesis =>
    have first := high.toNat_lt
    have second := low.toNat_lt
    refine List.forall_mem_cons.mpr ⟨?_, inductionHypothesis⟩
    omega
  | case2 =>
    intro group listed
    cases listed

/-- A group is written as its two bytes. -/
theorem toBe_pair (high low : UInt8) : toBe 2 (high.toNat * 256 + low.toNat) = [high, low] := by
  have spelled : bigEndian [high, low] = high.toNat * 256 + low.toNat := by
    simp only [bigEndian, List.foldl_cons, List.foldl_nil, Nat.zero_mul, Nat.zero_add]
  rw [← spelled]
  exact toBe_bigEndian [high, low]

/-- The bytes of an address are those of its groups. -/
theorem flatMap_segments {count : Nat} {bytes : List UInt8} (sized : bytes.length = 2 * count) :
    (List.range count).flatMap (fun i => toBe 2 ((segments bytes).getD i 0)) = bytes := by
  induction count generalizing bytes with
  | zero => exact (List.length_eq_zero_iff.mp sized).symm
  | succ count inductionHypothesis =>
    obtain ⟨high, low, rest, rfl⟩ := exists_pair sized
    have shorter : rest.length = 2 * count := by
      simp only [List.length_cons] at sized
      omega
    have behind := inductionHypothesis shorter
    rw [List.range_succ_eq_map, List.flatMap_cons, List.flatMap_map]
    simp only [segments, List.getD_cons_zero, List.getD_cons_succ, toBe_pair, behind,
      List.cons_append, List.nil_append]

/-- The groups of an address give it back. -/
theorem ipv6OfGroups_own (ip : Rust.Bytes 16) : ipv6OfGroups (segments ip.bytes) = ip := by
  obtain ⟨bytes, sized⟩ := ip
  rw [ipv6OfGroups, Rust.Bytes.mk.injEq]
  exact flatMap_segments sized

namespace SocketAddr

/-- A port is read back from its digits. -/
theorem readPort_toDigits (port : UInt16) {rest : Text} (none : NoDigit 10 rest) :
    readPort (':' :: (Nat.toDigits 10 port.toNat ++ rest)) = some (port, rest) := by
  have read : Rust.readNumber 10 .none true (2 ^ 16) (Nat.toDigits 10 port.toNat ++ rest) =
      some (port.toNat, rest) := by
    apply readNumber_toDigits (by decide) (by decide) port.toNat_lt _ _ none
    rintro most ⟨⟩
  simp only [readPort, readGivenChar_cons, Option.bind_eq_bind, Option.bind_some, read,
    UInt16.ofNat_toNat, Option.pure_def]

/-- A scope is read back from its digits. -/
theorem readScopeId_toDigits (scopeId : UInt32) {rest : Text} (none : NoDigit 10 rest) :
    readScopeId ('%' :: (Nat.toDigits 10 scopeId.toNat ++ rest)) = some (scopeId, rest) := by
  have read : Rust.readNumber 10 .none true (2 ^ 32) (Nat.toDigits 10 scopeId.toNat ++ rest) =
      some (scopeId.toNat, rest) := by
    apply readNumber_toDigits (by decide) (by decide) scopeId.toNat_lt _ _ none
    rintro most ⟨⟩
  simp only [readScopeId, readGivenChar_cons, Option.bind_eq_bind, Option.bind_some, read,
    UInt32.ofNat_toNat, Option.pure_def]

/-- What does not begin with a digit, a dot or a colon ends an address. -/
theorem stops_of_front {c : Char} (rest : Text) (digit : toDigit 16 c = none) (dot : c ≠ '.')
    (colon : c ≠ ':') : Stops (c :: rest) := by
  refine ⟨⟨?_, ?_⟩, ?_⟩
  · rintro c ⟨⟩
    exact digit
  · intro front
    exact dot (Option.some.inj front)
  · intro next found
    rw [readGivenChar, if_neg colon] at found
    cases found

/-- The end of a text is no digit. -/
theorem noDigit_nil (radix : Nat) : NoDigit radix [] := by
  rintro c ⟨⟩

/-- The port is read at the end of a text. -/
theorem readPort_last (port : UInt16) :
    readPort (':' :: Nat.toDigits 10 port.toNat) = some (port, []) := by
  have read := readPort_toDigits port (noDigit_nil 10)
  rw [List.append_nil] at read
  exact read

/-- The scope is read where there is one, and the bracket behind it is left. -/
theorem readScopeId_scope (scopeId : UInt32) (rest : Text) :
    let scope := if scopeId = 0 then [] else '%' :: Nat.toDigits 10 scopeId.toNat
    Stops (scope ++ ']' :: rest) ∧
      (readScopeId (scope ++ ']' :: rest)).getD (0, scope ++ ']' :: rest) =
        (scopeId, ']' :: rest) := by
  dsimp only
  split
  · next none =>
    subst none
    exact ⟨stops_of_front rest (by decide) (by decide) (by decide), rfl⟩
  · have bracket : NoDigit 10 (']' :: rest) := by
      rintro c ⟨⟩
      decide
    rw [List.cons_append, readScopeId_toDigits scopeId bracket]
    exact ⟨stops_of_front _ (by decide) (by decide) (by decide), rfl⟩

/-- An address in brackets is read, with its scope and its port. -/
theorem readV6_toText (ip : Rust.Bytes 16) (port : UInt16) (flowinfo scopeId : UInt32) :
    readV6 (v6 ip port flowinfo scopeId).toText = some (v6 ip port 0 scopeId, []) := by
  obtain ⟨stops, scope⟩ := readScopeId_scope scopeId (':' :: Nat.toDigits 10 port.toNat)
  have groups := readIpv6Addr_ipv6Text (length_segments ip.sized) (segments_lt ip.bytes) stops
  rw [toText, readV6, readGivenChar_cons]
  simp only [List.append_assoc, Option.bind_eq_bind, Option.bind_some, groups, scope,
    readGivenChar_cons, readPort_last, ipv6OfGroups_own, Option.pure_def]

/-- An address with its port is read back from its text, octet by octet. -/
theorem readV4_toText (ip : Rust.Bytes 4) (port : UInt16) :
    readV4 (v4 ip port).toText = some (v4 ip port, []) := by
  have colon : NoDigit 10 (':' :: Nat.toDigits 10 port.toNat) := by
    rintro c ⟨⟩
    decide
  have small : ∀ octet ∈ ip.bytes.map UInt8.toNat, octet < 256 := by
    intro octet listed
    obtain ⟨byte, -, rfl⟩ := List.mem_map.mp listed
    exact byte.toNat_lt
  have octets := readIpv4Addr_ipv4Text ((List.length_map _).trans ip.sized) small colon
  simp only [toText, readV4, octets, Option.bind_eq_bind, Option.bind_some, readPort_last,
    ipv4OfOctets_own, Option.pure_def]

/-- An address is parsed from its text, but for its flow information. -/
theorem parse_toText (address : SocketAddr) : parse address.toText = some address.printed := by
  cases address with
  | v4 ip port =>
    rw [parse, readV4_toText]
    rfl
  | v6 ip port flowinfo scopeId =>
    have bracket : readV4 (v6 ip port flowinfo scopeId).toText = none := by
      have ends : Ends (v6 ip port flowinfo scopeId).toText :=
        (stops_of_front _ (by decide) (by decide) (by decide)).1
      rw [readV4, readIpv4Addr_of_ends ends]
      rfl
    rw [parse, bracket, readV6_toText]
    rfl

end SocketAddr

end RouteServer.Bytes
