import Mathlib.Tactic.SplitIfs
import RouteServer.Rust.Numerals

/-!
# The text of an address

An address of version 4 is printed as its four octets, one of version 6 as its eight groups. The
longest run of zero groups is left out there, and an address of version 4 in one of version 6 is
printed with its octets. The readers take an address from the front of a text and leave the rest,
and they try the octets first wherever two groups are missing. A printed address is read as it
was, unless what follows it could belong to it.
-/

namespace Rust

/-- `Parser::read_given_char`. -/
def readGivenChar (target : Char) : Text → Option Text
  | [] => none
  | c :: text => if c = target then some text else none

/-- `Parser::read_separator`: the separator stands in front of all parts but the first. -/
def readSeparator {α : Type} (sep : Char) (index : Nat) (inner : Text → Option (α × Text))
    (text : Text) : Option (α × Text) :=
  if 0 < index then (readGivenChar sep text).bind inner else inner text

/-- The loop of `read_ipv4_addr` over the octets that are missing. -/
def readOctets : Nat → Nat → Text → Option (List Nat × Text)
  | 0, _, text => some ([], text)
  | missing + 1, index, text => do
    let (octet, text) ← readSeparator '.' index (readNumber 10 (some 3) false 256) text
    let (octets, text) ← readOctets missing (index + 1) text
    return (octet :: octets, text)

/-- `Parser::read_ipv4_addr`. -/
def readIpv4Addr (text : Text) : Option (List Nat × Text) := readOctets 4 0 text

/-- Two octets are a group. -/
def groupsOfOctets : List Nat → List Nat
  | one :: two :: octets => (one * 256 + two) :: groupsOfOctets octets
  | _ => []

/-- `read_groups` into the groups that are missing: those that were read, and whether octets
are the last of them. -/
def readGroups : Nat → Nat → Text → List Nat × Bool × Text
  | 0, _, text => ([], false, text)
  | missing + 1, index, text =>
    match if 0 < missing then readSeparator ':' index readIpv4Addr text else none with
    | some (octets, text) => (groupsOfOctets octets, true, text)
    | none =>
      match readSeparator ':' index (readNumber 16 (some 4) true (2 ^ 16)) text with
      | some (group, text) =>
        let (groups, ipv4, text) := readGroups missing (index + 1) text
        (group :: groups, ipv4, text)
      | none => ([], false, text)

/-- `Parser::read_ipv6_addr`. -/
def readIpv6Addr (text : Text) : Option (List Nat × Text) :=
  let (head, headIpv4, text) := readGroups 8 0 text
  if head.length = 8 then some (head, text)
  else if headIpv4 then none
  else do
    let text ← readGivenChar ':' text
    let text ← readGivenChar ':' text
    let (tail, _, text) := readGroups (8 - (head.length + 1)) 0 text
    return (head ++ List.replicate (8 - head.length - tail.length) 0 ++ tail, text)

/-- `Display` for `Ipv4Addr`. -/
def ipv4Text (octets : List Nat) : Text := ['.'].intercalate (octets.map (Nat.toDigits 10))

/-- `fmt_subslice`. -/
def groupsText (groups : List Nat) : Text := [':'].intercalate (groups.map (Nat.toDigits 16))

/-- `Span`. -/
structure Span where
  start : Nat := 0
  len : Nat := 0
deriving DecidableEq

/-- The loop over the groups from one on, with the longest run of zeros so far and the one that
goes on. -/
def longestZeroes (longest current : Span) : Nat → List Nat → Span
  | _, [] => longest
  | i, group :: groups =>
    if group = 0 then
      let current : Span := ⟨if current.len = 0 then i else current.start, current.len + 1⟩
      longestZeroes (if longest.len < current.len then current else longest) current (i + 1) groups
    else longestZeroes longest {} (i + 1) groups

/-- `to_ipv4_mapped`. -/
def toIpv4Mapped : List Nat → Option (List Nat)
  | [0, 0, 0, 0, 0, 0xFFFF, ab, cd] => some [ab / 256, ab % 256, cd / 256, cd % 256]
  | _ => none

/-- `Display` for `Ipv6Addr`. -/
def ipv6Text (groups : List Nat) : Text :=
  match toIpv4Mapped groups with
  | some octets => "::ffff:".toList ++ ipv4Text octets
  | none =>
    let zeroes := longestZeroes {} {} 0 groups
    if 1 < zeroes.len then
      groupsText (groups.take zeroes.start) ++ "::".toList ++
        groupsText (groups.drop (zeroes.start + zeroes.len))
    else groupsText groups

/-- What follows does not belong to a group or an octet. -/
def Ends (rest : Text) : Prop := NoDigit 16 rest ∧ rest.head? ≠ some '.'

/-- What is no hexadecimal digit is no decimal one. -/
theorem NoDigit.decimal {text : Text} (none : NoDigit 16 text) : NoDigit 10 text := by
  intro c front
  have hexadecimal := none c front
  rw [toDigit] at hexadecimal ⊢
  cases digit : digitOfChar c with
  | none => rfl
  | some value =>
    rw [digit] at hexadecimal
    refine Option.filter_eq_none_iff.mpr ?_
    intro other same
    cases same
    have large := Option.filter_eq_none_iff.mp hexadecimal value rfl
    simp only [decide_eq_true_eq, Nat.not_lt] at large ⊢
    exact Nat.le_trans (by decide) large

/-- An octet is read. -/
theorem readNumber_octet {octet : Nat} (small : octet < 256) {rest : Text}
    (none : NoDigit 10 rest) :
    readNumber 10 (some 3) false 256 (Nat.toDigits 10 octet ++ rest) = some (octet, rest) := by
  apply readNumber_toDigits (by decide) (by decide) small _ _ none
  rintro most ⟨⟩
  exact ⟨by decide, Nat.lt_trans small (by decide)⟩

/-- A group is read. -/
theorem readNumber_group {group : Nat} (small : group < 2 ^ 16) {rest : Text}
    (none : NoDigit 16 rest) :
    readNumber 16 (some 4) true (2 ^ 16) (Nat.toDigits 16 group ++ rest) = some (group, rest) := by
  apply readNumber_toDigits (by decide) (by decide) small _ _ none
  rintro most ⟨⟩
  exact ⟨by decide, small⟩

/-- Octets behind others are read. -/
theorem readOctets_behind {octets : List Nat} (small : ∀ octet ∈ octets, octet < 256) (index : Nat)
    {rest : Text} (none : NoDigit 10 rest) :
    readOctets octets.length (index + 1)
      (octets.flatMap (fun octet => '.' :: Nat.toDigits 10 octet) ++ rest) =
        some (octets, rest) := by
  induction octets generalizing index with
  | nil => rfl
  | cons octet octets inductionHypothesis =>
    obtain ⟨first, others⟩ := List.forall_mem_cons.mp small
    have next : NoDigit 10
        (octets.flatMap (fun octet => '.' :: Nat.toDigits 10 octet) ++ rest) := by
      cases octets with
      | nil => exact none
      | cons => rintro c ⟨⟩; decide
    simp only [List.length_cons, readOctets, readSeparator, Nat.zero_lt_succ, if_true,
      List.flatMap_cons, List.cons_append, List.append_assoc, readGivenChar, Option.bind_some,
      readNumber_octet first next, inductionHypothesis others, Option.bind_eq_bind]
    rfl

/-- Every part but the first has a separator before it. -/
theorem intercalate_cons (sep : Char) (part : Text) (parts : List Text) :
    [sep].intercalate (part :: parts) = part ++ parts.flatMap (sep :: ·) := by
  induction parts generalizing part with
  | nil => simp only [List.intercalate_singleton, List.flatMap_nil, List.append_nil]
  | cons next parts inductionHypothesis =>
    rw [List.intercalate_cons_cons, inductionHypothesis, List.flatMap_cons]
    simp only [List.append_assoc, List.cons_append, List.nil_append]

/-- A printed address of version 4 is read. -/
theorem readIpv4Addr_ipv4Text {octets : List Nat} (four : octets.length = 4)
    (small : ∀ octet ∈ octets, octet < 256) {rest : Text} (none : NoDigit 10 rest) :
    readIpv4Addr (ipv4Text octets ++ rest) = some (octets, rest) := by
  cases octets with
  | nil => cases four
  | cons octet octets =>
    obtain ⟨first, others⟩ := List.forall_mem_cons.mp small
    have sized : octets.length = 3 := Nat.succ.inj four
    have behind := readOctets_behind others 0 none
    have next : NoDigit 10
        (octets.flatMap (fun octet => '.' :: Nat.toDigits 10 octet) ++ rest) := by
      cases octets with
      | nil => exact none
      | cons => rintro c ⟨⟩; decide
    rw [sized] at behind
    rw [ipv4Text, List.map_cons, intercalate_cons, List.flatMap_map, List.append_assoc,
      readIpv4Addr, readOctets]
    simp only [readSeparator, Nat.lt_irrefl, if_false, readNumber_octet first next, behind,
      Option.bind_eq_bind, Option.bind_some]
    rfl

/-- The digits of a number are no dots. -/
theorem ne_dot_of_toDigits {number : Nat} {c : Char} (listed : c ∈ Nat.toDigits 16 number) :
    c ≠ '.' := by
  obtain ⟨digits, spelled, _⟩ := exists_digits (Nat.le_refl 16) (by decide) number
  have read : toDigit 16 c ∈ digits.map some := spelled ▸ List.mem_map_of_mem listed
  obtain ⟨digit, _, same⟩ := List.mem_map.mp read
  rintro rfl
  cases same

/-- What is left behind digits does not begin with a dot that was not in front of it. -/
theorem readDigits_ne_dot {front rest : Text} (plain : ∀ c ∈ front, c ≠ '.')
    (none : NoDigit 10 rest) (ends : rest.head? ≠ some '.') :
    (readDigits 10 (front ++ rest)).2.head? ≠ some '.' := by
  induction front with
  | nil =>
    rw [List.nil_append, readDigits_of_noDigit none]
    exact ends
  | cons c front inductionHypothesis =>
    obtain ⟨first, others⟩ := List.forall_mem_cons.mp plain
    rw [List.cons_append, readDigits]
    cases toDigit 10 c with
    | none =>
      intro dot
      exact first (Option.some.inj dot)
    | some digit => exact inductionHypothesis others

/-- Reading a number leaves what is behind its digits. -/
theorem readNumber_rest {radix bound number : Nat} {maxDigits : Option Nat}
    {allowZeroPrefix : Bool} {text rest : Text}
    (read : readNumber radix maxDigits allowZeroPrefix bound text = some (number, rest)) :
    rest = (readDigits radix text).2 := by
  simp only [readNumber] at read
  split_ifs at read
  cases read
  rfl

/-- An address of version 4 is not read where no dot is behind its first octet. -/
theorem readIpv4Addr_of_ne_dot {text : Text}
    (ends : (readDigits 10 text).2.head? ≠ some '.') : readIpv4Addr text = none := by
  rw [readIpv4Addr, readOctets]
  simp only [readSeparator, Nat.lt_irrefl, if_false, Option.bind_eq_bind]
  cases read : readNumber 10 (some 3) false 256 text with
  | none => rfl
  | some found =>
    obtain ⟨octet, rest⟩ := found
    rw [← readNumber_rest read] at ends
    have unseparated : readGivenChar '.' rest = none := by
      cases rest with
      | nil => rfl
      | cons c rest =>
        rw [readGivenChar, if_neg]
        rintro rfl
        exact ends rfl
    rw [Option.bind_some, readOctets]
    simp only [readSeparator, Nat.zero_add, Nat.zero_lt_one, if_true, unseparated,
      Option.bind_none, Option.bind_eq_bind]

/-- A group is not read as the octets of an address. -/
theorem readIpv4Addr_group (group : Nat) {rest : Text} (ends : Ends rest) :
    readIpv4Addr (Nat.toDigits 16 group ++ rest) = none := by
  apply readIpv4Addr_of_ne_dot
  apply readDigits_ne_dot _ ends.1.decimal ends.2
  intro c listed
  exact ne_dot_of_toDigits listed

/-- What follows does not belong to groups either. -/
def Stops (rest : Text) : Prop :=
  Ends rest ∧ ∀ next, readGivenChar ':' rest = some next → Ends next

/-- No address is read where a text ends or goes on with a separator. -/
theorem readIpv4Addr_of_ends {text : Text} (ends : Ends text) : readIpv4Addr text = none := by
  apply readIpv4Addr_of_ne_dot
  rw [readDigits_of_noDigit ends.1.decimal]
  exact ends.2

/-- Where the parts stop no further one is read, the first without a separator and the others behind
one. -/
theorem readSeparator_of_stops {α : Type} {inner : Text → Option (α × Text)}
    (fails : ∀ text, Ends text → inner text = none) (index : Nat) {rest : Text}
    (stops : Stops rest) : readSeparator ':' index inner rest = none := by
  cases index with
  | zero => exact fails rest stops.1
  | succ index =>
    rw [readSeparator, if_pos (Nat.succ_pos index)]
    cases found : readGivenChar ':' rest with
    | none => rfl
    | some next => exact fails next (stops.2 next found)

/-- Where no more groups follow, none is read. -/
theorem readGroups_of_stops (missing index : Nat) {rest : Text} (stops : Stops rest) :
    readGroups missing index rest = ([], false, rest) := by
  cases missing with
  | zero => rfl
  | succ missing =>
    have noOctets : (if 0 < missing then readSeparator ':' index readIpv4Addr rest else none) =
        none := by
      split
      · exact readSeparator_of_stops (fun text => readIpv4Addr_of_ends) index stops
      · rfl
    have noGroup : readSeparator ':' index (readNumber 16 (some 4) true (2 ^ 16)) rest = none :=
      readSeparator_of_stops (fun text ends => readNumber_of_noDigit ends.1 _ _ _) index stops
    rw [readGroups, noOctets, noGroup]

/-- What is behind a group does not belong to it. -/
theorem ends_behind (groups : List Nat) {rest : Text} (ends : Ends rest) :
    Ends (groups.flatMap (fun group => ':' :: Nat.toDigits 16 group) ++ rest) := by
  cases groups with
  | nil => exact ends
  | cons group groups =>
    constructor
    · rintro c ⟨⟩
      decide
    · rintro ⟨⟩

/-- One group is read, and not as octets. -/
theorem readGroups_succ {group : Nat} (small : group < 2 ^ 16) (missing index : Nat)
    {text rest : Text} (ends : Ends rest)
    (front : ∀ {α : Type} (inner : Text → Option (α × Text)),
      readSeparator ':' index inner text = inner (Nat.toDigits 16 group ++ rest)) :
    readGroups (missing + 1) index text =
      (group :: (readGroups missing (index + 1) rest).1,
        (readGroups missing (index + 1) rest).2) := by
  have noOctets : (if 0 < missing then readSeparator ':' index readIpv4Addr text else none) =
      none := by
    split
    · rw [front]
      exact readIpv4Addr_group group ends
    · rfl
  have read : readSeparator ':' index (readNumber 16 (some 4) true (2 ^ 16)) text =
      some (group, rest) := by
    rw [front]
    exact readNumber_group small ends.1
  rw [readGroups, noOctets, read]

/-- Groups behind others are read, where no more follow. -/
theorem readGroups_behind {groups : List Nat} (small : ∀ group ∈ groups, group < 2 ^ 16)
    {missing : Nat} (room : groups.length ≤ missing) (index : Nat) {rest : Text}
    (stops : Stops rest) :
    readGroups missing (index + 1)
      (groups.flatMap (fun group => ':' :: Nat.toDigits 16 group) ++ rest) =
        (groups, false, rest) := by
  induction groups generalizing missing index with
  | nil => exact readGroups_of_stops missing (index + 1) stops
  | cons group groups inductionHypothesis =>
    obtain ⟨first, others⟩ := List.forall_mem_cons.mp small
    cases missing with
    | zero => cases room
    | succ missing =>
      have behind := inductionHypothesis others (Nat.le_of_succ_le_succ room) (index + 1)
      rw [readGroups_succ first missing (index + 1) (ends_behind groups stops.1), behind]
      intro α inner
      simp only [readSeparator, Nat.succ_pos, if_true, List.flatMap_cons, List.cons_append,
        List.append_assoc, readGivenChar, Option.bind_some]

/-- Groups are read, where no more follow. -/
theorem readGroups_groupsText {groups : List Nat} (small : ∀ group ∈ groups, group < 2 ^ 16)
    {missing : Nat} (room : groups.length ≤ missing) {rest : Text} (stops : Stops rest) :
    readGroups missing 0 (groupsText groups ++ rest) = (groups, false, rest) := by
  cases groups with
  | nil => exact readGroups_of_stops missing 0 stops
  | cons group groups =>
    obtain ⟨first, others⟩ := List.forall_mem_cons.mp small
    cases missing with
    | zero => cases room
    | succ missing =>
      have behind := readGroups_behind others (Nat.le_of_succ_le_succ room) 0 stops
      rw [readGroups_succ first missing 0 (ends_behind groups stops.1), behind]
      intro α inner
      rw [groupsText, List.map_cons, intercalate_cons, List.flatMap_map, List.append_assoc]
      rfl

/-- The groups of a span are zeros. -/
def Span.Zero (span : Span) (groups : List Nat) : Prop :=
  (groups.drop span.start).take span.len = List.replicate span.len 0

/-- Groups are those before a span of zeros, the zeros and those behind it. -/
theorem Span.Zero.split {span : Span} {groups : List Nat} (zero : span.Zero groups) :
    groups = groups.take span.start ++ List.replicate span.len 0 ++
      groups.drop (span.start + span.len) := by
  rw [← zero, ← List.drop_drop, List.append_assoc, List.take_append_drop, List.take_append_drop]

/-- A zero behind a span makes it longer. -/
theorem Span.Zero.further {span : Span} {groups : List Nat} (zero : span.Zero groups)
    (behind : groups[span.start + span.len]? = some 0) :
    Span.Zero ⟨span.start, span.len + 1⟩ groups := by
  rw [Span.Zero] at zero ⊢
  rw [List.take_add_one, zero, List.getElem?_drop, behind, List.replicate_succ']
  rfl

/-- The longest run of zeros is one, where the run that goes on ends at the next group.

Proof: induction on the groups that are left. A zero makes the current run longer by one, and
any other group ends it. -/
theorem longestZeroes_zero {all groups : List Nat} {longest current : Span} {i : Nat}
    (next : all.drop i = groups) (found : longest.Zero all) (going : current.Zero all)
    (ends : current.len = 0 ∨ current.start + current.len = i) :
    (longestZeroes longest current i groups).Zero all := by
  induction groups generalizing longest current i with
  | nil => exact found
  | cons group groups inductionHypothesis =>
    have here : all[i]? = some group := by
      rw [← List.head?_drop, next]
      rfl
    have later : all.drop (i + 1) = groups := by
      rw [← List.drop_drop, next]
      rfl
    have nothing : Span.Zero {} all := by
      rw [Span.Zero, List.take_zero]
      rfl
    rw [longestZeroes]
    split
    · next zero =>
      subst zero
      have longer :
          Span.Zero ⟨if current.len = 0 then i else current.start, current.len + 1⟩ all := by
        split
        · next empty =>
          have first : Span.Zero ⟨i, 0⟩ all := by
            rw [Span.Zero, List.take_zero]
            rfl
          rw [empty]
          exact first.further here
        · next filled => exact going.further (ends.resolve_left filled ▸ here)
      apply inductionHypothesis later _ longer
      · right
        show (if current.len = 0 then i else current.start) + (current.len + 1) = i + 1
        split <;> omega
      · by_cases more : longest.len < current.len + 1
        · rw [if_pos more]
          exact longer
        · rw [if_neg more]
          exact found
    · exact inductionHypothesis later found nothing (.inl rfl)

/-- A character is read where it stands in front. -/
theorem readGivenChar_cons (c : Char) (text : Text) : readGivenChar c (c :: text) = some text :=
  if_pos rfl

/-- An address of version 4 in one of version 6 has zeros in front of it. -/
theorem toIpv4Mapped_iff (groups octets : List Nat) : toIpv4Mapped groups = some octets ↔
    ∃ ab cd, groups = [0, 0, 0, 0, 0, 0xFFFF, ab, cd] ∧
      octets = [ab / 256, ab % 256, cd / 256, cd % 256] := by
  constructor
  · intro mapped
    unfold toIpv4Mapped at mapped
    split at mapped
    · next ab cd =>
      cases mapped
      exact ⟨ab, cd, rfl, rfl⟩
    · cases mapped
  · rintro ⟨ab, cd, rfl, rfl⟩
    rfl

/-- Two colons stop the groups. -/
theorem stops_colons (text : Text) : Stops (':' :: ':' :: text) := by
  refine ⟨⟨?_, ?_⟩, ?_⟩
  · rintro c ⟨⟩
    decide
  · rintro ⟨⟩
  · rintro next ⟨⟩
    refine ⟨?_, ?_⟩
    · rintro c ⟨⟩
      decide
    · rintro ⟨⟩

/-- Groups on both sides of the colons are read, and zeros between them. -/
theorem readIpv6Addr_colons {head tail : List Nat} {len : Nat} (gap : 0 < len)
    (eight : head.length + len + tail.length = 8) (smallHead : ∀ group ∈ head, group < 2 ^ 16)
    (smallTail : ∀ group ∈ tail, group < 2 ^ 16) {rest : Text} (stops : Stops rest) :
    readIpv6Addr (groupsText head ++ ':' :: ':' :: (groupsText tail ++ rest)) =
      some (head ++ List.replicate len 0 ++ tail, rest) := by
  have front := readGroups_groupsText smallHead (show head.length ≤ 8 by omega)
    (stops_colons (groupsText tail ++ rest))
  have back := readGroups_groupsText smallTail
    (show tail.length ≤ 8 - (head.length + 1) by omega) stops
  have between : 8 - head.length - tail.length = len := by omega
  rw [readIpv6Addr, front]
  simp only [if_neg (show head.length ≠ 8 by omega), Bool.false_eq_true, if_false,
    readGivenChar_cons, Option.bind_eq_bind, Option.bind_some, back, between, Option.pure_def]

/-- Octets behind the colons are read. -/
theorem readIpv6Addr_mapped {ab cd : Nat} (smallAb : ab < 2 ^ 16) (smallCd : cd < 2 ^ 16)
    {rest : Text} (none : NoDigit 10 rest) :
    readIpv6Addr ("::ffff:".toList ++ ipv4Text [ab / 256, ab % 256, cd / 256, cd % 256] ++ rest) =
      some ([0, 0, 0, 0, 0, 0xFFFF, ab, cd], rest) := by
  have small : ∀ octet ∈ [ab / 256, ab % 256, cd / 256, cd % 256], octet < 256 := by
    simp only [List.forall_mem_cons]
    exact ⟨by omega, by omega, by omega, by omega, fun _ listed => absurd listed List.not_mem_nil⟩
  have octets := readIpv4Addr_ipv4Text rfl small none
  rw [List.append_assoc]
  generalize ipv4Text [ab / 256, ab % 256, cd / 256, cd % 256] ++ rest = behind at octets
  have front := readGroups_of_stops 8 0 (stops_colons ("ffff:".toList ++ behind))
  have ends : Ends (':' :: behind) := (stops_colons behind).2 _ rfl
  have groups : groupsOfOctets [ab / 256, ab % 256, cd / 256, cd % 256] = [ab, cd] := by
    simp only [groupsOfOctets, Nat.div_add_mod']
  have last : readGroups 6 1 (':' :: behind) = ([ab, cd], true, rest) := by
    rw [readGroups]
    simp only [Nat.succ_pos, if_true, readSeparator, readGivenChar_cons, Option.bind_some, octets,
      groups]
  have digits : Nat.toDigits 16 0xFFFF = "ffff".toList := by decide
  have back : readGroups 7 0 ("ffff:".toList ++ behind) = ([0xFFFF, ab, cd], true, rest) := by
    rw [readGroups_succ (by decide : 0xFFFF < 2 ^ 16) 6 0 ends, last]
    intro α inner
    rw [digits]
    rfl
  have whole : "::ffff:".toList ++ behind = ':' :: ':' :: ("ffff:".toList ++ behind) := rfl
  rw [whole, readIpv6Addr, front]
  simp only [List.length_nil, Nat.reduceEqDiff, Bool.false_eq_true, if_false, readGivenChar_cons,
    Option.bind_eq_bind, Option.bind_some, Nat.zero_add, Nat.reduceSub, back]
  rfl

/-- A printed address of version 6 is read.

Proof: by how the address was printed: with octets at its end, with its zeros left out, or with
all of its groups. -/
theorem readIpv6Addr_ipv6Text {groups : List Nat} (eight : groups.length = 8)
    (small : ∀ group ∈ groups, group < 2 ^ 16) {rest : Text} (stops : Stops rest) :
    readIpv6Addr (ipv6Text groups ++ rest) = some (groups, rest) := by
  rw [ipv6Text]
  cases mapped : toIpv4Mapped groups with
  | some octets =>
    obtain ⟨ab, cd, rfl, rfl⟩ := (toIpv4Mapped_iff groups octets).mp mapped
    exact readIpv6Addr_mapped (small ab (by simp)) (small cd (by simp)) stops.1.1.decimal
  | none =>
    have zero : (longestZeroes {} {} 0 groups).Zero groups :=
      longestZeroes_zero List.drop_zero rfl rfl (.inl rfl)
    generalize longestZeroes {} {} 0 groups = zeroes at zero
    dsimp only
    split
    · next several =>
      have parts := zero.split
      have smallHead : ∀ group ∈ groups.take zeroes.start, group < 2 ^ 16 :=
        fun group listed => small group (List.mem_of_mem_take listed)
      have smallTail : ∀ group ∈ groups.drop (zeroes.start + zeroes.len), group < 2 ^ 16 :=
        fun group listed => small group (List.mem_of_mem_drop listed)
      have lengths := congrArg List.length parts
      rw [List.length_append, List.length_append, List.length_replicate, eight] at lengths
      have read := readIpv6Addr_colons (Nat.lt_of_succ_lt several) lengths.symm smallHead smallTail
        stops
      rw [← parts] at read
      rw [List.append_assoc, List.append_assoc]
      exact read
    · rw [readIpv6Addr, readGroups_groupsText small (Nat.le_of_eq eight) stops]
      exact if_pos eight

example : ipv6Text [0x2001, 0xdb8, 0, 0, 1, 0, 0, 0] = "2001:db8:0:0:1::".toList := by decide

end Rust
