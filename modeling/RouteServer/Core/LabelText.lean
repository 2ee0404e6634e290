import Mathlib.Tactic.IntervalCases
import RouteServer.Core.LabelSplice
import RouteServer.Rust.Outcome
import RouteServer.Rust.Pattern
import RouteServer.Words.Groups

/-!
# The text of a label

A label is printed as groups of four hexadecimal digits with dots between them, two, four or
eight groups by its width. Its parser takes the groups of a text that matches a regular
expression, reads each as a number, shifts it to its place and refuses the label of zeros.
Printing and parsing name their shifts one by one for each width; the laws are about any
number of groups.
-/

namespace RouteServer.Labels

open Rust Words

/-- `LabelError`. -/
inductive LabelError where
  | malformedRoutingLabelStringValue
  | zeroRoutingLabel
deriving DecidableEq

/-- `{:04x}`: the digits, padded with zeros to four. -/
def hex04 (value : Nat) : Text :=
  List.replicate (4 - (Nat.toDigits 16 value).length) '0' ++ Nat.toDigits 16 value

/-- `LowerHex`, from the shift of each group. The last group is not shifted. -/
def lowerHex (shifts : List Nat) (bits : Nat) : Text :=
  ['.'].intercalate (shifts.map (fun shift => hex04 ((bits >>> shift) &&& 0xFFFF)))

/-- `Display` for `RoutingLabel<u32>`. -/
def toStringU32 (label : RoutingLabel 32) : Text := lowerHex [16, 0] label.bits

/-- `Display` for `RoutingLabel<u64>`. -/
def toStringU64 (label : RoutingLabel 64) : Text := lowerHex [48, 32, 16, 0] label.bits

/-- `Display` for `RoutingLabel<u128>`. -/
def toStringU128 (label : RoutingLabel 128) : Text :=
  lowerHex [112, 96, 80, 64, 48, 32, 16, 0] label.bits

/-- `[[:xdigit:]]`. -/
def isXdigit (c : Char) : Bool :=
  ('0' ≤ c ∧ c ≤ '9') ∨ ('a' ≤ c ∧ c ≤ 'f') ∨ ('A' ≤ c ∧ c ≤ 'F')

/-- `char::to_digit(16)`. -/
def toDigit16 (c : Char) : Option Nat :=
  if '0' ≤ c ∧ c ≤ '9' then some (c.toNat - '0'.toNat)
  else if 'a' ≤ c ∧ c ≤ 'f' then some (c.toNat - 'a'.toNat + 10)
  else if 'A' ≤ c ∧ c ≤ 'F' then some (c.toNat - 'A'.toNat + 10)
  else none

/-- The digits of `from_str_radix(.., 16)` at a given width, after what was read already. -/
def fromDigits (width : Nat) : Nat → Text → Option Nat
  | value, [] => some value
  | value, c :: text =>
    match toDigit16 c with
    | some digit =>
      if value * 16 + digit < 2 ^ width then fromDigits width (value * 16 + digit) text else none
    | none => none

/-- `from_str_radix(.., 16)`: a sign may stand in front of the digits. -/
def fromStrRadix (width : Nat) : Text → Option Nat
  | [] => none
  | ['+'] => none
  | '+' :: text => fromDigits width 0 text
  | text => fromDigits width 0 text

/-- The regular expression of a label of some groups, between `^` and `$`. -/
def labelPattern (groups : Nat) : Pattern :=
  [(· == '.')].intercalate (List.replicate groups (List.replicate 4 isXdigit))

/-- The groups that the expression captures, each of four characters. -/
def capturedGroups : Nat → Text → List Text
  | 0, _ => []
  | count + 1, text => text.take 4 :: capturedGroups count (text.drop 5)

/-- `RE.captures`. -/
def captures (groups : Nat) (value : Text) : Option (List Text) :=
  if (labelPattern groups).isMatch value then some (capturedGroups groups value) else none

/-- `capture2u32` and its siblings. -/
def capture2u (width : Nat) (group : Text) : Outcome LabelError Nat :=
  match fromStrRadix width group with
  | some number => .ok number
  | none => .panicked

/-- Each captured number shifted to its place and added with `|` to those before it. -/
def assemble (width : Nat) : List Text → List Nat → Nat → Outcome LabelError Nat
  | group :: groups, shift :: shifts, word => do
    let number ← capture2u width group
    let shifted ← Outcome.checkedShl width number shift
    assemble width groups shifts (word ||| shifted)
  | _, _, word => .ok word

/-- `TryFrom<&str>`, from the shift of each group. -/
def tryFromStr (width : Nat) (shifts : List Nat) (value : Text) :
    Outcome LabelError (RoutingLabel width) :=
  match captures shifts.length value with
  | some groups => do
    let word ← assemble width groups shifts 0
    match Splice.labelOfWord width word with
    | some label => .ok label
    | none => .err .zeroRoutingLabel
  | none => .err .malformedRoutingLabelStringValue

/-- `try_from` for `RoutingLabel<u32>`. -/
def tryFromU32 (value : Text) : Outcome LabelError (RoutingLabel 32) := tryFromStr 32 [16, 0] value

/-- `try_from` for `RoutingLabel<u64>`. -/
def tryFromU64 (value : Text) : Outcome LabelError (RoutingLabel 64) :=
  tryFromStr 64 [48, 32, 16, 0] value

/-- `try_from` for `RoutingLabel<u128>`. -/
def tryFromU128 (value : Text) : Outcome LabelError (RoutingLabel 128) :=
  tryFromStr 128 [112, 96, 80, 64, 48, 32, 16, 0] value

/-- What a hexadecimal digit is read as, and how it is printed again. -/
theorem exists_digit {c : Char} (digit : isXdigit c = true) :
    ∃ value, value < 16 ∧ toDigit16 c = some value ∧ Nat.digitChar value = c.toLower ∧
      (value = 0 ↔ c = '0') ∧ c ≠ '+' := by
  have spelled : Char.ofNat c.toNat = c := Char.ofNat_toNat c
  have range : 48 ≤ c.toNat ∧ c.toNat ≤ 57 ∨ 97 ≤ c.toNat ∧ c.toNat ≤ 102 ∨
      65 ≤ c.toNat ∧ c.toNat ≤ 70 := by
    simpa [isXdigit, Char.le_def, UInt32.le_iff_toNat_le] using digit
  rw [← spelled]
  generalize c.toNat = code at range
  rcases range with ⟨low, high⟩ | ⟨low, high⟩ | ⟨low, high⟩
  all_goals
    interval_cases code <;> exact ⟨_, by decide, rfl, by decide, by decide, by decide⟩

/-- A group: four hexadecimal digits. -/
def IsGroup (group : Text) : Prop := group.length = 4 ∧ ∀ c ∈ group, isXdigit c = true

/-- The number that hexadecimal digits stand for. -/
def digitsValue (text : Text) : Nat :=
  text.foldl (fun value c => value * 16 + (toDigit16 c).getD 0) 0

/-- A group is printed as its four digits. -/
theorem hex04_of_lt {value : Nat} (small : value < 2 ^ 16) :
    hex04 value = [Nat.digitChar (value / 16 / 16 / 16), Nat.digitChar (value / 16 / 16 % 16),
      Nat.digitChar (value / 16 % 16), Nat.digitChar (value % 16)] := by
  have step (number : Nat) (large : 16 ≤ number) : Nat.toDigits 16 number =
      Nat.toDigits 16 (number / 16) ++ [Nat.digitChar (number % 16)] :=
    Nat.toDigits_of_base_le (by decide) large
  have last (number : Nat) (one : number < 16) :
      Nat.toDigits 16 number = [Nat.digitChar number] := Nat.toDigits_of_lt_base one
  have zero : Nat.digitChar 0 = '0' := rfl
  rw [hex04]
  by_cases first : value < 16
  · rw [last value first, show value / 16 = 0 by omega, Nat.mod_eq_of_lt first]
    rfl
  by_cases second : value / 16 < 16
  · rw [step value (by omega), last _ second, show value / 16 / 16 = 0 by omega,
      Nat.mod_eq_of_lt second]
    rfl
  by_cases third : value / 16 / 16 < 16
  · rw [step value (by omega), step (value / 16) (by omega), last _ third,
      show value / 16 / 16 / 16 = 0 by omega, Nat.mod_eq_of_lt third]
    rfl
  · rw [step value (by omega), step (value / 16) (by omega), step (value / 16 / 16) (by omega),
      last _ (show value / 16 / 16 / 16 < 16 by omega)]
    rfl

/-- Digits are accumulated without an overflow where there is room for them, by induction on the
text. -/
theorem fromDigits_of_xdigits {width value : Nat} {text : Text}
    (digits : ∀ c ∈ text, isXdigit c = true) (room : (value + 1) * 16 ^ text.length ≤ 2 ^ width) :
    fromDigits width value text =
      some (text.foldl (fun value c => value * 16 + (toDigit16 c).getD 0) value) := by
  induction text generalizing value with
  | nil => rfl
  | cons c text inductionHypothesis =>
    obtain ⟨first, others⟩ := List.forall_mem_cons.mp digits
    obtain ⟨digit, small, read, _⟩ := exists_digit first
    have larger : (value * 16 + digit + 1) * 16 ^ text.length ≤ 2 ^ width := by
      refine le_trans (Nat.mul_le_mul_right _ (show value * 16 + digit + 1 ≤ (value + 1) * 16 by
        omega)) (le_trans (Nat.le_of_eq ?_) room)
      rw [List.length_cons, Nat.pow_succ']
      exact Nat.mul_assoc ..
    have fits : value * 16 + digit < 2 ^ width :=
      Nat.lt_of_lt_of_le (Nat.lt_succ_self _)
        (le_trans (Nat.le_mul_of_pos_right _ (Nat.pow_pos (by decide))) larger)
    rw [fromDigits, read]
    simp only [if_pos fits, inductionHypothesis others larger, List.foldl_cons, read,
      Option.getD_some]

/-- The four digits of a group. -/
theorem IsGroup.digits {group : Text} (isGroup : IsGroup group) :
    ∃ c₁ c₂ c₃ c₄, group = [c₁, c₂, c₃, c₄] ∧ isXdigit c₁ = true ∧ isXdigit c₂ = true ∧
      isXdigit c₃ = true ∧ isXdigit c₄ = true := by
  obtain ⟨sized, digits⟩ := isGroup
  obtain ⟨c₁, c₂, c₃, c₄, rfl⟩ := List.length_eq_four.mp sized
  simp only [List.forall_mem_cons] at digits
  exact ⟨c₁, c₂, c₃, c₄, rfl, digits.1, digits.2.1, digits.2.2.1, digits.2.2.2.1⟩

/-- A group is read as a number of sixteen bits, and that number is printed as the group in
lower case. -/
theorem IsGroup.value {group : Text} (isGroup : IsGroup group) :
    digitsValue group < 2 ^ 16 ∧ hex04 (digitsValue group) = group.map Char.toLower ∧
      (digitsValue group = 0 ↔ ∀ c ∈ group, c = '0') := by
  obtain ⟨c₁, c₂, c₃, c₄, rfl, first, second, third, fourth⟩ := isGroup.digits
  obtain ⟨d₁, small₁, read₁, print₁, zero₁, _⟩ := exists_digit first
  obtain ⟨d₂, small₂, read₂, print₂, zero₂, _⟩ := exists_digit second
  obtain ⟨d₃, small₃, read₃, print₃, zero₃, _⟩ := exists_digit third
  obtain ⟨d₄, small₄, read₄, print₄, zero₄, _⟩ := exists_digit fourth
  have value : digitsValue [c₁, c₂, c₃, c₄] = ((d₁ * 16 + d₂) * 16 + d₃) * 16 + d₄ := by
    simp [digitsValue, read₁, read₂, read₃, read₄]
  rw [value]
  refine ⟨by omega, ?_, ?_⟩
  · rw [hex04_of_lt (by omega)]
    have place₄ : (((d₁ * 16 + d₂) * 16 + d₃) * 16 + d₄) % 16 = d₄ := by omega
    have place₃ : (((d₁ * 16 + d₂) * 16 + d₃) * 16 + d₄) / 16 % 16 = d₃ := by omega
    have place₂ : (((d₁ * 16 + d₂) * 16 + d₃) * 16 + d₄) / 16 / 16 % 16 = d₂ := by omega
    have place₁ : (((d₁ * 16 + d₂) * 16 + d₃) * 16 + d₄) / 16 / 16 / 16 = d₁ := by omega
    rw [place₁, place₂, place₃, place₄, print₁, print₂, print₃, print₄]
    rfl
  · simp only [List.forall_mem_cons, ← zero₁, ← zero₂, ← zero₃, ← zero₄]
    constructor
    · intro nothing
      exact ⟨by omega, by omega, by omega, by omega, fun c listed => absurd listed List.not_mem_nil⟩
    · rintro ⟨rfl, rfl, rfl, rfl, _⟩
      rfl

/-- A group of four digits has sixteen bits. -/
theorem digitsValue_lt {groups : List Text} (areGroups : ∀ group ∈ groups, IsGroup group) :
    ∀ value ∈ groups.map digitsValue, value < 2 ^ 16 := by
  intro value listed
  obtain ⟨group, member, rfl⟩ := List.mem_map.mp listed
  exact (areGroups group member).value.1

/-- Sixteen bits are printed as a group, which is read as they are. -/
theorem isGroup_hex04 {value : Nat} (small : value < 2 ^ 16) :
    IsGroup (hex04 value) ∧ digitsValue (hex04 value) = value := by
  have digit : ∀ number < 16, isXdigit (Nat.digitChar number) = true ∧
      toDigit16 (Nat.digitChar number) = some number := by decide
  rw [hex04_of_lt small]
  have first := digit (value / 16 / 16 / 16) (by omega)
  have second := digit (value / 16 / 16 % 16) (by omega)
  have third := digit (value / 16 % 16) (by omega)
  have fourth := digit (value % 16) (by omega)
  constructor
  · refine ⟨rfl, ?_⟩
    simp [first.1, second.1, third.1, fourth.1]
  · simp only [digitsValue, List.foldl_cons, List.foldl_nil, first.2, second.2, third.2, fourth.2,
      Option.getD_some]
    omega

/-- A group is read as the value of its digits. -/
theorem IsGroup.capture2u {group : Text} (isGroup : IsGroup group) {width : Nat}
    (wide : 16 ≤ width) : capture2u width group = .ok (digitsValue group) := by
  have room : (0 + 1) * 16 ^ group.length ≤ 2 ^ width := by
    rw [isGroup.1]
    exact Nat.pow_le_pow_right (by decide : 0 < 2) wide
  have read := fromDigits_of_xdigits isGroup.2 room
  obtain ⟨c₁, c₂, c₃, c₄, rfl, first, _⟩ := isGroup.digits
  obtain ⟨_, _, _, _, _, unsigned⟩ := exists_digit first
  have plain : fromStrRadix width [c₁, c₂, c₃, c₄] = fromDigits width 0 [c₁, c₂, c₃, c₄] := by
    rw [fromStrRadix]
    · intro same
      cases same
    · intro same
      cases same
    · intro text same
      exact unsigned (List.cons.inj same).1
  rw [Labels.capture2u, plain, read]
  rfl

/-- The expression matches groups with dots between them. -/
theorem isMatch_labelPattern_iff (count : Nat) (text : Text) :
    (labelPattern count).isMatch text = true ↔
      ∃ groups : List Text, groups.length = count ∧ (∀ group ∈ groups, IsGroup group) ∧
        text = ['.'].intercalate groups := by
  have one (group : Text) : Pattern.isMatch (List.replicate 4 isXdigit) group = true ↔
      IsGroup group := Pattern.isMatch_replicate_iff 4 isXdigit group
  simp only [labelPattern, Pattern.isMatch_intercalate_iff, one]

/-- The groups of a text are captured. -/
theorem capturedGroups_intercalate {groups : List Text}
    (areGroups : ∀ group ∈ groups, IsGroup group) :
    capturedGroups groups.length (['.'].intercalate groups) = groups := by
  induction groups with
  | nil => rfl
  | cons group groups inductionHypothesis =>
    obtain ⟨first, others⟩ := List.forall_mem_cons.mp areGroups
    cases groups with
    | nil =>
      rw [List.intercalate_singleton, List.length_singleton, capturedGroups,
        List.take_of_length_le (Nat.le_of_eq first.1), capturedGroups]
    | cons next groups =>
      rw [List.intercalate_cons_cons, List.length_cons, capturedGroups,
        List.append_assoc, List.take_left' first.1, ← List.append_assoc,
        List.drop_left' (by rw [List.length_append, first.1]; rfl), inductionHypothesis others]

/-- Groups are captured from their text with the dots between them. -/
theorem captures_intercalate {groups : List Text} (areGroups : ∀ group ∈ groups, IsGroup group) :
    captures groups.length (['.'].intercalate groups) = some groups := by
  rw [captures, if_pos ((isMatch_labelPattern_iff _ _).mpr ⟨groups, rfl, areGroups, rfl⟩),
    capturedGroups_intercalate areGroups]

/-- The captured numbers are put together in their places. -/
theorem assemble_groups {width : Nat} {groups : List Text}
    (areGroups : ∀ group ∈ groups, IsGroup group) (room : 16 * groups.length ≤ width) (word : Nat) :
    assemble width groups (groupShifts 16 groups.length) (word <<< (16 * groups.length)) =
      .ok (joinGroups 16 word (groups.map digitsValue)) := by
  induction groups generalizing word with
  | nil => rfl
  | cons group groups inductionHypothesis =>
    obtain ⟨first, others⟩ := List.forall_mem_cons.mp areGroups
    rw [List.length_cons] at room ⊢
    obtain ⟨small, _⟩ := first.value
    have fits : digitsValue group <<< (16 * groups.length) < 2 ^ width := by
      rw [Nat.shiftLeft_eq]
      calc digitsValue group * 2 ^ (16 * groups.length)
          < 2 ^ 16 * 2 ^ (16 * groups.length) :=
            Nat.mul_lt_mul_of_pos_right small (Nat.two_pow_pos _)
        _ = 2 ^ (16 * (groups.length + 1)) := by rw [← Nat.pow_add]; congr 1; omega
        _ ≤ 2 ^ width := Nat.pow_le_pow_right (by decide) room
    rw [groupShifts, assemble, first.capture2u (by omega), Outcome.ok_bind,
      Outcome.checkedShl_of_lt (by omega) fits, Outcome.ok_bind,
      shiftLeft_or_group word groups.length small, inductionHypothesis others (by omega)]
    rfl

/-- A text of as many groups as the width has is parsed as the number they are put together
to, unless this is zero. -/
theorem tryFromStr_groups {width count : Nat} (whole : width = 16 * count) {groups : List Text}
    (sized : groups.length = count) (areGroups : ∀ group ∈ groups, IsGroup group) :
    (joinGroups 16 0 (groups.map digitsValue) = 0 →
      tryFromStr width (groupShifts 16 count) (['.'].intercalate groups) =
        .err .zeroRoutingLabel) ∧
    (joinGroups 16 0 (groups.map digitsValue) ≠ 0 →
      ∃ label, tryFromStr width (groupShifts 16 count) (['.'].intercalate groups) = .ok label ∧
        label.bits = joinGroups 16 0 (groups.map digitsValue)) := by
  subst sized whole
  have small := digitsValue_lt areGroups
  have bounded := joinGroups_lt small
  rw [List.length_map] at bounded
  have assembled := assemble_groups areGroups (Nat.le_refl _) 0
  rw [Nat.zero_shiftLeft] at assembled
  rw [tryFromStr, length_groupShifts, captures_intercalate areGroups]
  simp only [assembled, Outcome.ok_bind, Nat.mod_eq_of_lt bounded, Splice.labelOfWord,
    RoutingLabel.tryNew]
  constructor
  · intro nothing
    rw [dif_neg (not_not.mpr nothing)]
  · intro something
    rw [dif_pos something]
    exact ⟨_, rfl, rfl⟩

/-- What holds of all characters of a text holds of those of its groups and of the dots. -/
theorem forall_mem_intercalate (holds : Char → Prop) (dot : holds '.') (groups : List Text) :
    (∀ c ∈ ['.'].intercalate groups, holds c) ↔ ∀ group ∈ groups, ∀ c ∈ group, holds c := by
  induction groups with
  | nil => simp
  | cons group groups inductionHypothesis =>
    cases groups with
    | nil => simp
    | cons next groups =>
      rw [List.intercalate_cons_cons, List.forall_mem_append, inductionHypothesis,
        List.forall_mem_append, List.forall_mem_cons (l := next :: groups)]
      simp [dot]

/-- A change of characters that leaves the dots alone changes the groups one by one. -/
theorem map_intercalate (change : Char → Char) (dot : change '.' = '.') (groups : List Text) :
    (['.'].intercalate groups).map change = ['.'].intercalate (groups.map (List.map change)) := by
  induction groups with
  | nil => rfl
  | cons group groups inductionHypothesis =>
    cases groups with
    | nil => simp
    | cons next groups =>
      rw [List.intercalate_cons_cons, List.map_append, inductionHypothesis, List.map_cons,
        List.map_cons, List.map_cons, List.intercalate_cons_cons, List.map_append, List.map_cons,
        List.map_nil, dot]

/-- The groups that a number is printed as. -/
theorem lowerHex_groupShifts (count bits : Nat) :
    lowerHex (groupShifts 16 count) bits = ['.'].intercalate
      (((groupShifts 16 count).map (fun shift => bits >>> shift % 2 ^ 16)).map hex04) := by
  rw [lowerHex, List.map_map]
  congr 1
  apply List.map_congr_left
  intro shift _
  exact congrArg hex04 (Nat.and_two_pow_sub_one_eq_mod (bits >>> shift) 16)

/-- The text is zeros and dots exactly when the number is zero. -/
theorem joinGroups_digits_eq_zero_iff {groups : List Text}
    (areGroups : ∀ group ∈ groups, IsGroup group) :
    joinGroups 16 0 (groups.map digitsValue) = 0 ↔
      ∀ c ∈ ['.'].intercalate groups, c = '0' ∨ c = '.' := by
  have small := digitsValue_lt areGroups
  rw [joinGroups_eq_zero_iff small, List.forall_mem_map, forall_mem_intercalate _ (.inr rfl)]
  apply forall₂_congr
  intro group member
  rw [(areGroups group member).value.2.2]
  apply forall₂_congr
  intro c listed
  have digit := (areGroups group member).2 c listed
  constructor
  · exact .inl
  · rintro (zero | rfl)
    · exact zero
    · cases digit

/-- A number is printed as groups that are put together to it. -/
theorem exists_printed_groups {count bits : Nat} (bounded : bits < 2 ^ (16 * count)) :
    ∃ groups : List Text, groups.length = count ∧ (∀ group ∈ groups, IsGroup group) ∧
      lowerHex (groupShifts 16 count) bits = ['.'].intercalate groups ∧
      joinGroups 16 0 (groups.map digitsValue) = bits := by
  let cut := (groupShifts 16 count).map (fun shift => bits >>> shift % 2 ^ 16)
  have cutSmall : ∀ value ∈ cut, value < 2 ^ 16 := by
    intro value listed
    obtain ⟨shift, _, rfl⟩ := List.mem_map.mp listed
    exact Nat.mod_lt _ (Nat.two_pow_pos 16)
  have values : (cut.map hex04).map digitsValue = cut := by
    rw [List.map_map]
    refine (List.map_congr_left ?_).trans (List.map_id cut)
    intro value member
    exact (isGroup_hex04 (cutSmall value member)).2
  refine ⟨cut.map hex04, ?_, ?_, lowerHex_groupShifts count bits, ?_⟩
  · rw [List.length_map, List.length_map, length_groupShifts]
  · intro group listed
    obtain ⟨value, member, rfl⟩ := List.mem_map.mp listed
    exact (isGroup_hex04 (cutSmall value member)).1
  · rw [values, joinGroups_cut, Nat.zero_mul, Nat.zero_add, Nat.mod_eq_of_lt bounded]

/-- The number that groups are put together to is printed as the groups in lower case. -/
theorem lowerHex_joinGroups {groups : List Text} (areGroups : ∀ group ∈ groups, IsGroup group) :
    lowerHex (groupShifts 16 groups.length) (joinGroups 16 0 (groups.map digitsValue)) =
      (['.'].intercalate groups).map Char.toLower := by
  have cut := cut_joinGroups 0 (digitsValue_lt areGroups)
  rw [List.length_map] at cut
  rw [lowerHex_groupShifts, cut, map_intercalate Char.toLower rfl, List.map_map]
  congr 1
  apply List.map_congr_left
  intro group member
  exact (areGroups group member).value.2.1

section

variable {width count : Nat}

/-- A text is parsed as a label if it consists of groups that are put together to it. -/
theorem tryFromStr_ok_iff (whole : width = 16 * count) (text : Text)
    (label : RoutingLabel width) :
    tryFromStr width (groupShifts 16 count) text = .ok label ↔
      ∃ groups : List Text, groups.length = count ∧ (∀ group ∈ groups, IsGroup group) ∧
        text = ['.'].intercalate groups ∧
        label.bits = joinGroups 16 0 (groups.map digitsValue) := by
  constructor
  · intro parsed
    have matched : (labelPattern count).isMatch text = true := by
      cases isMatch : (labelPattern count).isMatch text with
      | true => rfl
      | false =>
        rw [tryFromStr, length_groupShifts, captures, isMatch] at parsed
        cases parsed
    obtain ⟨groups, sized, areGroups, rfl⟩ := (isMatch_labelPattern_iff count text).mp matched
    obtain ⟨zero, nonzero⟩ := tryFromStr_groups whole sized areGroups
    have something : joinGroups 16 0 (groups.map digitsValue) ≠ 0 := by
      intro nothing
      rw [zero nothing] at parsed
      cases parsed
    obtain ⟨read, again, bits⟩ := nonzero something
    cases parsed.symm.trans again
    exact ⟨groups, sized, areGroups, rfl, bits⟩
  · rintro ⟨groups, sized, areGroups, rfl, bits⟩
    have something : joinGroups 16 0 (groups.map digitsValue) ≠ 0 := bits ▸ label.nonzero
    obtain ⟨read, parsed, same⟩ := (tryFromStr_groups whole sized areGroups).2 something
    rw [parsed, RoutingLabel.ext (same.trans bits.symm)]

/-- Numbers that were captured are parsed and fit their places, so nothing panics. -/
theorem tryFromStr_ne_panicked (whole : width = 16 * count) (text : Text) :
    tryFromStr width (groupShifts 16 count) text ≠ .panicked := by
  cases matched : (labelPattern count).isMatch text with
  | false =>
    rw [tryFromStr, length_groupShifts, captures, matched]
    exact fun same => by cases same
  | true =>
    obtain ⟨groups, sized, areGroups, rfl⟩ := (isMatch_labelPattern_iff count text).mp matched
    obtain ⟨zero, nonzero⟩ := tryFromStr_groups whole sized areGroups
    by_cases nothing : joinGroups 16 0 (groups.map digitsValue) = 0
    · rw [zero nothing]
      exact fun same => by cases same
    · obtain ⟨label, parsed, _⟩ := nonzero nothing
      rw [parsed]
      exact fun same => by cases same

end

/-- Texts of labels: printing is undone by parsing, what is parsed are groups of digits
between dots that are not all zero, and it is printed in lower case. -/
structure FaithfulText {width : Nat} (count : Nat) (print : RoutingLabel width → Text)
    (parse : Text → Outcome LabelError (RoutingLabel width)) : Prop where
  returns : ∀ text, parse text ≠ .panicked
  parse_print : ∀ label, parse (print label) = .ok label
  accepted_iff : ∀ text, (∃ label, parse text = .ok label) ↔
    (∃ groups : List Text, groups.length = count ∧ (∀ group ∈ groups, IsGroup group) ∧
      text = ['.'].intercalate groups) ∧ ∃ c ∈ text, c ≠ '0' ∧ c ≠ '.'
  print_parse : ∀ text label, parse text = .ok label → print label = text.map Char.toLower

/-- The text of a label is faithful at each width of whole groups: it is printed group by group, and
each group is read back.

Proof: a printed label is its groups of four digits. The parser accepts texts of that many
groups and joins them, and a word of all zeros, which is no label, has only zeros and dots. -/
theorem faithfulText_groupShifts (width : Nat) {count : Nat} (whole : width = 16 * count) :
    FaithfulText count
      (fun label : RoutingLabel width => lowerHex (groupShifts 16 count) label.bits)
      (tryFromStr width (groupShifts 16 count)) where
  returns := tryFromStr_ne_panicked whole
  parse_print label := by
    have bounded : label.bits < 2 ^ (16 * count) := whole ▸ label.bounded
    obtain ⟨groups, sized, areGroups, printed, joined⟩ := exists_printed_groups bounded
    exact (tryFromStr_ok_iff whole _ label).mpr
      ⟨groups, sized, areGroups, printed, joined.symm⟩
  accepted_iff text := by
    constructor
    · rintro ⟨label, parsed⟩
      obtain ⟨groups, sized, areGroups, rfl, bits⟩ := (tryFromStr_ok_iff whole _ _).mp parsed
      refine ⟨⟨groups, sized, areGroups, rfl⟩, ?_⟩
      by_contra none
      push Not at none
      have zero := (joinGroups_digits_eq_zero_iff areGroups).mpr
        (fun c listed => or_iff_not_imp_left.mpr (none c listed))
      exact label.nonzero (bits.trans zero)
    · rintro ⟨⟨groups, sized, areGroups, rfl⟩, c, listed, notZero, notDot⟩
      have nonzero : joinGroups 16 0 (groups.map digitsValue) ≠ 0 := by
        intro zero
        rcases (joinGroups_digits_eq_zero_iff areGroups).mp zero c listed with same | same
        · exact notZero same
        · exact notDot same
      obtain ⟨label, parsed, _⟩ := (tryFromStr_groups whole sized areGroups).2 nonzero
      exact ⟨label, parsed⟩
  print_parse text label parsed := by
    obtain ⟨groups, rfl, areGroups, rfl, bits⟩ := (tryFromStr_ok_iff whole _ _).mp parsed
    rw [bits, lowerHex_joinGroups areGroups]

/-- The texts of labels of all three widths.

Proof: one statement about groups of sixteen bits, at each of the three widths. -/
theorem label_text_faithful :
    FaithfulText 2 toStringU32 tryFromU32 ∧ FaithfulText 4 toStringU64 tryFromU64 ∧
      FaithfulText 8 toStringU128 tryFromU128 :=
  ⟨faithfulText_groupShifts 32 rfl, faithfulText_groupShifts 64 rfl,
    faithfulText_groupShifts 128 rfl⟩

end RouteServer.Labels
