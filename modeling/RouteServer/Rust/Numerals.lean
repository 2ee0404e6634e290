import Mathlib.Tactic.IntervalCases
import RouteServer.Rust.Reader
import RouteServer.Rust.Utf8

/-!
# Numbers in front of a text

A number is printed as its digits, the first of which is zero for zero alone. Its reader takes
all the digits there are, so what follows a printed number must not begin with another. How many
digits it takes, how large the number is and whether zeros may stand in front are limited. Two
hexadecimal digits spell a byte.
-/

namespace Rust

/-- The digit that a character is in the largest radix. -/
def digitOfChar (c : Char) : Option Nat :=
  if '0' ≤ c ∧ c ≤ '9' then some (c.toNat - '0'.toNat)
  else if 'a' ≤ c ∧ c ≤ 'z' then some (c.toNat - 'a'.toNat + 10)
  else if 'A' ≤ c ∧ c ≤ 'Z' then some (c.toNat - 'A'.toNat + 10)
  else none

/-- `char::to_digit`. -/
def toDigit (radix : Nat) (c : Char) : Option Nat := (digitOfChar c).filter (· < radix)

/-- The digits in front of a text, and what follows them. -/
def readDigits (radix : Nat) : Text → List Nat × Text
  | [] => ([], [])
  | c :: text =>
    match toDigit radix c with
    | some digit => (digit :: (readDigits radix text).1, (readDigits radix text).2)
    | none => ([], c :: text)

/-- The number that digits stand for, after what was read already. -/
def valueOf (radix value : Nat) (digits : List Nat) : Nat :=
  digits.foldl (fun value digit => value * radix + digit) value

/-- `Parser::read_number`: the number is below `bound`, by its type. -/
def readNumber (radix : Nat) (maxDigits : Option Nat) (allowZeroPrefix : Bool) (bound : Nat)
    (text : Text) : Option (Nat × Text) :=
  let (digits, rest) := readDigits radix text
  if maxDigits.any (· < digits.length) then none
  else if digits = [] then none
  else if !allowZeroPrefix && digits.head? == some 0 && 1 < digits.length then none
  else if valueOf radix 0 digits < bound then some (valueOf radix 0 digits, rest)
  else none

/-- The text behind a sign, if it has one. -/
def dropSign : Text → Text
  | [] => []
  | c :: text => if c = '+' then text else c :: text

/-- `str::parse` of a number below a bound: a sign may stand in front of the digits. -/
def parseNumber (bound : Nat) (text : Text) : Option Nat :=
  match readNumber 10 none true bound (dropSign text) with
  | some (number, []) => some number
  | _ => none

/-- `hex::decode`. -/
def hexDecode : Text → Option (List UInt8)
  | [] => some []
  | [_] => none
  | high :: low :: text => do
    let first ← toDigit 16 high
    let second ← toDigit 16 low
    let bytes ← hexDecode text
    return UInt8.ofNat (16 * first + second) :: bytes

/-- No digit is in front of the text. -/
def NoDigit (radix : Nat) (text : Text) : Prop := ∀ c ∈ text.head?, toDigit radix c = none

section

variable {radix : Nat}

/-- No digits are read where none is in front. -/
theorem readDigits_of_noDigit {text : Text} (none : NoDigit radix text) :
    readDigits radix text = ([], text) := by
  cases text with
  | nil => rfl
  | cons c text => simp only [readDigits, none c rfl]

/-- No number is read where no digit is in front. -/
theorem readNumber_of_noDigit {text : Text} (none : NoDigit radix text) (maxDigits : Option Nat)
    (allowZeroPrefix : Bool) (bound : Nat) :
    readNumber radix maxDigits allowZeroPrefix bound text = .none := by
  simp [readNumber, readDigits_of_noDigit none]

/-- A digit is read back from its character. -/
theorem toDigit_digitChar (small : radix ≤ 16) {digit : Nat} (below : digit < radix) :
    toDigit radix (Nat.digitChar digit) = some digit := by
  have read : ∀ digit < 16, digitOfChar (Nat.digitChar digit) = some digit := by decide
  rw [toDigit, read digit (Nat.lt_of_lt_of_le below small)]
  exact Option.filter_some_pos (decide_eq_true below)

/-- Bytes are read from their digits. -/
theorem hexDecode_hexEncode (bytes : List UInt8) : hexDecode (hexEncode bytes) = some bytes := by
  induction bytes with
  | nil => rfl
  | cons byte bytes inductionHypothesis =>
    have bound := byte.toNat_lt
    have high : toDigit 16 (Nat.digitChar (byte.toNat / 16)) = some (byte.toNat / 16) :=
      toDigit_digitChar (Nat.le_refl 16) (by omega)
    have low : toDigit 16 (Nat.digitChar (byte.toNat % 16)) = some (byte.toNat % 16) :=
      toDigit_digitChar (Nat.le_refl 16) (by omega)
    rw [hexEncode] at inductionHypothesis
    simp only [hexEncode, List.flatMap_cons, List.cons_append, List.nil_append, hexDecode, high,
      low, inductionHypothesis, Option.bind_eq_bind, Option.bind_some, Option.pure_def,
      Nat.div_add_mod, UInt8.ofNat_toNat]

/-- Digits are read up to what is none. -/
theorem readDigits_append {front rest : Text} {digits : List Nat}
    (spelled : front.map (toDigit radix) = digits.map some) (none : NoDigit radix rest) :
    readDigits radix (front ++ rest) = (digits, rest) := by
  induction front generalizing digits with
  | nil =>
    cases digits with
    | nil => exact readDigits_of_noDigit none
    | cons digit digits => cases spelled
  | cons c front inductionHypothesis =>
    cases digits with
    | nil => cases spelled
    | cons digit digits =>
      obtain ⟨first, others⟩ := List.cons.inj spelled
      simp only [List.cons_append, readDigits, first, inductionHypothesis others]

/-- The digits of a number stand for it, and zero is in front for zero alone.

Proof: strong induction on the number: a small one is its only digit, and any other one is its
quotient with one more digit. -/
theorem exists_digits (small : radix ≤ 16) (large : 1 < radix) (number : Nat) :
    ∃ digits, (Nat.toDigits radix number).map (toDigit radix) = digits.map some ∧
      valueOf radix 0 digits = number ∧ (digits.head? = some 0 → digits = [0]) := by
  induction number using Nat.strongRecOn with
  | _ number inductionHypothesis =>
    by_cases last : number < radix
    · refine ⟨[number], ?_, ?_, ?_⟩
      · rw [Nat.toDigits_of_lt_base last, List.map_singleton, toDigit_digitChar small last]
        rfl
      · simp only [valueOf, List.foldl_cons, List.foldl_nil, Nat.zero_mul, Nat.zero_add]
      · intro zero
        cases zero
        rfl
    · have more : radix ≤ number := Nat.not_lt.mp last
      have positive : 0 < number / radix := Nat.div_pos more (Nat.lt_of_succ_lt large)
      have below : number % radix < radix := Nat.mod_lt _ (Nat.lt_of_succ_lt large)
      obtain ⟨digits, spelled, value, zero⟩ := inductionHypothesis (number / radix)
        (Nat.div_lt_self (Nat.lt_of_lt_of_le (Nat.lt_of_succ_lt large) more) large)
      refine ⟨digits ++ [number % radix], ?_, ?_, ?_⟩
      · rw [Nat.toDigits_of_base_le large more, List.map_append, spelled, List.map_singleton,
          toDigit_digitChar small below, List.map_append]
        rfl
      · simp only [valueOf] at value
        simp only [valueOf, List.foldl_append, value, List.foldl_cons, List.foldl_nil]
        exact Nat.div_add_mod' number radix
      · intro front
        cases digits with
        | nil =>
          rw [← value] at positive
          exact absurd positive (Nat.lt_irrefl 0)
        | cons digit digits =>
          -- zero alone would be read, but the number has digits in front of its last
          have nothing : valueOf radix 0 [0] = 0 := Nat.zero_mul radix
          rw [zero front, nothing] at value
          rw [← value] at positive
          exact absurd positive (Nat.lt_irrefl 0)

/-- A printed number is read, with what follows it left.

Proof: the printed digits are as many as the limit has room for, and they have no superfluous
zero in front, so none of the checks of the reader fails. -/
theorem readNumber_toDigits (small : radix ≤ 16) (large : 1 < radix) {number bound : Nat}
    (below : number < bound) {maxDigits : Option Nat}
    (room : ∀ most ∈ maxDigits, 0 < most ∧ number < radix ^ most) (allowZeroPrefix : Bool)
    {rest : Text} (none : NoDigit radix rest) :
    readNumber radix maxDigits allowZeroPrefix bound (Nat.toDigits radix number ++ rest) =
      some (number, rest) := by
  obtain ⟨digits, spelled, value, zero⟩ := exists_digits small large number
  have sized : digits.length = (Nat.toDigits radix number).length := by
    have lengths := congrArg List.length spelled
    simpa only [List.length_map] using lengths.symm
  have short : ¬ maxDigits.any (· < digits.length) = true := by
    rw [sized]
    cases maxDigits with
    | none => intro long; cases long
    | some most =>
      obtain ⟨positive, fits⟩ := room most rfl
      have limit := (Nat.length_toDigits_le_iff large positive).mpr fits
      intro long
      exact absurd limit (Nat.not_le.mpr (of_decide_eq_true long))
  have filled : digits ≠ [] := by
    rintro rfl
    exact Nat.toDigits_ne_nil (List.length_eq_zero_iff.mp sized.symm)
  have unpadded :
      ¬ (!allowZeroPrefix && digits.head? == some 0 && 1 < digits.length) = true := by
    intro padded
    simp only [Bool.and_eq_true, beq_iff_eq, decide_eq_true_eq] at padded
    rw [zero padded.1.2] at padded
    exact absurd padded.2 (Nat.lt_irrefl 1)
  simp only [readNumber, readDigits_append spelled none]
  rw [if_neg short, if_neg filled, if_neg unpadded, value, if_pos below]

/-- The first digit of a number is a digit. -/
theorem toDigits_front (small : radix ≤ 16) (large : 1 < radix) (number : Nat) :
    ∃ c text, Nat.toDigits radix number = c :: text ∧ toDigit radix c ≠ none := by
  obtain ⟨digits, spelled, -, -⟩ := exists_digits small large number
  cases whole : Nat.toDigits radix number with
  | nil => exact absurd whole Nat.toDigits_ne_nil
  | cons c text =>
    refine ⟨c, text, rfl, ?_⟩
    rw [whole] at spelled
    cases digits with
    | nil => cases spelled
    | cons digit digits =>
      rw [(List.cons.inj spelled).1]
      exact Option.some_ne_none digit

/-- A printed number is parsed. -/
theorem parseNumber_toDigits {number bound : Nat} (below : number < bound) :
    parseNumber bound (Nat.toDigits 10 number) = some number := by
  have read : readNumber 10 none true bound (Nat.toDigits 10 number ++ []) =
      some (number, []) := by
    apply readNumber_toDigits (by decide) (by decide) below
    · rintro most ⟨⟩
    · rintro c ⟨⟩
  obtain ⟨c, text, whole, digit⟩ := toDigits_front (by decide : 10 ≤ 16) (by decide) number
  have unsigned : c ≠ '+' := by
    rintro rfl
    exact digit rfl
  rw [List.append_nil, whole] at read
  rw [parseNumber, whole, dropSign, if_neg unsigned, read]

end

end Rust
