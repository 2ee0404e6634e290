import Mathlib.Tactic.SplitIfs
import RouteServer.Rust.Utf8
import RouteServer.Words.Groups

/-!
# Base 32 with the least significant bits first

Bytes are a number in little-endian order, and its text is the digits of the number in base
32, the least significant one first and as many as the bits need. A text is decoded if it
has a length that occurs and the bits left over in its last digit are zero. So exactly the
encodings are decoded.
-/

namespace Rust.Base32

open Words

/-- The digits: no vowel but `u` and `y`. -/
def symbols : Text := "0123456789bcdfghjklmnpqrstuvwxyz".toList

/-- The symbol of a digit. -/
def symbolOf (digit : Nat) : Char := symbols.getD digit '0'

/-- The digit of a symbol. -/
def digitOf (symbol : Char) : Option Nat := symbols.findIdx? (· == symbol)

/-- How many symbols some bytes need. -/
def symbolCount (bytes : Nat) : Nat := (8 * bytes + 4) / 5

/-- The bytes of a number, the least significant one first. -/
def toBytes (count number : Nat) : List UInt8 :=
  (((groupShifts 8 count).map (fun shift => number >>> shift % 2 ^ 8)).map UInt8.ofNat).reverse

/-- The number of some bytes. -/
def ofBytes (bytes : List UInt8) : Nat := joinGroups 8 0 (bytes.reverse.map UInt8.toNat)

/-- The text of some bytes. -/
def encode (bytes : List UInt8) : Text :=
  (((groupShifts 5 (symbolCount bytes.length)).map
    (fun shift => ofBytes bytes >>> shift % 2 ^ 5)).map symbolOf).reverse

/-- The digits of all symbols. -/
def digitsOf : Text → Option (List Nat)
  | [] => some []
  | symbol :: text => (digitOf symbol).bind (fun digit => (digitsOf text).map (digit :: ·))

/-- The bytes of a text, if it encodes any. -/
def decode (text : Text) : Option (List UInt8) :=
  match digitsOf text with
  | some digits =>
    let number := joinGroups 5 0 digits.reverse
    let count := text.length * 5 / 8
    if text.length = symbolCount count ∧ number < 2 ^ (8 * count) then some (toBytes count number)
    else none
  | none => none

/-- A digit is read back from its symbol. -/
theorem digitOf_symbolOf : ∀ digit < 32, digitOf (symbolOf digit) = some digit := by
  decide

/-- A symbol is that of its digit. -/
theorem symbolOf_digitOf {symbol : Char} {digit : Nat} (found : digitOf symbol = some digit) :
    digit < 32 ∧ symbolOf digit = symbol := by
  obtain ⟨bound, same, _⟩ := List.findIdx?_eq_some_iff_getElem.mp found
  refine ⟨bound, ?_⟩
  rw [symbolOf, List.getD_eq_getElem?_getD, List.getElem?_eq_getElem bound]
  exact eq_of_beq same

/-- A digit is written as one of the symbols. -/
theorem symbolOf_mem : ∀ digit < 32, symbolOf digit ∈ symbols := by
  decide

/-- The length of a text is given by that of the bytes, rounded up to whole symbols. -/
theorem length_encode (bytes : List UInt8) : (encode bytes).length = symbolCount bytes.length := by
  rw [encode, List.length_reverse, List.length_map, List.length_map, length_groupShifts]

/-- Nothing but symbols is written. -/
theorem encode_mem_symbols {bytes : List UInt8} {c : Char} (listed : c ∈ encode bytes) :
    c ∈ symbols := by
  obtain ⟨digit, member, rfl⟩ := List.mem_map.mp (List.mem_reverse.mp listed)
  obtain ⟨shift, _, rfl⟩ := List.mem_map.mp member
  exact symbolOf_mem _ (Nat.mod_lt _ (by decide))

/-- A number has as many bits as its bytes. -/
theorem ofBytes_lt (bytes : List UInt8) : ofBytes bytes < 2 ^ (8 * bytes.length) := by
  have small : ∀ value ∈ bytes.reverse.map UInt8.toNat, value < 2 ^ 8 := by
    intro value listed
    obtain ⟨byte, _, rfl⟩ := List.mem_map.mp listed
    exact byte.toNat_lt
  have bound := joinGroups_lt small
  rwa [List.length_map, List.length_reverse] at bound

/-- The bytes of a number of bytes. -/
theorem toBytes_ofBytes (bytes : List UInt8) : toBytes bytes.length (ofBytes bytes) = bytes := by
  have small : ∀ value ∈ bytes.reverse.map UInt8.toNat, value < 2 ^ 8 := by
    intro value listed
    obtain ⟨byte, _, rfl⟩ := List.mem_map.mp listed
    exact byte.toNat_lt
  have cut := cut_joinGroups 0 small
  rw [List.length_map, List.length_reverse] at cut
  rw [toBytes, ofBytes, cut, List.map_map]
  have same : UInt8.ofNat ∘ UInt8.toNat = id := funext (fun byte => UInt8.ofNat_toNat)
  rw [same, List.map_id, List.reverse_reverse]

/-- As many bytes are made as were asked for. -/
theorem length_toBytes (count number : Nat) : (toBytes count number).length = count := by
  rw [toBytes, List.length_reverse, List.length_map, List.length_map, length_groupShifts]

/-- A number that fits is read back from its bytes, by induction on their count. -/
theorem ofBytes_toBytes {count number : Nat} (fits : number < 2 ^ (8 * count)) :
    ofBytes (toBytes count number) = number := by
  have spelled : (((groupShifts 8 count).map (fun shift => number >>> shift % 2 ^ 8)).map
      UInt8.ofNat).map UInt8.toNat =
        (groupShifts 8 count).map (fun shift => number >>> shift % 2 ^ 8) := by
    rw [List.map_map, List.map_map]
    apply List.map_congr_left
    intro shift _
    exact UInt8.toNat_ofNat_of_lt' (Nat.mod_lt _ (by decide))
  rw [ofBytes, toBytes, List.reverse_reverse, spelled, joinGroups_cut, Nat.zero_mul,
    Nat.zero_add, Nat.mod_eq_of_lt fits]

/-- The digits of a text are those it is spelled with. -/
theorem digitsOf_iff (text : Text) (digits : List Nat) : digitsOf text = some digits ↔
    (∀ digit ∈ digits, digit < 2 ^ 5) ∧ text = digits.map symbolOf := by
  induction text generalizing digits with
  | nil =>
    rw [digitsOf, Option.some_inj]
    constructor
    · rintro rfl
      exact ⟨fun digit listed => absurd listed List.not_mem_nil, rfl⟩
    · rintro ⟨_, spelled⟩
      exact (List.map_eq_nil_iff.mp spelled.symm).symm
  | cons symbol text inductionHypothesis =>
    rw [digitsOf, Option.bind_eq_some_iff]
    constructor
    · rintro ⟨digit, first, rest⟩
      obtain ⟨others, read, rfl⟩ := Option.map_eq_some_iff.mp rest
      obtain ⟨small, spelled⟩ := (inductionHypothesis others).mp read
      obtain ⟨bound, same⟩ := symbolOf_digitOf first
      exact ⟨List.forall_mem_cons.mpr ⟨bound, small⟩, by rw [List.map_cons, same, spelled]⟩
    · rintro ⟨small, spelled⟩
      cases digits with
      | nil => cases spelled
      | cons digit others =>
        obtain ⟨bound, rest⟩ := List.forall_mem_cons.mp small
        obtain ⟨rfl, same⟩ := List.cons.inj spelled
        refine ⟨digit, digitOf_symbolOf digit bound, ?_⟩
        exact Option.map_eq_some_iff.mpr
          ⟨others, (inductionHypothesis others).mpr ⟨rest, same⟩, rfl⟩

/-- Exactly the encodings are decoded.

Proof: forwards the digits of the text are the groups of five bits of its number, whose bytes
were returned; backwards the digits of an encoding are read and give its number back. -/
theorem decode_iff (text : Text) (bytes : List UInt8) :
    decode text = some bytes ↔ text = encode bytes := by
  constructor
  · intro decoded
    rw [decode] at decoded
    split at decoded
    · next digits read =>
      obtain ⟨small, spelled⟩ := (digitsOf_iff text digits).mp read
      dsimp only at decoded
      split_ifs at decoded with accepted
      cases decoded
      obtain ⟨sized, fits⟩ := accepted
      have counted : text.length = digits.reverse.length := by
        rw [spelled, List.length_map, List.length_reverse]
      have smallReverse : ∀ digit ∈ digits.reverse, digit < 2 ^ 5 :=
        fun digit listed => small digit (List.mem_reverse.mp listed)
      rw [encode, ofBytes_toBytes fits, length_toBytes, ← sized, counted,
        cut_joinGroups 0 smallReverse, ← List.map_reverse, List.reverse_reverse]
      exact spelled
    · cases decoded
  · rintro rfl
    -- the number is put together again from all of its digits
    have read : digitsOf (encode bytes) = some ((groupShifts 5 (symbolCount bytes.length)).map
        (fun shift => ofBytes bytes >>> shift % 2 ^ 5)).reverse := by
      apply (digitsOf_iff _ _).mpr
      constructor
      · intro digit listed
        obtain ⟨shift, _, rfl⟩ := List.mem_map.mp (List.mem_reverse.mp listed)
        exact Nat.mod_lt _ (by decide)
      · rw [encode, List.map_reverse]
    have fits := ofBytes_lt bytes
    have enough : ofBytes bytes < 2 ^ (5 * symbolCount bytes.length) := by
      apply Nat.lt_of_lt_of_le fits (Nat.pow_le_pow_right (by decide) _)
      rw [symbolCount]
      omega
    have count : symbolCount bytes.length * 5 / 8 = bytes.length := by
      rw [symbolCount]
      omega
    rw [decode, read]
    dsimp only
    rw [List.reverse_reverse, joinGroups_cut, Nat.zero_mul, Nat.zero_add, Nat.mod_eq_of_lt enough,
      length_encode, count, if_pos ⟨rfl, fits⟩, toBytes_ofBytes]

end Rust.Base32
