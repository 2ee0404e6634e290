import Mathlib.Tactic.SplitIfs
import RouteServer.Rust.Utf8

/-!
# Base 64 without padding

Three bytes are four digits of six bits, the most significant bits first. One byte or two may be
left over at the end. They are spelled by two digits or three, and the bits that no byte has are
zero. Decoding insists on that, so exactly the encodings are decoded.
-/

namespace Rust.Base64

/-- The digits of the standard alphabet. -/
def symbols : Text := "ABCDEFGHIJKLMNOPQRSTUVWXYZabcdefghijklmnopqrstuvwxyz0123456789+/".toList

/-- The symbol of a digit. -/
def symbolOf (digit : Nat) : Char := symbols.getD digit 'A'

/-- The digit of a symbol. -/
def digitOf (symbol : Char) : Option Nat := symbols.findIdx? (· == symbol)

/-- `STANDARD_NO_PAD.encode`. -/
def encode : List UInt8 → Text
  | first :: second :: third :: rest =>
    symbolOf (first.toNat / 4) :: symbolOf (first.toNat % 4 * 16 + second.toNat / 16) ::
      symbolOf (second.toNat % 16 * 4 + third.toNat / 64) :: symbolOf (third.toNat % 64) ::
        encode rest
  | [first, second] =>
    [symbolOf (first.toNat / 4), symbolOf (first.toNat % 4 * 16 + second.toNat / 16),
      symbolOf (second.toNat % 16 * 4)]
  | [first] => [symbolOf (first.toNat / 4), symbolOf (first.toNat % 4 * 16)]
  | [] => []

/-- `STANDARD_NO_PAD.decode`. -/
def decode : Text → Option (List UInt8)
  | first :: second :: third :: fourth :: rest => do
    let w ← digitOf first
    let x ← digitOf second
    let y ← digitOf third
    let z ← digitOf fourth
    let bytes ← decode rest
    return UInt8.ofNat (w * 4 + x / 16) :: UInt8.ofNat (x % 16 * 16 + y / 4) ::
      UInt8.ofNat (y % 4 * 64 + z) :: bytes
  | [first, second, third] => do
    let w ← digitOf first
    let x ← digitOf second
    let y ← digitOf third
    if y % 4 = 0 then
      return [UInt8.ofNat (w * 4 + x / 16), UInt8.ofNat (x % 16 * 16 + y / 4)]
    else none
  | [first, second] => do
    let w ← digitOf first
    let x ← digitOf second
    if x % 16 = 0 then return [UInt8.ofNat (w * 4 + x / 16)] else none
  | [_] => none
  | [] => some []

/-- A digit is read back from its symbol. -/
theorem digitOf_symbolOf : ∀ digit < 64, digitOf (symbolOf digit) = some digit := by
  decide

/-- A symbol is that of its digit. -/
theorem symbolOf_digitOf {symbol : Char} {digit : Nat} (found : digitOf symbol = some digit) :
    digit < 64 ∧ symbolOf digit = symbol := by
  obtain ⟨bound, same, _⟩ := List.findIdx?_eq_some_iff_getElem.mp found
  refine ⟨bound, ?_⟩
  rw [symbolOf, List.getD_eq_getElem?_getD, List.getElem?_eq_getElem bound]
  exact eq_of_beq same

/-- What is encoded is decoded.

Proof: by the recursion of the encoder, three bytes at a time, with one case for each number of
bytes left at the end. -/
theorem decode_encode (bytes : List UInt8) : decode (encode bytes) = some bytes := by
  have digit (number : Nat) (small : number < 64) := digitOf_symbolOf number small
  fun_induction encode bytes with
  | case1 first second third rest inductionHypothesis =>
    have low := first.toNat_lt
    have middle := second.toNat_lt
    have high := third.toNat_lt
    simp only [decode, inductionHypothesis, digit _ (show first.toNat / 4 < 64 by omega),
      digit _ (show first.toNat % 4 * 16 + second.toNat / 16 < 64 by omega),
      digit _ (show second.toNat % 16 * 4 + third.toNat / 64 < 64 by omega),
      digit _ (show third.toNat % 64 < 64 by omega), Option.bind_eq_bind, Option.bind_some]
    rw [show first.toNat / 4 * 4 + (first.toNat % 4 * 16 + second.toNat / 16) / 16 = first.toNat
        by omega,
      show (first.toNat % 4 * 16 + second.toNat / 16) % 16 * 16 +
        (second.toNat % 16 * 4 + third.toNat / 64) / 4 = second.toNat by omega,
      show (second.toNat % 16 * 4 + third.toNat / 64) % 4 * 64 + third.toNat % 64 = third.toNat
        by omega]
    simp
  | case2 first second =>
    have low := first.toNat_lt
    have middle := second.toNat_lt
    simp only [decode, digit _ (show first.toNat / 4 < 64 by omega),
      digit _ (show first.toNat % 4 * 16 + second.toNat / 16 < 64 by omega),
      digit _ (show second.toNat % 16 * 4 < 64 by omega), Option.bind_eq_bind, Option.bind_some]
    rw [if_pos (by omega),
      show first.toNat / 4 * 4 + (first.toNat % 4 * 16 + second.toNat / 16) / 16 = first.toNat
        by omega,
      show (first.toNat % 4 * 16 + second.toNat / 16) % 16 * 16 + second.toNat % 16 * 4 / 4 =
        second.toNat by omega]
    simp
  | case3 first =>
    have low := first.toNat_lt
    simp only [decode, digit _ (show first.toNat / 4 < 64 by omega),
      digit _ (show first.toNat % 4 * 16 < 64 by omega), Option.bind_eq_bind, Option.bind_some]
    rw [if_pos (by omega),
      show first.toNat / 4 * 4 + first.toNat % 4 * 16 / 16 = first.toNat by omega]
    simp
  | case4 => rfl

/-- Exactly the encodings are decoded.

Proof: forwards by the recursion of the decoder, four symbols at a time; each symbol is that of
its digit, and the bits that padding leaves over are zero. -/
theorem decode_iff (text : Text) (bytes : List UInt8) :
    decode text = some bytes ↔ text = encode bytes := by
  constructor
  · intro decoded
    fun_induction decode text generalizing bytes with
    | case1 first second third fourth rest inductionHypothesis =>
      simp only [Option.bind_eq_bind, Option.bind_eq_some_iff, Option.pure_def] at decoded
      obtain ⟨w, isW, x, isX, y, isY, z, isZ, others, tail, whole⟩ := decoded
      cases whole
      obtain ⟨smallW, rfl⟩ := symbolOf_digitOf isW
      obtain ⟨smallX, rfl⟩ := symbolOf_digitOf isX
      obtain ⟨smallY, rfl⟩ := symbolOf_digitOf isY
      obtain ⟨smallZ, rfl⟩ := symbolOf_digitOf isZ
      rw [inductionHypothesis others tail, encode,
        UInt8.toNat_ofNat_of_lt' (show w * 4 + x / 16 < 256 by omega),
        UInt8.toNat_ofNat_of_lt' (show x % 16 * 16 + y / 4 < 256 by omega),
        UInt8.toNat_ofNat_of_lt' (show y % 4 * 64 + z < 256 by omega),
        show (w * 4 + x / 16) / 4 = w by omega,
        show (w * 4 + x / 16) % 4 * 16 + (x % 16 * 16 + y / 4) / 16 = x by omega,
        show (x % 16 * 16 + y / 4) % 16 * 4 + (y % 4 * 64 + z) / 64 = y by omega,
        show (y % 4 * 64 + z) % 64 = z by omega]
    | case2 first second third =>
      simp only [Option.bind_eq_bind, Option.bind_eq_some_iff, Option.pure_def] at decoded
      obtain ⟨w, isW, x, isX, y, isY, whole⟩ := decoded
      split_ifs at whole with aligned
      cases whole
      obtain ⟨smallW, rfl⟩ := symbolOf_digitOf isW
      obtain ⟨smallX, rfl⟩ := symbolOf_digitOf isX
      obtain ⟨smallY, rfl⟩ := symbolOf_digitOf isY
      rw [encode, UInt8.toNat_ofNat_of_lt' (show w * 4 + x / 16 < 256 by omega),
        UInt8.toNat_ofNat_of_lt' (show x % 16 * 16 + y / 4 < 256 by omega),
        show (w * 4 + x / 16) / 4 = w by omega,
        show (w * 4 + x / 16) % 4 * 16 + (x % 16 * 16 + y / 4) / 16 = x by omega,
        show (x % 16 * 16 + y / 4) % 16 * 4 = y by omega]
    | case3 first second =>
      simp only [Option.bind_eq_bind, Option.bind_eq_some_iff, Option.pure_def] at decoded
      obtain ⟨w, isW, x, isX, whole⟩ := decoded
      split_ifs at whole with aligned
      cases whole
      obtain ⟨smallW, rfl⟩ := symbolOf_digitOf isW
      obtain ⟨smallX, rfl⟩ := symbolOf_digitOf isX
      rw [encode, UInt8.toNat_ofNat_of_lt' (show w * 4 + x / 16 < 256 by omega),
        show (w * 4 + x / 16) / 4 = w by omega,
        show (w * 4 + x / 16) % 4 * 16 = x by omega]
    | case4 => cases decoded
    | case5 =>
      cases decoded
      rfl
  · rintro rfl
    exact decode_encode bytes

/-- Three bytes make four symbols, and what is left over as many as it needs. -/
theorem length_encode (bytes : List UInt8) :
    (encode bytes).length = (4 * bytes.length + 2) / 3 := by
  fun_induction encode bytes with
  | case1 first second third rest inductionHypothesis =>
    simp only [List.length_cons, inductionHypothesis]
    omega
  | case2 => simp only [List.length_cons, List.length_nil]
  | case3 => simp only [List.length_cons, List.length_nil]
  | case4 => simp only [List.length_nil]

/-- A digit is written as one of the symbols. -/
theorem symbolOf_mem (digit : Nat) : symbolOf digit ∈ symbols := by
  by_cases small : digit < symbols.length
  · rw [symbolOf, List.getD_eq_getElem?_getD, List.getElem?_eq_getElem small]
    exact List.getElem_mem small
  · rw [symbolOf, List.getD_eq_getElem?_getD, List.getElem?_eq_none (Nat.not_lt.mp small)]
    exact List.mem_cons_self

/-- Nothing but symbols is written. -/
theorem mem_symbols {bytes : List UInt8} {c : Char} (listed : c ∈ encode bytes) :
    c ∈ symbols := by
  fun_induction encode bytes with
  | case1 first second third rest inductionHypothesis =>
    simp only [List.mem_cons] at listed
    rcases listed with rfl | rfl | rfl | rfl | others
    · exact symbolOf_mem _
    · exact symbolOf_mem _
    · exact symbolOf_mem _
    · exact symbolOf_mem _
    · exact inductionHypothesis others
  | case2 =>
    simp only [List.mem_cons, List.not_mem_nil, or_false] at listed
    rcases listed with rfl | rfl | rfl <;> exact symbolOf_mem _
  | case3 =>
    simp only [List.mem_cons, List.not_mem_nil, or_false] at listed
    rcases listed with rfl | rfl <;> exact symbolOf_mem _
  | case4 => cases listed

end Rust.Base64
