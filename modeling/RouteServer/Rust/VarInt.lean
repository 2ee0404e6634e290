import Mathlib.Tactic.SplitIfs
import RouteServer.Rust.Reader

/-!
# Encodings of variable-length numbers

A number has as many encodings as there are markers whose bytes are enough for it, and none
of them is preferred. A reader takes exactly one encoding off its front, of a number that
the type asked for holds.
-/

namespace Rust

/-- The markers, and how many bytes follow each. -/
def Marks (marker : UInt8) (count : Nat) : Prop :=
  marker = 0xff ∧ count = 8 ∨ marker = 0xfe ∧ count = 4 ∨ marker = 0xfd ∧ count = 2

/-- The bytes of a number, in a type of the given width of at least eight bits. -/
inductive VarInt (width : Nat) : Nat → List UInt8 → Prop
  | single {byte : UInt8} (plain : ∀ count, ¬Marks byte count) : VarInt width byte.toNat [byte]
  | marked {marker : UInt8} {bytes : List UInt8} (marks : Marks marker bytes.length)
      (fits : bigEndian bytes < 2 ^ width) : VarInt width (bigEndian bytes) (marker :: bytes)

/-- A slice is read exactly where as many bytes stand in front. -/
theorem readSlice_some_iff (count : Nat) (reader bytes rest : List UInt8) :
    readSlice count reader = some (bytes, rest) ↔
      bytes.length = count ∧ reader = bytes ++ rest := by
  rw [readSlice]
  constructor
  · intro read
    split_ifs at read with enough
    cases read
    exact ⟨List.length_take_of_le enough, (List.take_append_drop count reader).symm⟩
  · rintro ⟨rfl, rfl⟩
    rw [if_pos (by rw [List.length_append]; omega), List.take_left, List.drop_left]

/-- A marked number is read where its bytes stand in front and it fits. -/
theorem readMarked_ok_iff (width count : Nat) (marker : UInt8) (reader rest : List UInt8)
    (value : Nat) : readMarked width count marker reader = .ok (value, rest) ↔
      ∃ bytes : List UInt8, bytes.length = count ∧ reader = bytes ++ rest ∧
        value = bigEndian bytes ∧ value < 2 ^ width := by
  rw [readMarked, readBe]
  cases read : readSlice count reader with
  | none =>
    refine iff_of_false (fun same => by cases same) ?_
    rintro ⟨bytes, sized, whole, -⟩
    rw [(readSlice_some_iff count reader bytes rest).mpr ⟨sized, whole⟩] at read
    cases read
  | some found =>
    obtain ⟨bytes, left⟩ := found
    obtain ⟨sized, whole⟩ := (readSlice_some_iff _ _ _ _).mp read
    rw [Option.map_some]
    dsimp only
    constructor
    · intro ok
      split_ifs at ok with fits
      cases ok
      exact ⟨bytes, sized, whole, rfl, fits⟩
    · rintro ⟨others, otherSized, otherWhole, rfl, fits⟩
      obtain ⟨rfl, rfl⟩ :=
        List.append_inj (whole.symm.trans otherWhole) (sized.trans otherSized.symm)
      rw [if_pos fits]

/-- What is read is an encoding of the number, and nothing else.

Proof: by the first byte. Each marker has its own number of bytes, so the byte decides which
encoding it can be. -/
theorem readVarInt_ok_iff (width : Nat) (reader rest : List UInt8) (value : Nat) :
    readVarInt width reader = .ok (value, rest) ↔
      ∃ bytes, VarInt width value bytes ∧ reader = bytes ++ rest := by
  have marked (marker : UInt8) (count : Nat) (tail : List UInt8) (marks : Marks marker count) :
      readMarked width count marker tail = .ok (value, rest) ↔
        ∃ bytes, VarInt width value bytes ∧ marker :: tail = bytes ++ rest := by
    rw [readMarked_ok_iff]
    constructor
    · rintro ⟨bytes, rfl, rfl, rfl, fits⟩
      exact ⟨marker :: bytes, .marked marks fits, rfl⟩
    · rintro ⟨_, encoding, whole⟩
      cases encoding with
      | single plain =>
        cases whole
        exact absurd marks (plain count)
      | @marked other bytes otherMarks fits =>
        obtain ⟨rfl, rfl⟩ := List.cons.inj whole
        refine ⟨bytes, ?_, rfl, rfl, fits⟩
        rcases marks with ⟨rfl, rfl⟩ | ⟨rfl, rfl⟩ | ⟨rfl, rfl⟩ <;>
          rcases otherMarks with ⟨same, sized⟩ | ⟨same, sized⟩ | ⟨same, sized⟩ <;>
          first
            | exact sized
            | cases same
  cases reader with
  | nil =>
    refine iff_of_false (fun same => by cases same) ?_
    rintro ⟨_, encoding, whole⟩
    cases encoding <;> cases whole
  | cons byte tail =>
    rw [readVarInt]
    split_ifs with eight four two
    · exact marked byte 8 tail (Or.inl ⟨eight, rfl⟩)
    · exact marked byte 4 tail (Or.inr (Or.inl ⟨four, rfl⟩))
    · exact marked byte 2 tail (Or.inr (Or.inr ⟨two, rfl⟩))
    · have plain : ∀ count, ¬Marks byte count := by
        rintro count (⟨same, -⟩ | ⟨same, -⟩ | ⟨same, -⟩)
        · exact eight same
        · exact four same
        · exact two same
      constructor
      · intro ok
        cases ok
        exact ⟨[byte], .single plain, rfl⟩
      · rintro ⟨_, encoding, whole⟩
        cases encoding with
        | single => cases whole; rfl
        | marked marks =>
          obtain ⟨rfl, -⟩ := List.cons.inj whole
          exact absurd marks (plain _)

/-- A number that is encoded fits the type. -/
theorem VarInt.lt {width value : Nat} {bytes : List UInt8} (encoding : VarInt width value bytes)
    (wide : 8 ≤ width) : value < 2 ^ width := by
  cases encoding with
  | single => exact Nat.lt_of_lt_of_le (UInt8.toNat_lt _) (Nat.pow_le_pow_right (by decide) wide)
  | marked marks fits => exact fits

/-- A number takes at least one byte. -/
theorem VarInt.ne_nil {width value : Nat} {bytes : List UInt8}
    (encoding : VarInt width value bytes) : bytes ≠ [] := by
  cases encoding <;> exact List.cons_ne_nil _ _

end Rust
