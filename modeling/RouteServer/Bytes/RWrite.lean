import RouteServer.Bytes.Message
import RouteServer.Rust.BigEndian

/-!
# Writing in front

A writer that counts its bytes, as the trait `RWrite` asks for, and what is built on its
one call that may write a part only: writing all of a buffer, numbers of a fixed size and
numbers of variable length. A writer that prepends puts the whole buffer in front of what
it holds. On such a writer the parts of a value are written last part first, and numbers
of variable length follow their marker although it is written after them.
-/

namespace RouteServer.Bytes

open Rust

/-- The errors of readers and writers. -/
inductive IoError where
  | writeZero
  | unexpectedEof
deriving DecidableEq

/-- The trait `RWrite`, with the `write` of the trait `Write`. -/
class RWrite (σ : Type) where
  write : σ → List UInt8 → Outcome IoError (Nat × σ)
  len : σ → Nat

instance : RWrite Message where
  write := Message.write
  len := Message.len

section

variable {σ : Type} [RWrite σ]

/-- `Write::write_all`: write until nothing is left. A count beyond the buffer panics. -/
def writeAll (w : σ) (buf : List UInt8) : Outcome IoError σ :=
  if _nonempty : buf ≠ [] then
    match RWrite.write w buf with
    | .ok (0, _) => .err .writeZero
    | .ok (count + 1, next) =>
      if count + 1 ≤ buf.length then writeAll next (buf.drop (count + 1)) else .panicked
    | .err fault => .err fault
    | .panicked => .panicked
  else .ok w
termination_by buf.length
decreasing_by
  have := List.length_pos_iff.mpr _nonempty
  rw [List.length_drop]
  omega

/-- `write_u8`. -/
def writeU8 (w : σ) (value : UInt8) : Outcome IoError σ := writeAll w [value]

/-- `write_u16::<BE>` and its siblings, at the given number of bytes. -/
def writeBe (count : Nat) (w : σ) (value : Nat) : Outcome IoError σ :=
  writeAll w (toBe count value)

/-- `write_var_int`. -/
def writeVarInt (t : Nat) (w : σ) : Outcome IoError σ :=
  if t > 0xffffffff then do
    let w ← writeBe 8 w t
    writeU8 w 0xff
  else if t > 0xffff then do
    let w ← writeBe 4 w t
    writeU8 w 0xfe
  else if t > 0xfc then do
    let w ← writeBe 2 w t
    writeU8 w 0xfd
  else writeU8 w (UInt8.ofNat t)

/-- A writer that holds bytes, puts whole buffers in front of them and counts them. -/
structure Prepends (holds : σ → List UInt8 → Prop) : Prop where
  write : ∀ {w : σ} {bytes : List UInt8}, holds w bytes → ∀ buf,
    ∃ next, RWrite.write w buf = .ok (buf.length, next) ∧ holds next (buf ++ bytes)
  len : ∀ {w : σ} {bytes : List UInt8}, holds w bytes → RWrite.len w = bytes.length

end

/-- A message prepends. -/
theorem message_prepends : Prepends Message.Holds where
  write := Message.write_spec
  len := Message.Holds.len

/-- A number of variable length: a marker and the number, or a single byte. -/
def varInt (t : Nat) : List UInt8 :=
  if t > 0xffffffff then 0xff :: toBe 8 t
  else if t > 0xffff then 0xfe :: toBe 4 t
  else if t > 0xfc then 0xfd :: toBe 2 t
  else [UInt8.ofNat t]

/-- A number after its marker is read back. -/
theorem readMarked_append {width count t : Nat} (fits : t < 256 ^ count) (small : t < 2 ^ width)
    (marker : UInt8) (rest : List UInt8) :
    readMarked width count marker (toBe count t ++ rest) = .ok (t, rest) := by
  simp only [readMarked, readBe_append fits, if_pos small]

/-- A number that fits the type is read back, whatever follows. -/
theorem readVarInt_varInt {width t : Nat} (long : t < 2 ^ 64) (small : t < 2 ^ width)
    (rest : List UInt8) : readVarInt width (varInt t ++ rest) = .ok (t, rest) := by
  rw [varInt]
  split
  · exact readMarked_append (show t < 256 ^ 8 by omega) small 0xff rest
  · split
    · exact readMarked_append (show t < 256 ^ 4 by omega) small 0xfe rest
    · split
      · exact readMarked_append (show t < 256 ^ 2 by omega) small 0xfd rest
      · have spelled : (UInt8.ofNat t).toNat = t := by
          rw [UInt8.toNat_ofNat']
          omega
        have unmarked : ∀ marker : UInt8, 0xfc < marker.toNat → UInt8.ofNat t ≠ marker := by
          rintro marker above rfl
          omega
        rw [List.singleton_append, readVarInt, if_neg (unmarked 0xff (by decide)),
          if_neg (unmarked 0xfe (by decide)), if_neg (unmarked 0xfd (by decide)), spelled]

section

variable {σ : Type} [RWrite σ] {holds : σ → List UInt8 → Prop} {w : σ} {bytes : List UInt8}

/-- Bytes are put before what there is. -/
theorem Prepends.writeAll (prepends : Prepends holds) (held : holds w bytes)
    (buf : List UInt8) : ∃ next, writeAll w buf = .ok next ∧ holds next (buf ++ bytes) := by
  by_cases empty : buf = []
  · subst empty
    exact ⟨w, by rw [Bytes.writeAll]; rfl, held⟩
  · obtain ⟨next, written, holdsAll⟩ := prepends.write held buf
    refine ⟨next, ?_, holdsAll⟩
    cases sized : buf.length with
    | zero => exact absurd (List.eq_nil_of_length_eq_zero sized) empty
    | succ count =>
      -- the one call wrote everything, so the loop ends
      rw [Bytes.writeAll, dif_pos empty, written, sized]
      simp only [Nat.le_refl, if_true]
      rw [← sized, List.drop_length, Bytes.writeAll]
      rfl

/-- What is written after a number of a fixed size stands in front of it. -/
theorem Prepends.writeMarked (prepends : Prepends holds) (held : holds w bytes)
    (count t : Nat) (marker : UInt8) :
    ∃ next, (writeBe count w t >>= fun w => writeU8 w marker) = .ok next ∧
      holds next (marker :: toBe count t ++ bytes) := by
  obtain ⟨middle, number, holdsNumber⟩ := prepends.writeAll held (toBe count t)
  obtain ⟨next, marked, holdsAll⟩ := prepends.writeAll holdsNumber [marker]
  refine ⟨next, ?_, holdsAll⟩
  rw [writeBe, number]
  exact marked

/-- A number is put before what there is, its bytes and then its marker. -/
theorem Prepends.writeVarInt (prepends : Prepends holds) (held : holds w bytes) (t : Nat) :
    ∃ next, writeVarInt t w = .ok next ∧ holds next (varInt t ++ bytes) := by
  rw [Bytes.writeVarInt, varInt]
  split
  · exact prepends.writeMarked held 8 t 0xff
  · split
    · exact prepends.writeMarked held 4 t 0xfe
    · split
      · exact prepends.writeMarked held 2 t 0xfd
      · exact prepends.writeAll held [UInt8.ofNat t]

end

end RouteServer.Bytes
