import Mathlib.Tactic.SplitIfs
import RouteServer.Bytes.RWrite
import RouteServer.Rust.VarInt

/-!
# Reading from the front

A reader fills a part of a buffer at each call, and what is built on this call: filling all
of a buffer, numbers of a fixed size and numbers of variable length. The law is about every
reader that supplies the bytes it holds in their order, at least one at a time and none
once it is empty. A message is such a reader, and so is a slice. On all of them numbers of
variable length are read as they are off a list of bytes.
-/

namespace RouteServer.Bytes

open Rust

/-- The trait `Read`: the number of bytes read, the buffer they are put into, and the reader
after the call. -/
class Read (σ : Type) where
  read : σ → List UInt8 → Outcome IoError (Nat × List UInt8 × σ)

instance : Read Message where
  read := Message.read

/-- `Read` for `Reader`, which is the bytes it has left. -/
instance : Read (List UInt8) where
  read r buf :=
    let count := min buf.length r.length
    .ok (count, r.take count ++ buf.drop count, r.drop count)

/-- The types of numbers of variable length. -/
inductive VarIntType where
  | u8
  | u16
  | u32
  | u64

/-- The bits of a type. -/
def VarIntType.bits : VarIntType → Nat
  | .u8 => 8
  | .u16 => 16
  | .u32 => 32
  | .u64 => 64

/-- The narrowest type has eight bits. -/
theorem VarIntType.bits_ge (type : VarIntType) : 8 ≤ type.bits := by
  cases type <;> decide

/-- The widest type has sixty-four bits. -/
theorem VarIntType.bits_le (type : VarIntType) : type.bits ≤ 64 := by
  cases type <;> decide

namespace Read

section

variable {σ : Type} [Read σ]

/-- `Read::read_exact`: read until the buffer is full. A slice keeps its length, and a count
beyond it panics. -/
def readExact (r : σ) (buf : List UInt8) : Outcome IoError (List UInt8 × σ) :=
  if _nonempty : buf ≠ [] then
    match Read.read r buf with
    | .ok (0, _, _) => .err .unexpectedEof
    | .ok (count + 1, filled, next) =>
      if _within : count + 1 ≤ buf.length ∧ filled.length = buf.length then do
        let (behind, last) ← readExact next (filled.drop (count + 1))
        return (filled.take (count + 1) ++ behind, last)
      else .panicked
    | .err fault => .err fault
    | .panicked => .panicked
  else .ok ([], r)
termination_by buf.length
decreasing_by
  rw [List.length_drop]
  omega

/-- `read_u8`. -/
def readU8 (r : σ) : Outcome IoError (UInt8 × σ) := do
  let (bytes, next) ← readExact r [0]
  match bytes with
  | byte :: _ => return (byte, next)
  | [] => .panicked

/-- `read_u16::<BE>` and its siblings, at the given number of bytes. -/
def readBe (count : Nat) (r : σ) : Outcome IoError (Nat × σ) := do
  let (bytes, next) ← readExact r (List.replicate count 0)
  return (bigEndian bytes, next)

/-- The branch of `read_var_int` for a marker before some bytes. -/
def readMarked (type : VarIntType) (count : Nat) (marker : UInt8) (r : σ) :
    Outcome VarIntError (Nat × σ) := do
  let (value, next) ← (readBe count r).mapErr (fun _ => .malformedEncoding count marker)
  if value < 2 ^ type.bits then .ok (value, next)
  else .err (.valueTooBig value type.bits (8 * count))

/-- `read_var_int`. A byte that is not a marker is converted as it is; that this cannot fail
is asserted. -/
def readVarInt (type : VarIntType) (r : σ) : Outcome VarIntError (Nat × σ) := do
  let (byte, next) ← (readU8 r).mapErr (fun _ => .unexpectedEndOfData)
  if byte = 0xff then readMarked type 8 byte next
  else if byte = 0xfe then readMarked type 4 byte next
  else if byte = 0xfd then readMarked type 2 byte next
  else if byte.toNat < 2 ^ type.bits then .ok (byte.toNat, next) else .panicked

/-- A reader that supplies the bytes it holds: a call puts the next ones into the buffer,
one at least if there are any. -/
structure Supplies (holds : σ → List UInt8 → Prop) : Prop where
  read : ∀ {r : σ} {bytes : List UInt8}, holds r bytes → ∀ buf, ∃ count filled next,
    Read.read r buf = .ok (count, filled, next) ∧ count ≤ buf.length ∧ count ≤ bytes.length ∧
      (buf ≠ [] → bytes ≠ [] → 0 < count) ∧ filled.length = buf.length ∧
      filled.take count = bytes.take count ∧ holds next (bytes.drop count)

end

/-- A message supplies its bytes. -/
theorem message_supplies : Supplies Message.Holds where
  read := by
    intro message bytes held buf
    obtain ⟨chunks, spareChunks, done, left⟩ := Message.readLoop_spec (ε := IoError) held buf
    refine ⟨min buf.length bytes.length, bytes.take buf.length ++ buf.drop bytes.length,
      { message with chunks, spareChunks }, ?_, Nat.min_le_left _ _, Nat.min_le_right _ _,
      ?_, ?_, ?_, ?_⟩
    · show Message.read message buf = _
      rw [Message.read, done]
      rfl
    · intro room some
      have := List.length_pos_iff.mpr room
      have := List.length_pos_iff.mpr some
      omega
    · rw [List.length_append, List.length_take, List.length_drop]
      omega
    · have whole : min buf.length bytes.length ≤ (bytes.take buf.length).length :=
        Nat.le_of_eq List.length_take.symm
      rw [List.take_append_of_le_length whole, List.take_take]
      congr 1
      omega
    · rcases Nat.le_total buf.length bytes.length with enough | short
      · rwa [Nat.min_eq_left enough]
      · rw [Nat.min_eq_right short, List.drop_length]
        rwa [List.drop_of_length_le short] at left

/-- A slice supplies its bytes. -/
theorem slice_supplies : Supplies (fun r bytes : List UInt8 => r = bytes) where
  read := by
    rintro bytes _ rfl buf
    refine ⟨min buf.length bytes.length, _, _, rfl, Nat.min_le_left _ _, Nat.min_le_right _ _,
      ?_, ?_, ?_, rfl⟩
    · intro room some
      have := List.length_pos_iff.mpr room
      have := List.length_pos_iff.mpr some
      omega
    · rw [List.length_append, List.length_take, List.length_drop]
      omega
    · exact List.take_left' (by rw [List.length_take]; omega)

section

variable {σ : Type} [Read σ] {holds : σ → List UInt8 → Prop} {r : σ} {bytes : List UInt8}

/-- A buffer is filled with the next bytes if there are enough of them.

Proof: strong induction on the room in the buffer. One call fills some of it, and makes progress
as long as there are bytes. -/
theorem Supplies.readExact (supplies : Supplies holds) (held : holds r bytes)
    (buf : List UInt8) (enough : buf.length ≤ bytes.length) :
    ∃ next, readExact r buf = .ok (bytes.take buf.length, next) ∧
      holds next (bytes.drop buf.length) := by
  induction sized : buf.length using Nat.strongRecOn generalizing buf r bytes with
  | ind size inductionHypothesis =>
    subst sized
    rw [Read.readExact]
    split
    · next nonempty =>
      obtain ⟨count, filled, next, done, within, _, progress, kept, front, left⟩ :=
        supplies.read held buf
      have room := List.length_pos_iff.mpr nonempty
      have some : bytes ≠ [] := List.length_pos_iff.mp (by omega)
      have positive := progress nonempty some
      cases count with
      | zero => exact absurd positive (Nat.lt_irrefl 0)
      | succ count =>
        have behind : (filled.drop (count + 1)).length = buf.length - (count + 1) := by
          rw [List.length_drop, kept]
        obtain ⟨last, rest, after⟩ := inductionHypothesis _ (by omega) left
          (filled.drop (count + 1)) (by rw [behind, List.length_drop]; omega) behind
        rw [List.drop_drop, show count + 1 + (buf.length - (count + 1)) = buf.length by omega]
          at after
        refine ⟨last, ?_, after⟩
        simp only [done, dif_pos (And.intro within kept), rest, Outcome.ok_bind,
          Outcome.pure_def]
        rw [front, ← List.take_add, show count + 1 + (buf.length - (count + 1)) = buf.length by
          omega]
    · next empty =>
      obtain rfl : buf = [] := not_not.mp empty
      exact ⟨r, rfl, held⟩

/-- A buffer that is longer than what is left cannot be filled. -/
theorem Supplies.readExact_short (supplies : Supplies holds) (held : holds r bytes)
    (buf : List UInt8) (short : bytes.length < buf.length) :
    Read.readExact r buf = .err .unexpectedEof := by
  induction sized : buf.length using Nat.strongRecOn generalizing buf r bytes with
  | ind size inductionHypothesis =>
    subst sized
    have nonempty : buf ≠ [] := List.length_pos_iff.mp (by omega)
    obtain ⟨count, filled, next, done, within, _, _, kept, _, left⟩ := supplies.read held buf
    rw [Read.readExact, dif_pos nonempty]
    cases count with
    | zero => simp only [done]
    | succ count =>
      have rest := inductionHypothesis _ (by rw [List.length_drop]; omega) left
        (filled.drop (count + 1)) (by rw [List.length_drop, List.length_drop]; omega) rfl
      simp only [done, dif_pos (And.intro within kept), rest, Outcome.err_bind]

/-- Nothing is read from a reader that has nothing left. -/
theorem Supplies.readU8_nil (supplies : Supplies holds) (held : holds r []) :
    readU8 r = .err .unexpectedEof := by
  have short := supplies.readExact_short held [0] (Nat.lt_succ_self 0)
  rw [readU8, short, Outcome.err_bind]

/-- A byte is read where one is left. -/
theorem Supplies.readU8_cons (supplies : Supplies holds) {byte : UInt8} {rest : List UInt8}
    (held : holds r (byte :: rest)) : ∃ next, readU8 r = .ok (byte, next) ∧ holds next rest := by
  obtain ⟨next, done, left⟩ := supplies.readExact held [0] (Nat.succ_pos _)
  exact ⟨next, by rw [readU8, done]; rfl, left⟩

/-- A number is read where enough bytes are left. -/
theorem Supplies.readBe (supplies : Supplies holds) (held : holds r bytes) {count : Nat}
    (enough : count ≤ bytes.length) :
    ∃ next, readBe count r = .ok (bigEndian (bytes.take count), next) ∧
      holds next (bytes.drop count) := by
  have sized : (List.replicate count (0 : UInt8)).length = count := List.length_replicate
  obtain ⟨next, done, left⟩ := supplies.readExact held (List.replicate count 0)
    (by rwa [sized])
  rw [sized] at done left
  exact ⟨next, by rw [Read.readBe, done]; rfl, left⟩

/-- A number is refused where too few bytes are left. -/
theorem Supplies.readBe_short (supplies : Supplies holds) (held : holds r bytes) {count : Nat}
    (short : bytes.length < count) : Read.readBe count r = .err .unexpectedEof := by
  rw [Read.readBe, supplies.readExact_short held (List.replicate count 0)
    (by rwa [List.length_replicate]),
    Outcome.err_bind]

/-- A reader reads what is read off the list of bytes that it holds. -/
inductive Agrees (holds : σ → List UInt8 → Prop) :
    Outcome VarIntError (Nat × σ) → Except VarIntError (Nat × List UInt8) → Prop
  | ok {value : Nat} {next : σ} {rest : List UInt8} (left : holds next rest) :
      Agrees holds (.ok (value, next)) (.ok (value, rest))
  | err (fault : VarIntError) : Agrees holds (.err fault) (.error fault)

/-- A marked number is read as from the bytes that are left. -/
theorem Supplies.readMarked (supplies : Supplies holds) (held : holds r bytes)
    (type : VarIntType) (count : Nat) (marker : UInt8) :
    Agrees holds (readMarked type count marker r)
      (Rust.readMarked type.bits count marker bytes) := by
  rw [Read.readMarked, Rust.readMarked, Rust.readBe, readSlice]
  by_cases enough : count ≤ bytes.length
  · obtain ⟨next, done, left⟩ := supplies.readBe held enough
    rw [done, if_pos enough]
    simp only [Outcome.mapErr, Outcome.ok_bind, Option.map_some]
    split_ifs
    · exact .ok left
    · exact .err _
  · rw [supplies.readBe_short held (Nat.lt_of_not_le enough), if_neg enough]
    exact .err _

/-- Numbers of variable length are read as off a list. -/
theorem Supplies.readVarInt (supplies : Supplies holds) (held : holds r bytes)
    (type : VarIntType) :
    Agrees holds (readVarInt type r) (Rust.readVarInt type.bits bytes) := by
  rw [Read.readVarInt]
  cases bytes with
  | nil =>
    rw [supplies.readU8_nil held]
    exact .err _
  | cons byte rest =>
    obtain ⟨next, done, left⟩ := supplies.readU8_cons held
    have fits : byte.toNat < 2 ^ type.bits :=
      Nat.lt_of_lt_of_le byte.toNat_lt (Nat.pow_le_pow_right (by decide) type.bits_ge)
    rw [done, Rust.readVarInt]
    simp only [Outcome.mapErr, Outcome.ok_bind, fits, if_true]
    split_ifs
    · exact supplies.readMarked left type 8 byte
    · exact supplies.readMarked left type 4 byte
    · exact supplies.readMarked left type 2 byte
    · exact .ok left

/-- What is read from the bytes is read from their reader, which has the same bytes left. -/
theorem Supplies.readVarInt_of_ok (supplies : Supplies holds) (held : holds r bytes)
    {type : VarIntType} {value : Nat} {rest : List UInt8}
    (read : Rust.readVarInt type.bits bytes = .ok (value, rest)) :
    ∃ next, Read.readVarInt type r = .ok (value, next) ∧ holds next rest := by
  have agrees := supplies.readVarInt held type
  rw [read] at agrees
  generalize Read.readVarInt type r = outcome at agrees
  cases agrees with
  | ok left => exact ⟨_, rfl, left⟩

/-- What is refused of the bytes is refused of their reader, for the same reason. -/
theorem Supplies.readVarInt_of_error (supplies : Supplies holds) (held : holds r bytes)
    {type : VarIntType} {fault : VarIntError}
    (read : Rust.readVarInt type.bits bytes = .error fault) :
    Read.readVarInt type r = .err fault := by
  have agrees := supplies.readVarInt held type
  rw [read] at agrees
  generalize Read.readVarInt type r = outcome at agrees
  cases agrees with
  | err => rfl

end

/-- How many bytes follow a first byte in the form that it selects. -/
def following (first : UInt8) : Nat :=
  if first = 0xff then 8 else if first = 0xfe then 4 else if first = 0xfd then 2 else 0

/-- A byte that announces no others is the number. -/
theorem readVarInt_single (width : Nat) {first : UInt8} (rest : List UInt8)
    (alone : following first = 0) :
    Rust.readVarInt width (first :: rest) = .ok (first.toNat, rest) := by
  rw [following] at alone
  rw [Rust.readVarInt]
  split_ifs at alone ⊢
  rfl

/-- A byte that announces others is their marker. -/
theorem readVarInt_following (width : Nat) {first : UInt8} (rest : List UInt8)
    (more : 0 < following first) :
    Rust.readVarInt width (first :: rest) =
      Rust.readMarked width (following first) first rest := by
  rw [following] at more ⊢
  rw [Rust.readVarInt]
  split_ifs at more ⊢
  · rfl
  · rfl
  · rfl
  · exact absurd more (Nat.lt_irrefl 0)

/-- Where enough bytes follow a marker only the width is in question. -/
theorem readMarked_of_le {width count : Nat} (marker : UInt8) {rest : List UInt8}
    (enough : count ≤ rest.length) :
    Rust.readMarked width count marker rest =
      if bigEndian (rest.take count) < 2 ^ width then
        .ok (bigEndian (rest.take count), rest.drop count)
      else .error (.valueTooBig (bigEndian (rest.take count)) width (8 * count)) := by
  rw [Rust.readMarked, Rust.readBe, readSlice, if_pos enough]
  rfl

/-- Where too few bytes follow a marker the encoding is malformed. -/
theorem readMarked_of_lt {width count : Nat} (marker : UInt8) {rest : List UInt8}
    (short : rest.length < count) :
    Rust.readMarked width count marker rest = .error (.malformedEncoding count marker) := by
  rw [Rust.readMarked, Rust.readBe, readSlice, if_neg (Nat.not_le.mpr short)]
  rfl

/-- A number written in front of any message is read back and leaves the bytes that were
there, and every reader returns the number of the form that its first byte selects, or an
error if bytes are missing or the number does not fit.

Proof: the writer picks the shortest form that holds the number, and the first byte tells the
reader which form follows. -/
theorem varInt_written_and_read (type : VarIntType) {t : Nat} (fits : t < 2 ^ type.bits)
    {chunkSz : Nat} {calls : List Message.Call} {given : List Message.Answer} {message : Message}
    (reached : Machine.answers (ε := IoError) Message.call calls (Message.withChunkSize chunkSz) =
      .ok (given, message)) :
    (∃ written left, writeVarInt t message = .ok written ∧
      readVarInt type written = .ok (t, left) ∧ left.asVec = message.asVec) ∧
    ∀ (σ : Type) [Read σ] (holds : σ → List UInt8 → Prop), Supplies holds →
      ∀ (r : σ) (bytes : List UInt8), holds r bytes →
        (bytes = [] → readVarInt type r = .err .unexpectedEndOfData) ∧
        ∀ first rest, bytes = first :: rest →
          (following first = 0 →
            ∃ next, readVarInt type r = .ok (first.toNat, next) ∧ holds next rest) ∧
          (rest.length < following first →
            readVarInt type r = .err (.malformedEncoding (following first) first)) ∧
          (0 < following first → following first ≤ rest.length →
            let value := bigEndian (rest.take (following first))
            (value < 2 ^ type.bits → ∃ next, readVarInt type r = .ok (value, next) ∧
              holds next (rest.drop (following first))) ∧
            (2 ^ type.bits ≤ value →
              readVarInt type r = .err (.valueTooBig value type.bits (8 * following first)))) := by
  constructor
  · obtain ⟨last, answered, holds⟩ := Machine.answers_refine (ε := IoError)
      Message.call_refines calls (Message.holds_withChunkSize chunkSz)
    rw [answered] at reached
    cases reached
    have long : t < 2 ^ 64 :=
      Nat.lt_of_lt_of_le fits (Nat.pow_le_pow_right (by decide) type.bits_le)
    obtain ⟨written, wrote, holdsAll⟩ := message_prepends.writeVarInt holds t
    obtain ⟨left, read, holdsLeft⟩ :=
      message_supplies.readVarInt_of_ok holdsAll (readVarInt_varInt long fits _)
    exact ⟨written, left, wrote, read, by rw [holdsLeft.asVec, holds.asVec]⟩
  · intro σ _ holds supplies r bytes held
    constructor
    · rintro rfl
      exact supplies.readVarInt_of_error held rfl
    · rintro first rest rfl
      refine ⟨?alone, ?short, ?enough⟩
      case alone =>
        intro alone
        exact supplies.readVarInt_of_ok held (readVarInt_single _ rest alone)
      case short =>
        intro short
        apply supplies.readVarInt_of_error held
        rw [readVarInt_following _ rest (by omega), readMarked_of_lt first short]
      case enough =>
        intro more enough
        have whole := readVarInt_following type.bits rest more
        rw [readMarked_of_le first enough] at whole
        constructor
        · intro small
          rw [if_pos small] at whole
          exact supplies.readVarInt_of_ok held whole
        · intro large
          rw [if_neg (Nat.not_lt.mpr large)] at whole
          exact supplies.readVarInt_of_error held whole

/-- Three hundred in front of five bytes in chunks of four, and a truncated number. -/
theorem varInt_written_and_read_chunks :
    (∃ given message written left, Machine.answers (ε := IoError) Message.call
        [.write [1, 2, 3, 4, 5]] (Message.withChunkSize 4) = .ok (given, message) ∧
      writeVarInt 300 message = .ok written ∧
      readVarInt .u16 written = .ok (300, left) ∧ left.asVec = [1, 2, 3, 4, 5]) ∧
    readVarInt .u16 ([0xfd, 1] : List UInt8) = .err (.malformedEncoding 2 0xfd) := by
  obtain ⟨message, reached, holds⟩ :=
    Machine.answers_refine (Message.call_refines (ε := IoError)) [.write [1, 2, 3, 4, 5]]
      (Message.holds_withChunkSize 4)
  obtain ⟨⟨written, left, wrote, read, same⟩, forms⟩ :=
    varInt_written_and_read .u16 (t := 300) (by decide) reached
  refine ⟨⟨_, message, written, left, reached, wrote, read, same.trans holds.asVec⟩, ?_⟩
  exact ((forms _ _ slice_supplies [0xfd, 1] _ rfl).2 0xfd [1] rfl).2.1 (by decide)

end Read

end RouteServer.Bytes
