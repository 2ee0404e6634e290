import Mathlib.Algebra.BigOperators.Group.List.Basic
import Mathlib.Algebra.GroupWithZero.Nat
import RouteServer.Machine.Refinement

/-!
# A message as a stack of bytes

A message keeps its bytes in chunks of a fixed size. Each chunk is filled from its end
to its front, and the last chunk of the message holds the first bytes. What is written
goes in front of what is there: it fills the last chunk as far as it has room, and then
chunks that were emptied before, or new ones. Reading and discarding take bytes from
the front and set emptied chunks aside.

A vector of chunks is used as a stack; the lists here have its last chunk first. The
sizes are those of values in memory, so no sum of them overflows. The law is that for
every chunk size and every sequence of calls the message behaves as a plain list of
bytes, and that no assertion on the way fails.

Memory for a chunk is taken to be there. Its size is chosen by the program and not by
what it reads, so that this is no matter of the input; only a machine that has no memory
left ends the program here.
-/

namespace RouteServer.Bytes

open Rust Machine

/-- `Overflow`. -/
inductive Overflow where
  | overflow
deriving DecidableEq

/-- `Chunk`: the bytes from the offset on are in use, and those in front of it are free. -/
structure Chunk where
  bytes : List UInt8
  offset : Nat
  inside : offset ≤ bytes.length
  sized : 0 < bytes.length

namespace Chunk

/-- `Chunk::new`, where there is memory for the bytes. -/
def new {ε : Type} (size : Nat) : Outcome ε Chunk :=
  if positive : size > 0 then
    .ok ⟨List.replicate size 0, size, by simp, by simpa using positive⟩
  else .panicked

/-- `len`. -/
def len (chunk : Chunk) : Nat := chunk.bytes.length - chunk.offset

/-- `cap`. -/
def cap (chunk : Chunk) : Nat := chunk.offset

/-- The bytes in use, as `iovec` shows them. -/
def contents (chunk : Chunk) : List UInt8 := chunk.bytes.drop chunk.offset

/-- What a chunk holds is as long as it says. -/
theorem length_contents (chunk : Chunk) : chunk.contents.length = chunk.len := List.length_drop

/-- `discard`. -/
def discard (chunk : Chunk) (bytes : Nat) : Outcome Overflow (Nat × Chunk) :=
  if beyond : bytes > chunk.len then .err .overflow
  else .ok (bytes, { chunk with
    offset := chunk.offset + bytes
    inside := by
      have := chunk.inside
      rw [len] at beyond
      omega })

/-- `pop`: the buffer is filled and returned. -/
def pop (chunk : Chunk) (out : List UInt8) : Outcome Overflow (Nat × List UInt8 × Chunk) :=
  if beyond : out.length > chunk.len then .err .overflow
  else .ok (out.length, (chunk.bytes.drop chunk.offset).take out.length, { chunk with
    offset := chunk.offset + out.length
    inside := by
      have := chunk.inside
      rw [len] at beyond
      omega })

/-- `push`. -/
def push (chunk : Chunk) (input : List UInt8) : Outcome Overflow (Nat × Chunk) :=
  if beyond : input.length > chunk.cap then .err .overflow
  else
    let filled := chunk.bytes.take (chunk.offset - input.length) ++ input ++
      chunk.bytes.drop chunk.offset
    have kept : filled.length = chunk.bytes.length := by
      have := chunk.inside
      simp only [filled, List.length_append, List.length_take, List.length_drop]
      rw [cap] at beyond
      omega
    .ok (input.length, {
      bytes := filled
      offset := chunk.offset - input.length
      inside := by
        have := chunk.inside
        omega
      sized := by
        have := chunk.sized
        omega })

/-- A new chunk holds nothing. -/
theorem new_spec {ε : Type} {size : Nat} (positive : size > 0) :
    ∃ chunk, new (ε := ε) size = .ok chunk ∧ chunk.contents = [] := by
  refine ⟨_, dif_pos positive, ?_⟩
  exact List.drop_of_length_le (by simp)

/-- Discarding takes bytes off the front. -/
theorem discard_spec (chunk : Chunk) {bytes : Nat} (within : bytes ≤ chunk.len) :
    ∃ rest, chunk.discard bytes = .ok (bytes, rest) ∧
      rest.contents = chunk.contents.drop bytes := by
  refine ⟨_, dif_neg (Nat.not_lt.mpr within), ?_⟩
  rw [contents, contents, List.drop_drop]

/-- Popping gives bytes of the front out and discards them. -/
theorem pop_spec (chunk : Chunk) {out : List UInt8} (within : out.length ≤ chunk.len) :
    ∃ rest, chunk.pop out = .ok (out.length, chunk.contents.take out.length, rest) ∧
      rest.contents = chunk.contents.drop out.length := by
  refine ⟨_, dif_neg (Nat.not_lt.mpr within), ?_⟩
  rw [contents, contents, List.drop_drop]

/-- Pushing puts bytes before those that are there. -/
theorem push_spec (chunk : Chunk) {input : List UInt8} (room : input.length ≤ chunk.cap) :
    ∃ filled, chunk.push input = .ok (input.length, filled) ∧
      filled.contents = input ++ chunk.contents := by
  refine ⟨_, dif_neg (Nat.not_lt.mpr room), ?_⟩
  have inside := chunk.inside
  have front : (chunk.bytes.take (chunk.offset - input.length)).length =
      chunk.offset - input.length := by
    rw [List.length_take]
    omega
  simp only [contents, List.append_assoc]
  exact List.drop_left' front

/-- A chunk of which everything was taken has nothing in use. -/
theorem len_of_taken {chunk rest : Chunk}
    (contents : rest.contents = chunk.contents.drop chunk.len) : rest.len = 0 := by
  rw [← rest.length_contents, contents, List.length_drop, chunk.length_contents, Nat.sub_self]

/-- A chunk with nothing in use is free up to its end. -/
theorem cap_of_empty {chunk : Chunk} (empty : chunk.len = 0) : chunk.cap = chunk.bytes.length := by
  have := chunk.inside
  rw [len] at empty
  rw [cap]
  omega

end Chunk

/-- `Message`, the last chunks first. -/
structure Message where
  chunkSz : Nat
  chunks : List Chunk
  spareChunks : List Chunk

namespace Message

variable {ε : Type}

/-- `DEFAULT_CHUNK_SZ`. -/
def defaultChunkSz : Nat := 4096

/-- `chunk_sz`. -/
def effectiveChunkSz (message : Message) : Nat :=
  if message.chunkSz > 0 then message.chunkSz else defaultChunkSz

/-- `with_chunk_size`. -/
def withChunkSize (chunkSz : Nat) : Message := ⟨chunkSz, [], []⟩

/-- `Message::new`. -/
def new : Message := withChunkSize 0

/-- `iovec`. -/
def iovec (message : Message) : List (List UInt8) := message.chunks.map Chunk.contents

/-- `as_vec`. -/
def asVec (message : Message) : List UInt8 := message.iovec.flatten

/-- `len`. -/
def len (message : Message) : Nat := (message.chunks.map Chunk.len).sum

/-- The loop of `discard` over the chunks, which are handed back with its result. -/
def discardLoop : List Chunk → List Chunk → Nat →
    Outcome ε (Except Overflow Unit × List Chunk × List Chunk)
  | [], spare, bytes =>
    if bytes > 0 then .ok (.error .overflow, [], spare) else .ok (.ok (), [], spare)
  | chk :: chunks, spare, bytes =>
    if bytes ≥ chk.len then
      match chk.discard chk.len with
      | .ok (_, emptied) => discardLoop chunks (emptied :: spare) (bytes - chk.len)
      | .err fault => .ok (.error fault, chunks, spare)
      | .panicked => .panicked
    else
      match chk.discard bytes with
      | .ok (_, rest) => .ok (.ok (), rest :: chunks, spare)
      | .err fault => .ok (.error fault, chunks, spare)
      | .panicked => .panicked

/-- `discard`: its result, and the message, which an error changes too. -/
def discard (message : Message) (bytes : Nat) : Outcome ε (Except Overflow Unit × Message) := do
  let (result, chunks, spareChunks) ← discardLoop message.chunks message.spareChunks bytes
  return (result, { message with chunks, spareChunks })

/-- `clear`. -/
def clear (message : Message) : Outcome ε Message := do
  let (result, cleared) ← message.discard message.len
  match result with
  | .ok _ => return cleared
  | .error _ => .panicked

/-- An emptied chunk, or a new one. -/
def freshChunk (message : Message) : Outcome ε (Chunk × Message) :=
  match message.spareChunks with
  | chunk :: spareChunks => do
    Outcome.assert (chunk.cap = chunk.bytes.length)
    return (chunk, { message with spareChunks })
  | [] => do
    let chunk ← Chunk.new message.effectiveChunkSz
    return (chunk, message)

/-- `take_writable_chunk`: the last chunk, unless it is full. -/
def takeWritableChunk (message : Message) : Outcome ε (Chunk × Message) :=
  match message.chunks with
  | chunk :: chunks =>
    if chunk.cap > 0 then .ok (chunk, { message with chunks }) else message.freshChunk
  | [] => message.freshChunk

/-- The chunk taken for writing has room. -/
theorem takeWritableChunk_room {message rest : Message} {chunk : Chunk}
    (taken : takeWritableChunk (ε := ε) message = .ok (chunk, rest)) : 0 < chunk.cap := by
  have fresh : message.freshChunk (ε := ε) = .ok (chunk, rest) → 0 < chunk.cap := by
    intro made
    rw [freshChunk] at made
    split at made
    · obtain ⟨_, asserted, same⟩ := (Outcome.bind_ok_iff _ _ _).mp made
      cases same
      rw [Outcome.assert] at asserted
      split at asserted
      · next full => exact (of_decide_eq_true full) ▸ chunk.sized
      · cases asserted
    · obtain ⟨_, created, same⟩ := (Outcome.bind_ok_iff _ _ _).mp made
      cases same
      rw [Chunk.new] at created
      split at created
      · next positive =>
        cases created
        exact positive
      · cases created
  rw [takeWritableChunk] at taken
  split at taken
  · split at taken
    · next room =>
      cases taken
      exact room
    · exact fresh taken
  · exact fresh taken

/-- The loop of `read` over the chunks: the buffer is filled and returned. -/
def readLoop : List Chunk → List Chunk → List UInt8 →
    Outcome ε (Nat × List UInt8 × List Chunk × List Chunk)
  | [], spare, buf => .ok (0, buf, [], spare)
  | chk :: chunks, spare, buf =>
    if buf.length ≥ chk.len then do
      let (count, front, emptied) ← (chk.pop (buf.take chk.len)).expect
      Outcome.assert (emptied.len = 0)
      let (bytes, behind, chunks, spare) ←
        readLoop chunks (emptied :: spare) (buf.drop chk.len)
      return (count + bytes, front ++ behind, chunks, spare)
    else do
      let (count, filled, rest) ← (chk.pop buf).expect
      Outcome.assert (rest.len > 0)
      return (count, filled, rest :: chunks, spare)

/-- `Read::read`. -/
def read (message : Message) (buf : List UInt8) : Outcome ε (Nat × List UInt8 × Message) := do
  let (bytes, filled, chunks, spareChunks) ← readLoop message.chunks message.spareChunks buf
  return (bytes, filled, { message with chunks, spareChunks })

/-- `Write::write`. -/
def write (message : Message) (buf : List UInt8) : Outcome ε (Nat × Message) :=
  if _nonempty : buf ≠ [] then
    match _taken : takeWritableChunk (ε := ε) message with
    | .ok (chunk, rest) =>
      if chunk.cap ≤ buf.length then do
        let l := chunk.cap
        let (count, filled) ← (chunk.push (buf.drop (buf.length - l))).expect
        let (bytes, written) ← write { rest with chunks := filled :: rest.chunks }
          (buf.take (buf.length - l))
        return (count + bytes, written)
      else do
        let (count, filled) ← (chunk.push buf).expect
        return (count, { rest with chunks := filled :: rest.chunks })
    | .err fault => .err fault
    | .panicked => .panicked
  else .ok (0, message)
termination_by buf.length
decreasing_by
  have := takeWritableChunk_room _taken
  have := List.length_pos_iff.mpr _nonempty
  rw [List.length_take]
  omega

/-- Chunks in use and chunks set aside, and the bytes they hold. No chunk in use is empty,
and every chunk set aside is. -/
structure Stacked (chunks spare : List Chunk) (bytes : List UInt8) : Prop where
  filled : ∀ chunk ∈ chunks, 0 < chunk.len
  emptied : ∀ chunk ∈ spare, chunk.len = 0
  held : (chunks.map Chunk.contents).flatten = bytes

/-- A message that holds bytes. -/
def Holds (message : Message) (bytes : List UInt8) : Prop :=
  Stacked message.chunks message.spareChunks bytes

/-- A new message holds nothing. -/
theorem holds_withChunkSize (chunkSz : Nat) : (withChunkSize chunkSz).Holds [] :=
  ⟨fun _ => nofun, fun _ => nofun, rfl⟩

/-- A message gives out what it holds. -/
theorem Holds.asVec {message : Message} {bytes : List UInt8} (holds : message.Holds bytes) :
    message.asVec = bytes := holds.held

/-- A message is as long as what it holds. -/
theorem Holds.len {message : Message} {bytes : List UInt8} (holds : message.Holds bytes) :
    message.len = bytes.length := by
  rw [← holds.held, List.length_flatten, List.map_map, Message.len]
  exact congrArg List.sum (List.map_congr_left (fun chunk _ => chunk.length_contents.symm))

/-- In a stack of chunks the first is not empty, and the others hold what comes behind it. -/
theorem stacked_cons_iff (chunk : Chunk) (chunks spare : List Chunk) (bytes : List UInt8) :
    Stacked (chunk :: chunks) spare bytes ↔ 0 < chunk.len ∧
      ∃ behind, bytes = chunk.contents ++ behind ∧ Stacked chunks spare behind := by
  constructor
  · rintro ⟨filled, emptied, rfl⟩
    obtain ⟨first, rest⟩ := List.forall_mem_cons.mp filled
    exact ⟨first, _, rfl, rest, emptied, rfl⟩
  · rintro ⟨first, behind, rfl, filled, emptied, rfl⟩
    exact ⟨List.forall_mem_cons.mpr ⟨first, filled⟩, emptied, rfl⟩

/-- An empty chunk is put to the spare ones, and nothing that is held changes. -/
theorem Stacked.setAside {chunks spare : List Chunk} {bytes : List UInt8} {chunk : Chunk}
    (stacked : Stacked chunks spare bytes) (empty : chunk.len = 0) :
    Stacked chunks (chunk :: spare) bytes :=
  ⟨stacked.filled, List.forall_mem_cons.mpr ⟨empty, stacked.emptied⟩, stacked.held⟩

/-- A chunk in use of which a part was taken. -/
theorem Stacked.takePart {chunks spare : List Chunk} {behind : List UInt8} {chunk rest : Chunk}
    {count : Nat} (stacked : Stacked chunks spare behind) (part : count < chunk.len)
    (contents : rest.contents = chunk.contents.drop count) :
    Stacked (rest :: chunks) spare ((chunk.contents ++ behind).drop count) := by
  have size := chunk.length_contents
  refine (stacked_cons_iff ..).mpr ⟨?_, behind, ?_, stacked⟩
  · rw [← rest.length_contents, contents, List.length_drop]
    omega
  · rw [contents, List.drop_append_of_le_length (by omega)]

/-- Discarding takes bytes from the front, and fails when there are too few.

Proof: induction on the chunks. A chunk that is discarded whole is set aside and the loop goes
on behind it; otherwise the rest is taken off its front. -/
theorem discardLoop_spec {chunks spare : List Chunk} {bytes : List UInt8}
    (stacked : Stacked chunks spare bytes) (count : Nat) :
    ∃ chunksLeft spareLeft, discardLoop (ε := ε) chunks spare count =
        .ok (if count ≤ bytes.length then .ok () else .error .overflow, chunksLeft, spareLeft) ∧
      Stacked chunksLeft spareLeft (bytes.drop count) := by
  induction chunks generalizing spare bytes count with
  | nil =>
    obtain ⟨filled, emptied, rfl⟩ := stacked
    refine ⟨[], spare, ?_, filled, emptied, List.drop_nil.symm⟩
    rw [discardLoop]
    cases count <;> rfl
  | cons chk chunks inductionHypothesis =>
    obtain ⟨_, behind, rfl, rest⟩ := (stacked_cons_iff ..).mp stacked
    have size := chk.length_contents
    rw [discardLoop]
    split
    · next all =>
      obtain ⟨emptied, discarded, contents⟩ := chk.discard_spec (Nat.le_refl chk.len)
      obtain ⟨chunksLeft, spareLeft, done, left⟩ :=
        inductionHypothesis (rest.setAside (Chunk.len_of_taken contents)) (count - chk.len)
      refine ⟨chunksLeft, spareLeft, ?_, ?_⟩
      · have same : count - chk.len ≤ behind.length ↔
            count ≤ (chk.contents ++ behind).length := by
          rw [List.length_append, size]
          omega
        simp only [discarded, done, same]
      · rwa [List.drop_append, size, List.drop_eq_nil_of_le (by omega), List.nil_append]
    · next part =>
      obtain ⟨shorter, discarded, contents⟩ := chk.discard_spec (show count ≤ chk.len by omega)
      refine ⟨shorter :: chunks, spare, ?_, rest.takePart (Nat.lt_of_not_le part) contents⟩
      have enough : count ≤ (chk.contents ++ behind).length := by
        rw [List.length_append, size]
        omega
      simp only [discarded, if_pos enough]

/-- Reading takes bytes from the front, as many as the buffer holds.

Proof: induction on the chunks. A chunk that is read whole is set aside and the loop fills the
rest of the buffer; otherwise the buffer is filled from the front of this chunk. -/
theorem readLoop_spec {chunks spare : List Chunk} {bytes : List UInt8}
    (stacked : Stacked chunks spare bytes) (buf : List UInt8) :
    ∃ chunksLeft spareLeft, readLoop (ε := ε) chunks spare buf =
        .ok (min buf.length bytes.length, bytes.take buf.length ++ buf.drop bytes.length,
          chunksLeft, spareLeft) ∧
      Stacked chunksLeft spareLeft (bytes.drop buf.length) := by
  induction chunks generalizing spare bytes buf with
  | nil =>
    obtain ⟨filled, emptied, rfl⟩ := stacked
    refine ⟨[], spare, ?_, filled, emptied, List.drop_nil.symm⟩
    simp [readLoop]
  | cons chk chunks inductionHypothesis =>
    obtain ⟨used, behind, rfl, rest⟩ := (stacked_cons_iff ..).mp stacked
    have size := chk.length_contents
    rw [readLoop]
    split
    · next all =>
      have sized : (buf.take chk.len).length = chk.len := List.length_take_of_le all
      obtain ⟨emptied, popped, contents⟩ := chk.pop_spec (Nat.le_of_eq sized)
      rw [sized, List.take_of_length_le (Nat.le_of_eq size)] at popped
      rw [sized] at contents
      have empty : emptied.len = 0 := Chunk.len_of_taken contents
      obtain ⟨chunksLeft, spareLeft, done, left⟩ :=
        inductionHypothesis (rest.setAside empty) (buf.drop chk.len)
      refine ⟨chunksLeft, spareLeft, ?_, ?_⟩
      · simp only [popped, Outcome.expect_ok, Outcome.ok_bind, empty, decide_true,
          Outcome.assert_true, done, Outcome.pure_def]
        rw [List.length_drop, List.drop_drop, List.take_append, size,
          List.take_of_length_le (show chk.contents.length ≤ buf.length by omega),
          List.append_assoc, List.length_append, size]
        have counted : chk.len + min (buf.length - chk.len) behind.length =
            min buf.length (chk.len + behind.length) := by omega
        rw [counted]
      · rw [List.length_drop] at left
        rwa [List.drop_append, size, List.drop_eq_nil_of_le (by omega), List.nil_append]
    · next part =>
      obtain ⟨shorter, popped, contents⟩ := chk.pop_spec (show buf.length ≤ chk.len by omega)
      have left := rest.takePart (Nat.lt_of_not_le part) contents
      have remains : shorter.len > 0 := ((stacked_cons_iff ..).mp left).1
      refine ⟨shorter :: chunks, spare, ?_, left⟩
      simp only [popped, Outcome.expect_ok, Outcome.ok_bind, remains, decide_true,
        Outcome.assert_true, Outcome.pure_def]
      have enough : buf.length ≤ (chk.contents ++ behind).length := by
        rw [List.length_append]
        omega
      rw [List.take_append_of_le_length (by omega), List.drop_of_length_le enough,
        List.append_nil, Nat.min_eq_left enough]

/-- A chunk taken from those set aside, or made, holds nothing. -/
theorem freshChunk_spec {message : Message} {bytes : List UInt8} (holds : message.Holds bytes) :
    ∃ chunk rest, freshChunk (ε := ε) message = .ok (chunk, rest) ∧ chunk.contents = [] ∧
      rest.Holds bytes := by
  rw [freshChunk]
  split
  · next chunk spareChunks aside =>
    obtain ⟨filled, emptied, held⟩ := holds
    rw [aside] at emptied
    obtain ⟨empty, others⟩ := List.forall_mem_cons.mp emptied
    refine ⟨chunk, { message with spareChunks }, ?_, ?_, filled, others, held⟩
    · simp [Chunk.cap_of_empty empty]
    · exact List.eq_nil_of_length_eq_zero (chunk.length_contents.trans empty)
  · have positive : message.effectiveChunkSz > 0 := by
      rw [effectiveChunkSz]
      split
      · assumption
      · decide
    obtain ⟨chunk, made, nothing⟩ := Chunk.new_spec (ε := ε) positive
    refine ⟨chunk, message, ?_, nothing, holds⟩
    rw [made]
    rfl

/-- The chunk taken for writing holds the first bytes, if any. -/
theorem takeWritableChunk_spec {message : Message} {bytes : List UInt8}
    (holds : message.Holds bytes) :
    ∃ chunk rest behind, takeWritableChunk (ε := ε) message = .ok (chunk, rest) ∧
      bytes = chunk.contents ++ behind ∧ rest.Holds behind := by
  have fresh : ∃ chunk rest behind, freshChunk (ε := ε) message = .ok (chunk, rest) ∧
      bytes = chunk.contents ++ behind ∧ rest.Holds behind := by
    obtain ⟨chunk, rest, made, nothing, still⟩ := freshChunk_spec holds
    exact ⟨chunk, rest, bytes, made, by rw [nothing, List.nil_append], still⟩
  rw [takeWritableChunk]
  split
  · next chunk chunks last =>
    split
    · rw [Holds, last] at holds
      obtain ⟨_, behind, split, rest⟩ := (stacked_cons_iff ..).mp holds
      exact ⟨chunk, { message with chunks }, behind, rfl, split, rest⟩
    · exact fresh
  · exact fresh

/-- A chunk is filled and put back. -/
theorem Holds.push {rest : Message} {behind : List UInt8} (holds : rest.Holds behind)
    (chunk : Chunk) {input : List UInt8} (some : 0 < input.length)
    (room : input.length ≤ chunk.cap) :
    ∃ filled, chunk.push input = .ok (input.length, filled) ∧
      Holds { rest with chunks := filled :: rest.chunks }
        (input ++ (chunk.contents ++ behind)) := by
  obtain ⟨filled, pushed, contents⟩ := chunk.push_spec room
  refine ⟨filled, pushed, (stacked_cons_iff ..).mpr ⟨?_, behind, ?_, holds⟩⟩
  · rw [← filled.length_contents, contents, List.length_append]
    omega
  · rw [contents, List.append_assoc]

/-- A turn of the loop of `write`, with the chunk that it takes. -/
theorem write_of_taken {message rest : Message} {chunk : Chunk} {buf : List UInt8}
    (nonempty : buf ≠ [])
    (taken : takeWritableChunk (ε := ε) message = .ok (chunk, rest)) :
    write (ε := ε) message buf =
      if chunk.cap ≤ buf.length then do
        let (count, filled) ← (chunk.push (buf.drop (buf.length - chunk.cap))).expect
        let (bytes, written) ← write { rest with chunks := filled :: rest.chunks }
          (buf.take (buf.length - chunk.cap))
        return (count + bytes, written)
      else do
        let (count, filled) ← (chunk.push buf).expect
        return (count, { rest with chunks := filled :: rest.chunks }) := by
  rw [write, dif_pos nonempty]
  split
  · next same =>
    rw [taken] at same
    cases same
    rfl
  · next failed =>
    rw [taken] at failed
    cases failed
  · next failed =>
    rw [taken] at failed
    cases failed

/-- What is written goes in front.

Proof: strong induction on the length of what is written. -/
theorem write_spec {message : Message} {bytes : List UInt8} (holds : message.Holds bytes)
    (buf : List UInt8) : ∃ written, write (ε := ε) message buf = .ok (buf.length, written) ∧
      written.Holds (buf ++ bytes) := by
  induction sized : buf.length using Nat.strongRecOn generalizing buf message bytes with
  | ind size inductionHypothesis =>
    by_cases empty : buf = []
    · subst empty
      cases sized
      exact ⟨message, by rw [write]; rfl, holds⟩
    · obtain ⟨chunk, rest, behind, taken, rfl, left⟩ := takeWritableChunk_spec (ε := ε) holds
      have room := takeWritableChunk_room taken
      rw [write_of_taken empty taken]
      split
      · next full =>
        -- the end of the buffer fills the chunk, and the rest is written in front of it
        have last : (buf.drop (buf.length - chunk.cap)).length = chunk.cap := by
          rw [List.length_drop]
          omega
        have fewer : (buf.take (buf.length - chunk.cap)).length < size := by
          rw [List.length_take]
          omega
        obtain ⟨filled, pushed, inside⟩ :=
          left.push chunk (by rwa [last]) (Nat.le_of_eq last)
        obtain ⟨written, done, inAll⟩ := inductionHypothesis _ fewer inside _ rfl
        refine ⟨written, ?_, ?_⟩
        · simp only [pushed, Outcome.expect_ok, Outcome.ok_bind, done, Outcome.pure_def]
          rw [last, List.length_take, ← sized]
          congr 2
          omega
        · rwa [← List.append_assoc, List.take_append_drop] at inAll
      · next part =>
        have some : 0 < buf.length := List.length_pos_iff.mpr empty
        obtain ⟨filled, pushed, inside⟩ :=
          left.push chunk some (Nat.le_of_lt (Nat.lt_of_not_le part))
        refine ⟨{ rest with chunks := filled :: rest.chunks }, ?_, inside⟩
        simp only [pushed, Outcome.expect_ok, Outcome.ok_bind, Outcome.pure_def, sized]

/-- A call of a message. -/
inductive Call where
  | write (buf : List UInt8)
  | read (buf : List UInt8)
  | discard (bytes : Nat)
  | clear

/-- What a call returns: the count of bytes, and the buffer as it is filled. -/
inductive Answer where
  | written (bytes : Nat)
  | read (bytes : Nat) (buf : List UInt8)
  | discarded (result : Except Overflow Unit)
  | cleared

/-- A call, and the message after it. -/
def call : Call → Message → Outcome ε (Answer × Message)
  | .write buf, message => do
    let (bytes, message) ← message.write buf
    return (.written bytes, message)
  | .read buf, message => do
    let (bytes, buf, message) ← message.read buf
    return (.read bytes buf, message)
  | .discard bytes, message => do
    let (result, message) ← message.discard bytes
    return (.discarded result, message)
  | .clear, message => do
    let message ← message.clear
    return (.cleared, message)

/-- The same calls of a plain list of bytes: writing puts bytes in front, reading and
discarding remove the first ones. -/
def specification : Call → List UInt8 → Answer × List UInt8
  | .write buf, bytes => (.written buf.length, buf ++ bytes)
  | .read buf, bytes =>
    (.read (min buf.length bytes.length) (bytes.take buf.length ++ buf.drop bytes.length),
      bytes.drop buf.length)
  | .discard count, bytes =>
    (.discarded (if count ≤ bytes.length then .ok () else .error .overflow), bytes.drop count)
  | .clear, _ => (.cleared, [])

/-- One call answers as the list of bytes does, and leaves a message that holds what the
list holds. -/
theorem call_refines (first : Call) (message : Message) (bytes : List UInt8)
    (holds : message.Holds bytes) :
    ∃ next, call (ε := ε) first message = .ok ((specification first bytes).1, next) ∧
      next.Holds (specification first bytes).2 := by
  cases first with
  | write buf =>
    obtain ⟨next, written, after⟩ := write_spec (ε := ε) holds buf
    exact ⟨next, by simp [call, written, specification], after⟩
  | read buf =>
    obtain ⟨chunks, spare, done, after⟩ := readLoop_spec (ε := ε) holds buf
    exact ⟨{ message with chunks, spareChunks := spare },
      by simp [call, read, done, specification], after⟩
  | discard count =>
    obtain ⟨chunks, spare, done, after⟩ := discardLoop_spec (ε := ε) holds count
    exact ⟨{ message with chunks, spareChunks := spare },
      by simp [call, discard, done, specification], after⟩
  | clear =>
    obtain ⟨chunks, spare, done, after⟩ := discardLoop_spec (ε := ε) holds message.len
    rw [holds.len, if_pos (Nat.le_refl _)] at done
    rw [holds.len, List.drop_length] at after
    exact ⟨{ message with chunks, spareChunks := spare },
      by simp [call, clear, discard, holds.len, done, specification], after⟩

/-- For every chunk size and every sequence of calls on a new message, no assertion fails,
every call answers as the plain list of bytes does, and the message holds what the list
holds.

Proof: each call on a message that holds some bytes does what the list does, and leaves a message
that holds the new ones; a sequence of calls is a chain of such steps. -/
theorem message_refines_list (chunkSz : Nat) (calls : List Call) :
    ∃ message, answers (ε := ε) call calls (withChunkSize chunkSz) =
        .ok ((specified specification calls []).1, message) ∧
      message.asVec = (specified specification calls []).2 ∧
      message.len = (specified specification calls []).2.length := by
  obtain ⟨message, answered, holds⟩ :=
    answers_refine call_refines calls (holds_withChunkSize chunkSz)
  exact ⟨message, answered, holds.asVec, holds.len⟩

end Message

end RouteServer.Bytes
