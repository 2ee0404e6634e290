import RouteServer.Pns.Record

/-!
# Encoding the DNS records of a domain

A record of at most 253 bytes is one item. A longer one is cut into items of at most 253
bytes, and an empty end marker completes it, so the decoder has nothing left over when the
next record begins: short and long records do not mix in any order.

The bytes of a record are those of the DNS library, which may refuse to serialize it.
-/

namespace RouteServer.Pns

open Rust

/-- `slice::chunks`, for a size above zero. -/
def chunks {α : Type} (size : Nat) (elems : List α) : List (List α) :=
  if elems = [] ∨ size = 0 then []
  else elems.take size :: chunks size (elems.drop size)
termination_by elems.length
decreasing_by
  have nonempty : 0 < elems.length := List.length_pos_iff.mpr (by tauto)
  rw [List.length_drop]
  omega

/-- The chunks are the elements in order, none of them longer than the size. -/
theorem chunks_spec {α : Type} {size : Nat} (positive : 0 < size) (elems : List α) :
    (chunks size elems).flatten = elems ∧ ∀ chunk ∈ chunks size elems, chunk.length ≤ size := by
  induction sized : elems.length using Nat.strongRecOn generalizing elems with
  | ind length inductionHypothesis =>
    rw [chunks]
    split_ifs with none
    · obtain rfl | zero := none
      · exact ⟨rfl, fun _ listed => absurd listed List.not_mem_nil⟩
      · omega
    · have nonempty : 0 < elems.length := List.length_pos_iff.mpr fun empty => none (Or.inl empty)
      have fewer : (elems.drop size).length < length := by
        rw [List.length_drop]
        omega
      obtain ⟨flat, bounded⟩ := inductionHypothesis _ fewer _ rfl
      refine ⟨?_, List.forall_mem_cons.mpr ⟨List.length_take_le _ _, bounded⟩⟩
      rw [List.flatten_cons, flat, List.take_append_drop]

/-- The items that a record of the given bytes becomes. -/
def recordItems (bytes : List UInt8) : List (UInt8 × List UInt8) :=
  if bytes.length > 253 then
    (chunks 253 bytes).map (fun chunk => (longRecord, chunk)) ++ [(longRecordEnd, [])]
  else [(record, bytes)]

variable {hickory : Hickory}

/-- The loop of `encode_records`, with `Record::to_bytes` as it is given. -/
def encodeItems (toBytes : hickory.Record → Except hickory.ProtoError (List UInt8)) :
    List hickory.Record → Except hickory.ProtoError (List (UInt8 × List UInt8))
  | [] => .ok []
  | rec :: records => do
    let bytes ← toBytes rec
    let out ← encodeItems toBytes records
    return recordItems bytes ++ out

/-- `encode_records`. -/
def encodeRecords (toBytes : hickory.Record → Except hickory.ProtoError (List UInt8))
    (records : List hickory.Record) : Outcome hickory.ProtoError (List UInt8) :=
  match encodeItems toBytes records with
  | .ok out => Bytes.encodeTlv out
  | .error fault => .err fault

/-- All items of a record are short. -/
theorem recordItems_short (bytes : List UInt8) : ∀ item ∈ recordItems bytes, Bytes.Short item := by
  intro item listed
  rw [Bytes.Short]
  rw [recordItems] at listed
  split_ifs at listed with long
  · obtain listed | listed := List.mem_append.mp listed
    · obtain ⟨chunk, among, rfl⟩ := List.mem_map.mp listed
      have bound := (chunks_spec (by decide) bytes).2 chunk among
      dsimp only
      omega
    · cases List.mem_singleton.mp listed
      decide
  · cases List.mem_singleton.mp listed
    dsimp only
    omega

/-- The parts of a long record are collected. -/
theorem decodeItems_parts (longRec : List UInt8) (parts : List (List UInt8))
    (rest : List (UInt8 × List UInt8)) :
    (decodeItems longRec (parts.map (fun part => (longRecord, part)) ++ rest) :
        Except (DecodeError hickory) _) =
      decodeItems (longRec ++ parts.flatten) rest := by
  induction parts generalizing longRec with
  | nil => rw [List.map_nil, List.nil_append, List.flatten_nil, List.append_nil]
  | cons part parts inductionHypothesis =>
    have notEnd : ¬longRecord = longRecordEnd := by decide
    rw [List.map_cons, List.cons_append, decodeItems, if_neg notEnd, if_pos rfl,
      inductionHypothesis, List.flatten_cons, List.append_assoc]

/-- The items of a record are decoded as that record, and nothing is left over for the next. -/
theorem decodeItems_recordItems {rec : hickory.Record} {bytes : List UInt8}
    (known : hickory.fromBytes bytes = .ok rec) (rest : List (UInt8 × List UInt8)) :
    (decodeItems [] (recordItems bytes ++ rest) : Except (DecodeError hickory) _) =
      (decodeItems [] rest).map (rec :: ·) := by
  have whole : (recordFromBytes bytes : Except (DecodeError hickory) _) = .ok rec := by
    rw [recordFromBytes, known]
    rfl
  rw [recordItems]
  split_ifs with long
  · rw [List.append_assoc, decodeItems_parts, List.nil_append,
      (chunks_spec (by decide) bytes).1, List.cons_append, List.nil_append, decodeItems,
      if_pos rfl, whole]
    cases (decodeItems [] rest : Except (DecodeError hickory) _) <;> rfl
  · have notEnd : ¬record = longRecordEnd := by decide
    have notLong : ¬record = longRecord := by decide
    rw [List.cons_append, List.nil_append, decodeItems, if_neg notEnd, if_neg notLong,
      if_pos rfl, whole]
    cases (decodeItems [] rest : Except (DecodeError hickory) _) <;> rfl

variable {toBytes : hickory.Record → Except hickory.ProtoError (List UInt8)}

/-- The loop ends with items that are decoded as the records, or with the error of one. -/
theorem encodeItems_cases
    (inverts : ∀ rec bytes, toBytes rec = .ok bytes → hickory.fromBytes bytes = .ok rec)
    (records : List hickory.Record) :
    (∃ items, encodeItems toBytes records = .ok items ∧ (∀ item ∈ items, Bytes.Short item) ∧
        decodeItems [] items = .ok records) ∨
      ∃ rec ∈ records, ∃ fault, toBytes rec = .error fault ∧
        encodeItems toBytes records = .error fault := by
  induction records with
  | nil => exact Or.inl ⟨[], rfl, fun _ listed => absurd listed List.not_mem_nil, rfl⟩
  | cons rec records inductionHypothesis =>
    rw [encodeItems]
    cases serialized : toBytes rec with
    | error fault => exact Or.inr ⟨rec, List.mem_cons_self, fault, serialized, rfl⟩
    | ok bytes =>
      obtain ⟨items, encoded, short, decoded⟩ | ⟨other, listed, fault, fails, failed⟩ :=
        inductionHypothesis
      · refine Or.inl ⟨recordItems bytes ++ items, by rw [encoded]; rfl, ?_, ?_⟩
        · exact List.forall_mem_append.mpr ⟨recordItems_short bytes, short⟩
        · rw [decodeItems_recordItems (inverts rec bytes serialized), decoded]
          rfl
      · exact Or.inr ⟨other, List.mem_cons_of_mem rec listed, fault, fails, by rw [failed]; rfl⟩

/-- Records that the library can serialize are decoded as they were encoded, however long
they are and in whatever order. Nothing else fails than the library.

Proof: a record is split into chunks that fit their items, and the last of them is shorter than
the others, so the reader knows where it ends. -/
theorem records_round_trip
    (inverts : ∀ rec bytes, toBytes rec = .ok bytes → hickory.fromBytes bytes = .ok rec)
    (records : List hickory.Record) :
    (∃ bytes, encodeRecords toBytes records = .ok bytes ∧ decodeRecords bytes = .ok records) ∨
      ∃ rec ∈ records, ∃ fault, toBytes rec = .error fault ∧
        encodeRecords toBytes records = .err fault := by
  rw [encodeRecords]
  obtain ⟨items, encoded, short, decoded⟩ | ⟨rec, listed, fault, fails, failed⟩ :=
    encodeItems_cases inverts records
  · rw [encoded]
    refine Or.inl ⟨_, Bytes.encodeTlv_of_short short, ?_⟩
    rw [decodeRecords, Bytes.parseTlv_flatMap short]
    exact decoded
  · rw [failed]
    exact Or.inr ⟨rec, listed, fault, fails, rfl⟩

/-- The number of a record type. -/
def RecordType.code : RecordType → UInt16
  | any => 255
  | cname => 5
  | ns => 2
  | other code => code

/-- The bytes of a number of 16 bits, the high one first. -/
def highLow (value : UInt16) : List UInt8 := [(value >>> 8).toUInt8, value.toUInt8]

/-- The wire format of a record whose data is opaque, if it is read back. -/
def plainToBytes (rec : RecordOf PlainName Unit (List UInt8)) : Except Unit (List UInt8) :=
  let labels : List UInt8 := rec.name.labels.flatMap fun label =>
    UInt8.ofNat label.length :: label.map fun c => UInt8.ofNat c.toNat
  let data : List UInt8 :=
    match rec.data with
    | some (.other data) => data
    | _ => []
  let ttl : List UInt8 := highLow (rec.ttl >>> 16).toUInt16 ++ highLow rec.ttl.toUInt16
  let bytes : List UInt8 := labels ++ [0] ++ highLow rec.recordType.code ++ highLow rec.dnsClass ++
    ttl ++ highLow (UInt16.ofNat data.length) ++ data
  if wireRecord bytes = .ok rec then .ok bytes else .error ()

/-- A text of 249 characters in a record of 261 bytes, and a record of four bytes of data. -/
def longText : plainNames.Record where
  name := ⟨[], true⟩
  recordType := .other 16
  dnsClass := 1
  ttl := 60
  data := some (.other (249 :: List.replicate 249 120))

def shortAddress : plainNames.Record where
  name := ⟨[], true⟩
  recordType := .other 1
  dnsClass := 1
  ttl := 60
  data := some (.other [10, 0, 0, 1])

/-- Records of two types, long and short, are read back in their order. -/
theorem mixed_round_trip :
    ∃ bytes, encodeRecords plainToBytes [longText, shortAddress, longText, longText] = .ok bytes ∧
      decodeRecords bytes = .ok [longText, shortAddress, longText, longText] := by
  have inverts : ∀ rec bytes, plainToBytes rec = .ok bytes →
      plainNames.fromBytes bytes = .ok rec := by
    intro rec bytes serialized
    rw [plainToBytes] at serialized
    split_ifs at serialized with known
    cases serialized
    exact known
  obtain done | ⟨rec, listed, fault, fails, -⟩ :=
    records_round_trip inverts [longText, shortAddress, longText, longText]
  · exact done
  · have long : (plainToBytes longText).isOk = true := by decide +kernel
    have short : (plainToBytes shortAddress).isOk = true := by decide +kernel
    have all : ∀ rec ∈ [longText, shortAddress, longText, longText],
        (plainToBytes rec).isOk = true := by simp [long, short]
    have ok := all rec listed
    rw [fails] at ok
    cases ok

end RouteServer.Pns
