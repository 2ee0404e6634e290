import RouteServer.Bytes.RWrite

/-!
# Items of a type, a length and a value

The length of an item counts its type and its length too, and has one byte. Items that
are short enough for it are parsed as they were written, one after the other. What is parsed
are whole items and nothing else, but for a single byte at the end, which is dropped.
-/

namespace RouteServer.Bytes

open Rust

/-- An error report: one of the library errors, or the text of a `bail!`. -/
inductive Report where
  | io (fault : IoError)
  | varInt (fault : VarIntError)
  | message (text : String)
deriving DecidableEq

/-- `parse_tlv`. A single byte left at the end is passed over. -/
def parseTlv : List UInt8 → Except Report (List (UInt8 × List UInt8))
  | [] => .ok []
  | [_] => .ok []
  | t :: l :: rest =>
    if l < 2 then .error (.message ("Invalid item length: " ++ toString l.toNat))
    else if l.toNat > rest.length + 2 then .error (.message "TLV is truncated")
    else do
      let others ← parseTlv (rest.drop (l.toNat - 2))
      return (t, rest.take (l.toNat - 2)) :: others
termination_by bytes => bytes.length
decreasing_by
  simp only [List.length_drop, List.length_cons]
  omega

/-- `encode_tlv`. The length of a value is cut to a byte before the two are added. -/
def encodeTlv {ε : Type} : List (UInt8 × List UInt8) → Outcome ε (List UInt8)
  | [] => .ok []
  | (t, v) :: items => do
    let length ← Outcome.checkedAdd 8 (v.length % 2 ^ 8) 2
    let out ← encodeTlv items
    return t :: UInt8.ofNat length :: (v ++ out)

/-- An item as it is written. -/
def wire (item : UInt8 × List UInt8) : List UInt8 :=
  item.1 :: UInt8.ofNat (item.2.length + 2) :: item.2

/-- An item whose length fits its byte. -/
def Short (item : UInt8 × List UInt8) : Prop := item.2.length + 2 < 256

/-- A short item in front is parsed as it was written. -/
theorem parseTlv_wire {item : UInt8 × List UInt8} (short : Short item) (rest : List UInt8) :
    parseTlv (wire item ++ rest) = (parseTlv rest).map (item :: ·) := by
  obtain ⟨t, data⟩ := item
  have length : (UInt8.ofNat (data.length + 2)).toNat = data.length + 2 := by
    rw [UInt8.toNat_ofNat']
    exact Nat.mod_eq_of_lt short
  have enough : ¬ UInt8.ofNat (data.length + 2) < 2 := by
    rw [UInt8.lt_iff_toNat_lt, length]
    exact Nat.not_lt.mpr (Nat.le_add_left 2 data.length)
  have whole : ¬ data.length + 2 > (data ++ rest).length + 2 := by
    rw [List.length_append]
    omega
  simp only [wire, List.cons_append]
  rw [parseTlv, if_neg enough, length, if_neg whole, Nat.add_sub_cancel, List.drop_left,
    List.take_left]
  cases parseTlv rest <;> rfl

/-- Short items are parsed as they were written. -/
theorem parseTlv_flatMap {items : List (UInt8 × List UInt8)} (short : ∀ item ∈ items, Short item) :
    parseTlv (items.flatMap wire) = .ok items := by
  induction items with
  | nil => rw [List.flatMap_nil, parseTlv]
  | cons item rest inductionHypothesis =>
    obtain ⟨first, others⟩ := List.forall_mem_cons.mp short
    rw [List.flatMap_cons, parseTlv_wire first, inductionHypothesis others]
    rfl

/-- Short items are encoded one after the other. -/
theorem encodeTlv_of_short {ε : Type} {items : List (UInt8 × List UInt8)}
    (short : ∀ item ∈ items, Short item) :
    encodeTlv items = (.ok (items.flatMap wire) : Outcome ε _) := by
  induction items with
  | nil => rfl
  | cons item rest inductionHypothesis =>
    obtain ⟨first, others⟩ := List.forall_mem_cons.mp short
    have inByte : item.2.length + 2 < 2 ^ 8 := first
    have uncut : item.2.length % 2 ^ 8 = item.2.length := Nat.mod_eq_of_lt (by omega)
    rw [encodeTlv, uncut, Outcome.checkedAdd, if_pos inByte, Outcome.ok_bind,
      inductionHypothesis others]
    rfl

/-- What is parsed are short items as they are written, before at most one byte.

Proof: forwards by strong induction on the length of the bytes, as each item takes at least two
of them; backwards by induction on the items. -/
theorem parseTlv_ok_iff (bytes : List UInt8) (items : List (UInt8 × List UInt8)) :
    parseTlv bytes = .ok items ↔ ∃ left : List UInt8, left.length ≤ 1 ∧
      bytes = items.flatMap wire ++ left ∧ ∀ item ∈ items, Short item := by
  constructor
  · intro parsed
    induction sized : bytes.length using Nat.strongRecOn generalizing bytes items with
    | ind size inductionHypothesis =>
      obtain _ | ⟨t, _ | ⟨length, rest⟩⟩ := bytes
      · rw [parseTlv] at parsed
        cases parsed
        exact ⟨[], Nat.zero_le 1, rfl, by simp⟩
      · rw [parseTlv] at parsed
        cases parsed
        exact ⟨[t], Nat.le_refl 1, rfl, by simp⟩
      · rw [parseTlv] at parsed
        split_ifs at parsed with low long
        have atLeast : 2 ≤ length.toNat := Nat.not_lt.mp fun under =>
          low (UInt8.lt_iff_toNat_lt.mpr under)
        have inside : length.toNat - 2 ≤ rest.length := by omega
        have inByte : length.toNat < 256 := length.toNat_lt
        obtain ⟨others, parsedRest, ends⟩ := (except_bind_ok_iff _ _ _).mp parsed
        cases ends
        have fewer : (rest.drop (length.toNat - 2)).length < size := by
          rw [List.length_drop, ← sized, List.length_cons, List.length_cons]
          omega
        obtain ⟨left, single, split, short⟩ :=
          inductionHypothesis _ fewer _ _ parsedRest rfl
        have taken : (rest.take (length.toNat - 2)).length + 2 = length.toNat := by
          rw [List.length_take_of_le inside]
          omega
        refine ⟨left, single, ?_, List.forall_mem_cons.mpr ⟨?_, short⟩⟩
        · have same : UInt8.ofNat ((rest.take (length.toNat - 2)).length + 2) = length := by
            rw [taken, UInt8.ofNat_toNat]
          rw [List.flatMap_cons, List.append_assoc, ← split, wire, same, List.cons_append,
            List.cons_append, List.take_append_drop]
        · rw [Short, taken]
          exact inByte
  · rintro ⟨left, single, rfl, short⟩
    induction items with
    | nil =>
      obtain _ | ⟨byte, _ | _⟩ := left
      · rw [List.flatMap_nil, List.nil_append, parseTlv]
      · rw [List.flatMap_nil, List.nil_append, parseTlv]
      · simp at single
    | cons item rest inductionHypothesis =>
      obtain ⟨first, others⟩ := List.forall_mem_cons.mp short
      rw [List.flatMap_cons, List.append_assoc, parseTlv_wire first, inductionHypothesis others]
      rfl

/-- Bytes that are whole items: each has as many as its second byte says. -/
inductive Whole : List UInt8 → Prop
  | none : Whole []
  | item {t length : UInt8} {value rest : List UInt8} (counts : length.toNat = value.length + 2)
      (whole : Whole rest) : Whole (t :: length :: (value ++ rest))

/-- Whole items are short items as they are written. -/
theorem whole_iff (bytes : List UInt8) :
    Whole bytes ↔ ∃ items : List (UInt8 × List UInt8), (∀ item ∈ items, Short item) ∧
      bytes = items.flatMap wire := by
  constructor
  · intro whole
    induction whole with
    | none => exact ⟨[], by simp, rfl⟩
    | @item t length value rest counts whole inductionHypothesis =>
      obtain ⟨items, short, rfl⟩ := inductionHypothesis
      have inByte : length.toNat < 256 := length.toNat_lt
      refine ⟨(t, value) :: items, List.forall_mem_cons.mpr ⟨?_, short⟩, ?_⟩
      · rw [Short, ← counts]
        exact inByte
      · rw [List.flatMap_cons, wire, ← counts, UInt8.ofNat_toNat]
        rfl
  · rintro ⟨items, short, rfl⟩
    induction items with
    | nil => exact .none
    | cons item rest inductionHypothesis =>
      obtain ⟨first, others⟩ := List.forall_mem_cons.mp short
      refine .item ?_ (inductionHypothesis others)
      rw [UInt8.toNat_ofNat']
      exact Nat.mod_eq_of_lt first

/-- Items whose values fit are parsed as they were encoded. Bytes that are parsed are given
back by the encoder, unless they are whole items with one byte after them.

Proof: parsed bytes are the encodings of their items, with at most one byte left over, which the
encoder does not give back. -/
theorem tlv_round_trip_iff {ε : Type} :
    (∀ items : List (UInt8 × List UInt8), (∀ item ∈ items, item.2.length ≤ 253) →
        ∃ bytes, encodeTlv items = (.ok bytes : Outcome ε _) ∧ parseTlv bytes = .ok items) ∧
      ∀ bytes, (∀ items, parseTlv bytes = .ok items →
          encodeTlv items = (.ok bytes : Outcome ε _)) ↔
        ¬∃ front extra, Whole front ∧ bytes = front ++ [extra] := by
  constructor
  · intro items fits
    have short : ∀ item ∈ items, Short item := fun item listed => by
      have bound := fits item listed
      rw [Short]
      omega
    exact ⟨_, encodeTlv_of_short short, parseTlv_flatMap short⟩
  · intro bytes
    constructor
    · rintro kept ⟨front, extra, whole, rfl⟩
      obtain ⟨items, short, rfl⟩ := (whole_iff front).mp whole
      have parsed : parseTlv (items.flatMap wire ++ [extra]) = .ok items :=
        (parseTlv_ok_iff _ _).mpr ⟨[extra], Nat.le_refl 1, rfl, short⟩
      have encoded := (encodeTlv_of_short short).symm.trans (kept items parsed)
      have lengths := congrArg List.length (Outcome.ok.inj encoded)
      rw [List.length_append, List.length_singleton] at lengths
      omega
    · intro none_left items parsed
      obtain ⟨left, single, rfl, short⟩ := (parseTlv_ok_iff _ _).mp parsed
      obtain _ | ⟨extra, _ | _⟩ := left
      · rw [List.append_nil]
        exact encodeTlv_of_short short
      · exact absurd ⟨_, extra, (whole_iff _).mpr ⟨items, short, rfl⟩, rfl⟩ none_left
      · simp at single

/-- What is accepted need not be what would be written: a byte that is left over is not kept. -/
theorem single_byte_dropped :
    ¬∀ bytes items, parseTlv bytes = .ok items →
      encodeTlv items = (.ok bytes : Outcome Empty _) := by
  intro kept
  have parsed : parseTlv [5] = .ok [] := by rw [parseTlv]
  cases kept [5] [] parsed

end RouteServer.Bytes
