import RouteServer.Bencode.Aligned

/-!
# What alignment does to a dictionary

The zeros that alignment inserts after the `d` bring the length of the encoding to the
next multiple of the boundary and change nothing else. Whether the result can be read
again depends on what follows them. In front of a first key they are leading zeros of
its length. In front of the end marker they are a length without a string, so an empty
dictionary is readable only where its two bytes need no padding.
-/

namespace RouteServer.Bencode

/-- Zeros that bring a length to the next multiple of a boundary. -/
def paddingNeeded (align totalLen : Nat) : Nat := (align - totalLen % align) % align

/-- The padded length is a multiple of the boundary. -/
theorem dvd_add_paddingNeeded {align : Nat} (positive : 1 ≤ align) (totalLen : Nat) :
    align ∣ totalLen + paddingNeeded align totalLen := by
  apply Nat.dvd_of_mod_eq_zero
  have small : totalLen % align < align := Nat.mod_lt _ positive
  rw [paddingNeeded, Nat.add_mod_mod, Nat.add_mod]
  by_cases exact : totalLen % align = 0
  · rw [exact, Nat.sub_zero, Nat.mod_self, Nat.add_zero, Nat.zero_mod]
  · rw [Nat.mod_eq_of_lt (a := align - totalLen % align) (by omega),
      Nat.add_sub_cancel' small.le, Nat.mod_self]

/-- No zeros are needed exactly where the length is a multiple already. -/
theorem paddingNeeded_eq_zero_iff {align : Nat} (positive : 1 ≤ align) (totalLen : Nat) :
    paddingNeeded align totalLen = 0 ↔ align ∣ totalLen := by
  have small : totalLen % align < align := Nat.mod_lt _ positive
  rw [paddingNeeded, Nat.dvd_iff_mod_eq_zero]
  constructor
  · intro none
    by_contra remainder
    rw [Nat.mod_eq_of_lt (by omega)] at none
    omega
  · intro exact
    rw [exact, Nat.sub_zero, Nat.mod_self]

/-- Alignment writes exactly the zeros needed. A boundary of one needs none. -/
theorem alignDict_eq {align : Nat} (positive : 1 ≤ align) (writer : List UInt8) :
    alignDict align writer =
      List.replicate (paddingNeeded align (writer.length + 1)) digitZero ++ writer := by
  rw [alignDict]
  split
  · rfl
  · next notAbove =>
    have one : align = 1 := by omega
    rw [one, paddingNeeded, Nat.mod_one]
    rfl

/-- The aligned encoding of a dictionary, next to the unaligned one. -/
theorem serialize_dict (entries : List (Bstr × Object)) {align : Nat} (positive : 1 ≤ align) :
    serialize [] (.dict entries) 0 = letterD :: writeEntries entries [letterE] ∧
      serialize [] (.dict entries) align =
        letterD :: (List.replicate
          (paddingNeeded align (serialize [] (.dict entries) 0).length) digitZero ++
            writeEntries entries [letterE]) := by
  have unaligned : serialize [] (.dict entries) 0 =
      letterD :: writeEntries entries [letterE] := by
    rw [serialize, writeValue, alignDict, if_neg (by decide)]
  refine ⟨unaligned, ?_⟩
  rw [unaligned, serialize, writeValue, alignDict_eq positive, List.length_cons]

/-- Zeros in front of the end marker are refused: the marker is no digit of a length. -/
theorem readStringWithByte_zeros (count : Nat) (rest : List UInt8) :
    readStringWithByte digitZero true (List.replicate count digitZero ++ letterE :: rest) =
      .err (.invalidCharacterInStringLength letterE) := by
  have refused : readDecimal (lengthDigits true) digitZero 0
      (List.replicate count digitZero ++ letterE :: rest) =
        .err (.invalidCharacterInStringLength letterE) := by
    induction count with
    | zero =>
      rw [List.replicate_zero, List.nil_append, readDecimal_zero rfl rfl]
      cases rest with
      | nil => decide
      | cons following others =>
        rw [readDecimal, if_neg (by decide)]
        rfl
    | succ count inductionHypothesis =>
      rw [List.replicate_succ, List.cons_append, readDecimal_zero rfl rfl]
      exact inductionHypothesis
  rw [readStringWithByte, refused]
  rfl

/-- A padded empty dictionary is refused by every parser that accepts padding. -/
theorem parse_padded_empty (maxRecursion count : Nat) :
    parse ⟨maxRecursion, true⟩
        (letterD :: (List.replicate (count + 1) digitZero ++ [letterE])) =
      .err (.invalidCharacterInStringLength letterE) := by
  rw [parse, readGeneric_cons _ _ _ _ (Nat.zero_le _), if_neg (by decide), if_pos rfl]
  simp only [Nat.zero_add, beq_self_eq_true, Bool.and_self]
  rw [List.replicate_succ, List.cons_append, readDict_cons, if_neg (by decide),
    readStringWithByte_zeros]
  rfl

/-- The empty dictionary is read again exactly where it needs no padding. -/
theorem parse_aligned_empty_iff (maxRecursion : Nat) {align : Nat} (positive : 1 ≤ align) :
    parse ⟨maxRecursion, true⟩ (serialize [] (.dict []) align) = .ok (.dict [], []) ↔
      align ∣ 2 := by
  obtain ⟨unaligned, aligned⟩ := serialize_dict [] positive
  have two : (serialize [] (.dict []) 0).length = 2 := by
    rw [unaligned]
    rfl
  rw [aligned, two, ← paddingNeeded_eq_zero_iff positive]
  cases paddingNeeded align 2 with
  | zero =>
    refine iff_of_true ?_ rfl
    rw [parse, readGeneric_cons _ _ _ _ (Nat.zero_le _), if_neg (by decide), if_pos rfl]
    dsimp only [List.replicate_zero, List.nil_append, writeEntries]
    rw [readDict_cons, if_pos rfl]
    rfl
  | succ count =>
    refine iff_of_false ?_ (Nat.succ_ne_zero count)
    rw [writeEntries, parse_padded_empty]
    intro same
    cases same

/-- A dictionary that is read back unaligned is written aligned as the same bytes with
zeros after the `d`, up to a multiple of the boundary. It is read back from them if and
only if it has entries or needs no padding.

Proof: the padding is zeros behind the first letter. Before a key the parser passes over them as
over zeros in front of a length; before the end of an empty dictionary it does not. -/
theorem aligned_read_back_iff (maxRecursion : Nat) (acceptPad : Bool)
    (entries : List (Bstr × Object)) (align : Nat) (positive : 1 ≤ align)
    (unaligned : parse ⟨maxRecursion, acceptPad⟩ (serialize [] (.dict entries) 0) =
      .ok (.dict entries, [])) :
    (align ∣ (serialize [] (.dict entries) align).length ∧
        (∃ count body, serialize [] (.dict entries) 0 = letterD :: body ∧
          serialize [] (.dict entries) align =
            letterD :: (List.replicate count digitZero ++ body)) ∧
        parse ⟨maxRecursion, true⟩ (serialize [] (.dict entries) align) =
          .ok (.dict entries, [])) ↔
      entries ≠ [] ∨ align ∣ 2 := by
  obtain ⟨plain, aligned⟩ := serialize_dict entries positive
  have multiple : align ∣ (serialize [] (.dict entries) align).length := by
    have padded :=
      dvd_add_paddingNeeded positive (serialize [] (.dict entries) 0).length
    rw [aligned, List.length_cons, List.length_append, List.length_replicate]
    have length : (serialize [] (.dict entries) 0).length =
        (writeEntries entries [letterE]).length + 1 := by
      rw [plain, List.length_cons]
    rw [show ∀ count, count + (writeEntries entries [letterE]).length + 1 =
      (serialize [] (.dict entries) 0).length + count by omega]
    exact padded
  have inserted : ∃ count body, serialize [] (.dict entries) 0 = letterD :: body ∧
      serialize [] (.dict entries) align =
        letterD :: (List.replicate count digitZero ++ body) :=
    ⟨_, _, plain, aligned⟩
  have stored : Parsed ⟨maxRecursion, true⟩ 0 (.dict entries) := by
    obtain ⟨ordered, room, readable⟩ := parsed_of_parse unaligned
    exact ⟨ordered, room, readable⟩
  by_cases nonempty : entries = []
  · subst nonempty
    simp only [multiple, inserted, true_and, ne_eq, not_true_eq_false, false_or]
    exact parse_aligned_empty_iff maxRecursion positive
  · refine iff_of_true ⟨multiple, inserted, ?_⟩ (Or.inl nonempty)
    exact parse_aligned rfl nonempty stored align

/-- `d1:xi-1ee` at a boundary of eight. -/
theorem aligned_read_back_negative :
    (8 ∣ (serialize [] (.dict [(⟨[120], by decide⟩, .integer (-1))]) 8).length ∧
        (∃ count body,
          serialize [] (.dict [(⟨[120], by decide⟩, .integer (-1))]) 0 = letterD :: body ∧
          serialize [] (.dict [(⟨[120], by decide⟩, .integer (-1))]) 8 =
            letterD :: (List.replicate count digitZero ++ body)) ∧
        parse ⟨32, true⟩ (serialize [] (.dict [(⟨[120], by decide⟩, .integer (-1))]) 8) =
          .ok (.dict [(⟨[120], by decide⟩, .integer (-1))], [])) := by
  have ordered : (Object.dict [(⟨[120], by decide⟩, .integer (-1))]).Ordered := by
    refine .dict _ (List.pairwise_singleton _ _) ?_
    simp only [List.forall_mem_singleton]
    exact .integer (-1)
  have unaligned := readGeneric_written ⟨32, false⟩ _ ordered 0
    (by simp only [Object.nesting, nestingEntries]; decide) []
  rw [readBack, if_neg (by simp only [Object.integers, entriesIntegers]; decide)] at unaligned
  exact (aligned_read_back_iff 32 false _ 8 (by decide) unaligned).mpr (Or.inl (by simp))

/-- The empty dictionary is read back unaligned, and not at a boundary of eight. -/
theorem empty_dict_not_read_back :
    parse ⟨32, false⟩ (serialize [] (.dict []) 0) = .ok (.dict [], []) ∧
      parse ⟨32, true⟩ (serialize [] (.dict []) 8) ≠ .ok (.dict [], []) := by
  constructor
  · have ordered : (Object.dict []).Ordered := .dict [] List.Pairwise.nil (by simp)
    have unaligned := readGeneric_written ⟨32, false⟩ _ ordered 0
      (by simp only [Object.nesting, nestingEntries]; decide) []
    rwa [readBack, if_neg (by simp [Object.integers, entriesIntegers])] at unaligned
  · rw [ne_eq, parse_aligned_empty_iff 32 (by decide)]
    decide

end RouteServer.Bencode
