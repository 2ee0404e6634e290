import RouteServer.Bencode.Parsed
import RouteServer.Bencode.RoundTrip

/-!
# Aligned dictionaries

Alignment puts zeros in front of the length of the first key, where a parser that
accepts padding passes over them. So a dictionary that has been parsed is read back
after it has been written with alignment, if it has any entries.

An empty dictionary has no first key. Its padding stands in front of the end marker,
and the parser takes the marker for a character of a length.
-/

namespace RouteServer.Bencode

open Rust

/-- A leading zero is passed over where it is accepted. -/
theorem readDecimal_zero {decimal : Decimal} (accepted : decimal.acceptLeadingZeros = true)
    (ends : isAsciiDigit decimal.terminator = false) (following : UInt8) (rest : List UInt8) :
    readDecimal decimal digitZero 0 (following :: rest) = readDecimal decimal following 0 rest := by
  have zero : digitByte 0 = digitZero := rfl
  have notEnd : digitZero ≠ decimal.terminator := by
    rw [← zero]
    exact digitByte_ne (by omega) ends
  rw [readDecimal, if_neg notEnd, ← zero, pushDigit_digitByte decimal (by omega)]
  simp [accepted]

/-- Padding in front of a string that starts with a digit is passed over. -/
theorem readStringWithByte_padded (count : Nat) {first : UInt8}
    (isDigit : isAsciiDigit first = true) (others : List UInt8) :
    ∃ head tail, List.replicate count digitZero ++ first :: others = head :: tail ∧
      isAsciiDigit head = true ∧
      readStringWithByte head true tail = readStringWithByte first true others := by
  induction count with
  | zero => exact ⟨first, others, rfl, isDigit, rfl⟩
  | succ count inductionHypothesis =>
    obtain ⟨head, tail, padded, -, read⟩ := inductionHypothesis
    refine ⟨digitZero, head :: tail, by rw [← padded, List.replicate_succ, List.cons_append],
      rfl, ?_⟩
    rw [← read, readStringWithByte, readDecimal_zero rfl rfl, readStringWithByte]

/-- The entries of a dictionary are read back with padding in front of the first key. -/
theorem readDict_padded (limits : Limits) (depth : Nat) (entry : Bstr × Object)
    (entries : List (Bstr × Object))
    (each : ∀ stored ∈ entry :: entries, ∀ writer,
      readGeneric limits depth (writeValue stored.2 0 writer) =
        readBack stored.2.integers stored.2 writer)
    (sorted : OrderedMap.Sorted (entry :: entries)) (count : Nat) (writer : List UInt8) :
    contents (readDict limits depth true [] (List.replicate count digitZero ++
        writeEntries (entry :: entries) (letterE :: writer))) =
      readBack (entriesIntegers (entry :: entries)) (entry :: entries) writer := by
  obtain ⟨key, value⟩ := entry
  have unpadded :=
    readDict_written limits depth ((key, value) :: entries) each true [] sorted writer
  obtain ⟨first, others, written, isDigit, -⟩ :=
    writeString_cons key (writeValue value 0 (writeEntries entries (letterE :: writer)))
  obtain ⟨head, tail, padded, headDigit, read⟩ := readStringWithByte_padded count isDigit others
  have notEnd {byte : UInt8} (digit : isAsciiDigit byte = true) : byte ≠ letterE := by
    rintro rfl
    cases digit
  rw [writeEntries, written] at unpadded ⊢
  rw [padded, readDict_cons, if_neg (notEnd headDigit), read]
  rw [readDict_cons, if_neg (notEnd isDigit)] at unpadded
  exact unpadded

/-- An aligned dictionary with entries that a parser returned is read back by it, if
it accepts padding. -/
theorem parse_aligned {limits : Limits} (accepts : limits.acceptCjdnsAlignPad = true)
    {entries : List (Bstr × Object)} (nonempty : entries ≠ [])
    (parsed : Parsed limits 0 (.dict entries)) (align : Nat) :
    parse limits (serialize [] (.dict entries) align) = .ok (.dict entries, []) := by
  obtain ⟨entry, others, rfl⟩ := List.exists_cons_of_ne_nil nonempty
  obtain ⟨ordered, shallow, readable⟩ := parsed
  cases ordered with
  | dict _ sorted each =>
    rw [Object.nesting] at shallow
    have entriesRead : ∀ stored ∈ entry :: others, ∀ writer,
        readGeneric limits 1 (writeValue stored.2 0 writer) =
          readBack stored.2.integers stored.2 writer := by
      intro stored member writer
      have inside := nesting_le_of_mem_entries stored (entry :: others) member
      exact readGeneric_written limits stored.2 (each stored member) 1 (by omega) writer
    have padding : ∃ count, alignDict align (writeEntries (entry :: others) [letterE]) =
        List.replicate count digitZero ++ writeEntries (entry :: others) [letterE] := by
      rw [alignDict]
      split
      · exact ⟨_, rfl⟩
      · exact ⟨0, rfl⟩
    obtain ⟨count, padded⟩ := padding
    rw [serialize, writeValue, padded, parse, readGeneric_cons _ _ _ _ (Nat.zero_le _),
      if_neg (by decide), if_pos rfl]
    simp only [accepts, Nat.zero_add, beq_self_eq_true, Bool.and_self]
    rw [readDict_padded limits 1 entry others entriesRead sorted count [], readBack,
      if_neg (by simpa [Object.integers] using readable)]
    rfl

/-- An aligned empty dictionary is not read back. -/
theorem parse_aligned_empty (maxRecursion : Nat) :
    parse ⟨maxRecursion, true⟩ (serialize [] (.dict []) 4) =
      .err (.invalidCharacterInStringLength letterE) := by
  have written : serialize [] (.dict []) 4 = [letterD, digitZero, digitZero, letterE] := by decide
  have key : readStringWithByte digitZero true [digitZero, letterE] =
      .err (.invalidCharacterInStringLength letterE) := by decide
  rw [written, parse, readGeneric_cons _ _ _ _ (Nat.zero_le _), if_neg (by decide), if_pos rfl]
  simp only [Nat.zero_add, beq_self_eq_true, Bool.and_self]
  rw [readDict_cons, if_neg (by decide), key]
  rfl

end RouteServer.Bencode
