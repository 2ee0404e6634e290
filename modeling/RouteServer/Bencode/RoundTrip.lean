import Mathlib.Data.Nat.Digits.Lemmas
import RouteServer.Bencode.Serializer

/-!
# Reading back what was written

A printed number is read back as long as it is within the limit of the loop that
reads it, and is an overflow otherwise. The limit of string lengths is never
reached. The limit of integers is the largest positive one: the loop accumulates
the magnitude before it applies the sign, so the least integer does not fit.

From the leaves the result extends to trees by induction. An object is read back
with what follows it exactly when it holds no least integer.
-/

namespace RouteServer.Bencode

open Rust

/-- The number spelled by digits after those of a given number. -/
def appendDigits (number : Nat) (digits : List Nat) : Nat :=
  digits.foldl (fun value digit => value * 10 + digit) number

/-- The first digit is appended first. -/
theorem appendDigits_cons (number digit : Nat) (digits : List Nat) :
    appendDigits number (digit :: digits) = appendDigits (number * 10 + digit) digits := rfl

/-- Appending digits makes no number smaller, by induction on the digits. -/
theorem appendDigits_ge (number : Nat) (digits : List Nat) :
    number ≤ appendDigits number digits := by
  induction digits generalizing number with
  | nil => exact Nat.le_refl _
  | cons digit rest inductionHypothesis =>
    have more : number * 10 + digit ≤ appendDigits (number * 10 + digit) rest :=
      inductionHypothesis _
    rw [appendDigits_cons]
    omega

/-- The ASCII byte of a digit is a digit and stands for its value. -/
theorem digitByte_value {digit : Nat} (small : digit < 10) :
    isAsciiDigit (digitByte digit) = true ∧ (digitByte digit - digitZero).toNat = digit := by
  have all : ∀ digit : Fin 10, isAsciiDigit (digitByte digit) = true ∧
      (digitByte digit - digitZero).toNat = digit := by decide
  exact all ⟨digit, small⟩

/-- A digit is none of the other bytes. -/
theorem digitByte_ne {digit : Nat} (small : digit < 10) {byte : UInt8}
    (other : isAsciiDigit byte = false) : digitByte digit ≠ byte := by
  intro same
  rw [← same, (digitByte_value small).1] at other
  cases other

/-- A digit extends the number or overflows. -/
theorem pushDigit_digitByte (decimal : Decimal) {digit : Nat} (small : digit < 10)
    (number : Nat) :
    pushDigit decimal (digitByte digit) number =
      if number * 10 + digit ≤ decimal.limit then .ok (number * 10 + digit)
      else .err decimal.overflow := by
  obtain ⟨isDigit, value⟩ := digitByte_value small
  simp only [pushDigit, isDigit, value, Bool.true_eq_false, if_false]
  split <;> split <;> first | rfl | omega

/-- The decimal loop reads digits without leading zeros as their number, if that
is within its limit. A partial number beyond the limit stays beyond it.

Proof: induction on the digits, from the first one. The number read so far is not zero as soon
as there is a digit behind it, so no zero is refused. -/
theorem readDecimal_digits (decimal : Decimal) (ends : isAsciiDigit decimal.terminator = false)
    (digit : Nat) (digits : List Nat) (number : Nat) (rest : List UInt8)
    (small : ∀ each ∈ digit :: digits, each < 10)
    (leading : number * 10 + digit ≠ 0 ∨ digits = []) :
    readDecimal decimal (digitByte digit) number
        (digits.map digitByte ++ decimal.terminator :: rest) =
      if appendDigits number (digit :: digits) ≤ decimal.limit then
        .ok (appendDigits number (digit :: digits), rest)
      else .err decimal.overflow := by
  induction digits generalizing digit number with
  | nil =>
    have digitSmall : digit < 10 := small digit List.mem_cons_self
    simp only [List.map_nil, List.nil_append]
    rw [readDecimal, if_neg (digitByte_ne digitSmall ends),
      pushDigit_digitByte decimal digitSmall, appendDigits_cons]
    have single : appendDigits (number * 10 + digit) [] = number * 10 + digit := rfl
    rw [single]
    split
    · simp only [Outcome.ok_bind, ne_eq, not_true_eq_false, false_and, and_false, if_false]
      cases rest <;> rw [readDecimal, if_pos rfl]
    · rfl
  | cons second others inductionHypothesis =>
    obtain ⟨digitSmall, othersSmall⟩ := List.forall_mem_cons.mp small
    have nonzero : number * 10 + digit ≠ 0 := by
      rcases leading with nonzero | empty
      · exact nonzero
      · cases empty
    simp only [List.map_cons, List.cons_append]
    rw [readDecimal, if_neg (digitByte_ne digitSmall ends),
      pushDigit_digitByte decimal digitSmall, appendDigits_cons]
    split
    · simp only [Outcome.ok_bind, nonzero, false_and, if_false]
      exact inductionHypothesis second (number * 10 + digit) othersSmall (Or.inl (by omega))
    · have more : number * 10 + digit ≤ appendDigits (number * 10 + digit) (second :: others) :=
        appendDigits_ge _ _
      rw [if_neg (by omega)]
      rfl

/-- A printed number is a first digit and others, without a leading zero. -/
theorem decimalDigits_cons (number : Nat) :
    ∃ digit digits, decimalDigits number = digit :: digits ∧
      (∀ each ∈ digit :: digits, each < 10) ∧ (digit ≠ 0 ∨ digits = []) ∧
      appendDigits 0 (digit :: digits) = number := by
  rw [decimalDigits]
  split
  · next zero => exact ⟨0, [], rfl, by simp, Or.inr rfl, zero.symm⟩
  · next nonzero =>
    have nonempty : Nat.digits 10 number ≠ [] := Nat.digits_ne_nil_iff_ne_zero.mpr nonzero
    obtain ⟨digit, digits, same⟩ :=
      List.exists_cons_of_ne_nil (List.reverse_ne_nil_iff.mpr nonempty)
    refine ⟨digit, digits, same, ?_, Or.inl ?_, ?_⟩
    · intro each member
      rw [← same, List.mem_reverse] at member
      exact Nat.digits_lt_base (by omega) member
    · have last : (Nat.digits 10 number).getLast nonempty = digit := by
        simp [← List.head_reverse, same]
      rw [← last]
      exact Nat.getLast_digit_ne_zero 10 nonzero
    · rw [← same, appendDigits, List.foldl_reverse]
      calc (Nat.digits 10 number).foldr (fun digit value => value * 10 + digit) 0
          = Nat.ofDigits 10 (Nat.digits 10 number) := by
            rw [Nat.ofDigits_eq_foldr]
            congr
            funext digit value
            simp only [Nat.cast_id]
            omega
        _ = number := Nat.ofDigits_digits 10 number

/-- A printed number starts with a digit, from which it is read back if it is
within the limit. -/
theorem decimal_cons (number : Nat) :
    ∃ first others, decimal number = first :: others ∧ isAsciiDigit first = true ∧
      ∀ (reader : Decimal) (rest : List UInt8), isAsciiDigit reader.terminator = false →
        readDecimal reader first 0 (others ++ reader.terminator :: rest) =
          if number ≤ reader.limit then .ok (number, rest) else .err reader.overflow := by
  obtain ⟨digit, digits, spelled, small, leading, value⟩ := decimalDigits_cons number
  refine ⟨digitByte digit, digits.map digitByte, by rw [decimal, spelled, List.map_cons],
    (digitByte_value (small digit List.mem_cons_self)).1, ?_⟩
  intro reader rest ends
  have read := readDecimal_digits reader ends digit digits 0 rest small (by simpa using leading)
  rwa [value] at read

/-- A string starts with a digit, from which it is read back. -/
theorem writeString_cons (content : Bstr) (writer : List UInt8) :
    ∃ first others, writeString content writer = first :: others ∧ isAsciiDigit first = true ∧
      ∀ acceptZeroPad,
        readStringWithByte first acceptZeroPad others = .ok (content, writer) := by
  obtain ⟨first, others, printed, isDigit, read⟩ := decimal_cons content.bytes.length
  refine ⟨first, others ++ colon :: (content.bytes ++ writer), by simp [writeString, printed],
    isDigit, ?_⟩
  intro acceptZeroPad
  have fits := (Allocator.le_full_iff _).mpr content.fits
  have length : readDecimal (lengthDigits acceptZeroPad) first 0
      (others ++ colon :: (content.bytes ++ writer)) =
        .ok (content.bytes.length, content.bytes ++ writer) := by
    refine (read (lengthDigits acceptZeroPad) _ rfl).trans (if_pos ?_)
    exact (Nat.le_sub_one_of_lt content.fits).trans (by decide : 2 ^ 63 - 1 ≤ 2 ^ 64 - 1)
  rw [readStringWithByte, length]
  simp only [Outcome.ok_bind, dif_pos fits]
  rw [if_pos (by simp)]
  simp

/-- The magnitude of an integer is beyond the limit for the least one only. -/
theorem magnitude_le_iff (number : Int64) :
    number.toInt.natAbs ≤ intDigits.limit ↔ number ≠ Int64.minValue := by
  have lower : -2 ^ 63 ≤ number.toInt := Int64.le_toInt number
  have upper : number.toInt < 2 ^ 63 := Int64.toInt_lt number
  have least : number = Int64.minValue ↔ number.toInt = -2 ^ 63 := by
    rw [← Int64.toInt_inj]
    exact Iff.rfl
  rw [ne_eq, least]
  simp only [intDigits]
  omega

/-- A printed integer is read back, unless it is the least one.

Proof: by the sign of the number. The digits of its magnitude are read within the limit unless
it is the least number, whose magnitude is one beyond it. -/
theorem readInt_written (number : Int64) (writer : List UInt8) :
    readInt (signedDecimal number ++ letterE :: writer) =
      if number = Int64.minValue then .err .integerOverflow else .ok (number, writer) := by
  obtain ⟨first, others, printed, isDigit, read⟩ := decimal_cons number.toInt.natAbs
  have digits : readDecimal intDigits first 0 (others ++ letterE :: writer) =
      if number = Int64.minValue then .err .integerOverflow
      else .ok (number.toInt.natAbs, writer) := by
    apply (read intDigits writer rfl).trans
    by_cases least : number = Int64.minValue
    · rw [if_neg (by rwa [magnitude_le_iff, not_not]), if_pos least]
      rfl
    · rw [if_pos ((magnitude_le_iff number).mpr least), if_neg least]
  have notSign : first ≠ minusSign := by
    rintro rfl
    cases isDigit
  have notEnd : first ≠ letterE := by
    rintro rfl
    cases isDigit
  by_cases negative : number.toInt < 0
  · have sign : readSign (signedDecimal number ++ letterE :: writer) =
        .ok (true, first, others ++ letterE :: writer) := by
      rw [signedDecimal, if_pos negative, printed]
      rfl
    have nonzero : number.toInt.natAbs ≠ 0 := by omega
    have back : Int64.ofInt (-(number.toInt.natAbs : Int)) = number := by
      rw [show -(number.toInt.natAbs : Int) = number.toInt by omega, Int64.ofInt_toInt]
    simp only [readInt, sign, Outcome.ok_bind, if_neg notEnd, digits]
    split
    · rfl
    · simp only [Outcome.ok_bind, if_true, if_neg nonzero, back]
  · have sign : readSign (signedDecimal number ++ letterE :: writer) =
        .ok (false, first, others ++ letterE :: writer) := by
      rw [signedDecimal, if_neg negative, printed]
      simp [readSign, readByte, notSign]
    have back : Int64.ofInt (number.toInt.natAbs : Int) = number := by
      rw [show (number.toInt.natAbs : Int) = number.toInt by omega, Int64.ofInt_toInt]
    simp only [readInt, sign, Outcome.ok_bind, if_neg notEnd, digits]
    split
    · rfl
    · simp only [Outcome.ok_bind, Bool.false_eq_true, if_false, back]

/-- What reading a written value returns: the value itself, or an overflow at the
first least integer. -/
def readBack {α : Type} (integers : List Int64) (value : α) (rest : List UInt8) :
    Outcome ParseError (α × List UInt8) :=
  if Int64.minValue ∈ integers then .err .integerOverflow else .ok (value, rest)

/-- Reading back in sequence: the later value is reached if the earlier one is
read back. -/
theorem readBack_bind {α β : Type} (earlier later : List Int64) (first : α) (second : β)
    (middle rest : List UInt8) (next : α × List UInt8 → Outcome ParseError (β × List UInt8))
    (continues : next (first, middle) = readBack later second rest) :
    (readBack earlier first middle >>= next) = readBack (earlier ++ later) second rest := by
  unfold readBack at *
  simp only [List.mem_append]
  split
  · simp [*]
  · simp only [Outcome.ok_bind, continues]
    split <;> simp [*]

/-- Wrapping what is read back. -/
theorem readBack_map {α β : Type} (integers : List Int64) (value : α) (rest : List UInt8)
    (wrap : α → β) :
    (readBack integers value rest >>= fun read => .ok (wrap read.1, read.2)) =
      readBack integers (wrap value) rest := by
  unfold readBack
  split <;> rfl

/-- No value starts with the end marker. -/
theorem writeValue_cons (value : Object) (writer : List UInt8) :
    ∃ first others, writeValue value 0 writer = first :: others ∧ first ≠ letterE := by
  cases value with
  | bytes content =>
    obtain ⟨first, others, written, isDigit, -⟩ := writeString_cons content writer
    refine ⟨first, others, by rw [writeValue, written], ?_⟩
    rintro rfl
    cases isDigit
  | dict entries => exact ⟨letterD, _, by rw [writeValue], by decide⟩
  | integer number => exact ⟨letterI, _, by rw [writeValue, writeInt], by decide⟩
  | list items => exact ⟨letterL, _, by rw [writeValue], by decide⟩

/-- Reading the items of a list after those read so far. -/
theorem readList_written (limits : Limits) (depth : Nat) (items : List Object)
    (each : ∀ item ∈ items, ∀ writer,
      readGeneric limits depth (writeValue item 0 writer) = readBack item.integers item writer)
    (before : List Object) (writer : List UInt8) :
    contents (readList limits depth before (writeItems items (letterE :: writer))) =
      readBack (itemsIntegers items) (before ++ items) writer := by
  induction items generalizing before with
  | nil =>
    rw [writeItems, readList_cons, if_pos rfl, List.append_nil]
    rfl
  | cons item others inductionHypothesis =>
    obtain ⟨itemRead, othersRead⟩ := List.forall_mem_cons.mp each
    obtain ⟨first, tail, written, notEnd⟩ :=
      writeValue_cons item (writeItems others (letterE :: writer))
    rw [writeItems, written, readList_cons, if_neg notEnd, ← written, itemRead, itemsIntegers]
    apply readBack_bind
    simp only [inductionHypothesis othersRead, List.append_assoc, List.singleton_append]

/-- Reading the entries of a dictionary after those read so far. Every key is
above the earlier ones, so its insertion appends. -/
theorem readDict_written (limits : Limits) (depth : Nat) (entries : List (Bstr × Object))
    (each : ∀ entry ∈ entries, ∀ writer, readGeneric limits depth (writeValue entry.2 0 writer) =
      readBack entry.2.integers entry.2 writer)
    (acceptZeroPad : Bool) (before : List (Bstr × Object))
    (sorted : OrderedMap.Sorted (before ++ entries)) (writer : List UInt8) :
    contents (readDict limits depth acceptZeroPad before
        (writeEntries entries (letterE :: writer))) =
      readBack (entriesIntegers entries) (before ++ entries) writer := by
  induction entries generalizing before acceptZeroPad with
  | nil =>
    rw [writeEntries, readDict_cons, if_pos rfl, List.append_nil]
    rfl
  | cons entry others inductionHypothesis =>
    obtain ⟨key, value⟩ := entry
    obtain ⟨valueRead, othersRead⟩ := List.forall_mem_cons.mp each
    obtain ⟨first, tail, written, isDigit, keyRead⟩ :=
      writeString_cons key (writeValue value 0 (writeEntries others (letterE :: writer)))
    have notEnd : first ≠ letterE := by
      rintro rfl
      cases isDigit
    have above : ∀ entry ∈ before, entry.1 < key := fun entry member =>
      (List.pairwise_append.mp sorted).2.2 entry member (key, value) List.mem_cons_self
    rw [writeEntries, written, readDict_cons, if_neg notEnd, keyRead]
    simp only [Outcome.ok_bind, valueRead, entriesIntegers]
    apply readBack_bind
    simp only [OrderedMap.insert_last key value before above]
    rw [List.append_cons] at sorted
    rw [inductionHypothesis othersRead false _ sorted, List.append_assoc, List.singleton_append]

/-- No item is nested deeper than the list. -/
theorem nesting_le_of_mem_items (item : Object) (items : List Object) (member : item ∈ items) :
    item.nesting ≤ nestingItems items := by
  induction items with
  | nil => cases member
  | cons head rest inductionHypothesis =>
    rw [nestingItems]
    rcases List.mem_cons.mp member with rfl | inside
    · exact le_max_left _ _
    · exact (inductionHypothesis inside).trans (le_max_right _ _)

/-- No value is nested deeper than the dictionary. -/
theorem nesting_le_of_mem_entries (entry : Bstr × Object) (entries : List (Bstr × Object))
    (member : entry ∈ entries) : entry.2.nesting ≤ nestingEntries entries := by
  induction entries with
  | nil => cases member
  | cons head rest inductionHypothesis =>
    obtain ⟨key, value⟩ := head
    rw [nestingEntries]
    rcases List.mem_cons.mp member with rfl | inside
    · exact le_max_left _ _
    · exact (inductionHypothesis inside).trans (le_max_right _ _)

/-- A written object is read back at every depth that leaves room for its nesting.

Proof: induction on the object. Each kind is recognized by the first byte it is written with;
the members of a container are nested less deeply than it. -/
theorem readGeneric_written (limits : Limits) (object : Object) (ordered : object.Ordered)
    (depth : Nat) (room : depth + object.nesting ≤ limits.maxRecursion + 1)
    (writer : List UInt8) :
    readGeneric limits depth (writeValue object 0 writer) =
      readBack object.integers object writer := by
  induction object using Object.tree_induction generalizing depth writer with
  | bytes content =>
    obtain ⟨first, others, written, isDigit, read⟩ := writeString_cons content writer
    simp only [Object.nesting] at room
    rw [writeValue, written, readGeneric_cons _ _ _ _ (by omega),
      if_neg (by rintro rfl; cases isDigit), if_neg (by rintro rfl; cases isDigit),
      if_neg (by rintro rfl; cases isDigit), if_pos isDigit, read]
    rfl
  | integer number =>
    simp only [Object.nesting] at room
    rw [writeValue, writeInt, readGeneric_cons _ _ _ _ (by omega), if_neg (by decide),
      if_neg (by decide), if_pos rfl, readInt_written]
    simp only [readBack, Object.integers, List.mem_singleton, eq_comm (a := Int64.minValue)]
    split <;> rfl
  | list items inductionHypothesis =>
    simp only [Object.nesting] at room
    cases ordered with
    | list _ each =>
      have itemsRead : ∀ item ∈ items, ∀ writer,
          readGeneric limits (depth + 1) (writeValue item 0 writer) =
            readBack item.integers item writer := by
        intro item member writer
        have shallow : item.nesting ≤ nestingItems items :=
          nesting_le_of_mem_items item items member
        exact inductionHypothesis item member (each item member) (depth + 1) (by omega) writer
      rw [writeValue, readGeneric_cons _ _ _ _ (by omega), if_pos rfl,
        readList_written limits (depth + 1) items itemsRead]
      exact readBack_map _ _ _ _
  | dict entries inductionHypothesis =>
    simp only [Object.nesting] at room
    cases ordered with
    | dict _ sorted each =>
      have entriesRead : ∀ entry ∈ entries, ∀ writer,
          readGeneric limits (depth + 1) (writeValue entry.2 0 writer) =
            readBack entry.2.integers entry.2 writer := by
        intro entry member writer
        have shallow : entry.2.nesting ≤ nestingEntries entries :=
          nesting_le_of_mem_entries entry entries member
        exact inductionHypothesis entry member (each entry member) (depth + 1) (by omega) writer
      rw [writeValue, readGeneric_cons _ _ _ _ (by omega), if_neg (by decide), if_pos rfl]
      dsimp only
      rw [alignDict, if_neg (by decide),
        readDict_written limits (depth + 1) entries entriesRead _ [] sorted]
      exact readBack_map _ _ _ _

/-- An object nested at most one level beyond the recursion limit is returned by
the parser, with exactly the bytes that follow it left over, if and only if it
holds no least integer.

Proof: what was written is read back value by value, by induction on the object, up to the sign of
a least integer. -/
theorem parse_serialize_iff (limits : Limits) (value : OrderedObject) (following : List UInt8)
    (shallow : value.object.nesting ≤ limits.maxRecursion + 1) :
    parse limits (serialize [] value.object 0 ++ following) = .ok (value.object, following) ↔
      Int64.minValue ∉ value.object.integers := by
  have written : serialize [] value.object 0 ++ following =
      writeValue value.object 0 following := by
    rw [serialize, ← writeValue_append, List.nil_append]
  rw [parse, written, readGeneric_written limits value.object value.ordered 0 (by omega)]
  rw [readBack]
  split <;> simp [*]

/-- A list of the largest integer and a byte string, followed by more bytes. -/
theorem parse_serialize_list :
    parse ⟨32, false⟩
        (serialize [] (.list [.integer Int64.maxValue, .bytes ⟨[102, 111], by decide⟩]) 0 ++
          [101, 0]) =
      .ok (.list [.integer Int64.maxValue, .bytes ⟨[102, 111], by decide⟩], [101, 0]) := by
  have ordered :
      (Object.list [.integer Int64.maxValue, .bytes ⟨[102, 111], by decide⟩]).Ordered := by
    refine .list _ ?_
    simp only [List.forall_mem_cons]
    exact ⟨.integer _, .bytes _, by simp⟩
  refine (parse_serialize_iff ⟨32, false⟩ ⟨_, ordered⟩ [101, 0] ?_).mpr ?_
  · simp only [Object.nesting, nestingItems]
    decide
  · simp only [Object.integers, itemsIntegers]
    decide

/-- The least integer is written as any other and refused on reading. -/
theorem least_integer_overflows :
    parse ⟨32, false⟩ (serialize [] (.integer Int64.minValue) 0) = .err .integerOverflow :=
  readGeneric_written ⟨32, false⟩ (.integer Int64.minValue) (.integer _) 0 (by decide) []

end RouteServer.Bencode
