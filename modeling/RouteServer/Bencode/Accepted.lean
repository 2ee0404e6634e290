import RouteServer.Bencode.Parsed
import RouteServer.Bencode.Unambiguous

/-!
# What the parser accepts

The parser reads every tree, unless it spells the least integer, and it reads nothing
else. Two things set it apart from the format: the least integer overflows, and a colon
alone passes for an empty key.
-/

namespace RouteServer.Bencode

open Rust

/-- A string is spelled as it is written. -/
theorem StringLiteral.bytes_append (literal : StringLiteral) (rest : List UInt8) :
    literal.bytes ++ rest = writeString literal.content rest := by
  rw [StringLiteral.bytes, literal.length.digits_eq, ← literal.exact, writeString,
    List.append_assoc, List.cons_append]

/-- The integer a literal spells has its sign and its magnitude. -/
theorem IntegerLiteral.number_toInt (literal : IntegerLiteral) :
    literal.number.toInt =
      if literal.negative then -(literal.magnitude.value : Int) else literal.magnitude.value := by
  have inRange := literal.inRange
  rw [IntegerLiteral.number]
  split
  · next negative =>
    rw [if_pos negative] at inRange
    exact Int64.toInt_ofInt_of_le (by omega) (by omega)
  · next notNegative =>
    rw [if_neg notNegative] at inRange
    exact Int64.toInt_ofInt_of_le (by omega) (by omega)

/-- An integer is spelled as it is written. -/
theorem IntegerLiteral.bytes_append (literal : IntegerLiteral) (rest : List UInt8) :
    literal.bytes ++ rest = writeInt literal.number rest := by
  have spelledNumber : signedDecimal literal.number =
      (if literal.negative then [minusSign] else []) ++ literal.magnitude.digits := by
    have number := literal.number_toInt
    rw [signedDecimal, number, literal.magnitude.digits_eq]
    cases sign : literal.negative with
    | true =>
      have nonzero := literal.nonzero sign
      simp only [if_true]
      rw [if_pos (by omega), Int.natAbs_neg, Int.natAbs_natCast]
      rfl
    | false =>
      simp only [Bool.false_eq_true, if_false]
      rw [if_neg (by omega), Int.natAbs_natCast]
      rfl
  rw [writeInt, spelledNumber, IntegerLiteral.bytes]
  simp only [List.cons_append, List.append_assoc, List.nil_append]

/-- A colon alone is a length of zero. -/
theorem readDecimal_colon (acceptZeroPad : Bool) (input : List UInt8) :
    readDecimal (lengthDigits acceptZeroPad) colon 0 input = .ok (0, input) := by
  have ends : colon = (lengthDigits acceptZeroPad).terminator := rfl
  cases input <;> rw [readDecimal, if_pos ends]

/-- A key is read as the string it stands for. A colon alone ends a length without
digits, which is zero. -/
theorem Key.read (key : Key) (acceptZeroPad : Bool) (rest : List UInt8) :
    ∃ first others, key.bytes ++ rest = first :: others ∧ first ≠ letterE ∧
      readStringWithByte first acceptZeroPad others = .ok (key.content, rest) := by
  cases key with
  | literal spelling =>
    obtain ⟨first, others, written, isDigit, read⟩ := writeString_cons spelling.content rest
    refine ⟨first, others, ?_, ?_, read acceptZeroPad⟩
    · rw [Key.bytes, spelling.bytes_append, written]
    · rintro rfl
      cases isDigit
  | bare =>
    refine ⟨colon, rest, rfl, by decide, ?_⟩
    rw [readStringWithByte, readDecimal_colon]
    simp [Key.content]

/-- Reading the items of a list after those read so far. -/
theorem readList_spelled (limits : Limits) (depth : Nat) (items : List Tree)
    (each : ∀ item ∈ items, ∀ rest,
      readGeneric limits depth (item.bytes ++ rest) = readBack item.numbers item.object rest)
    (before : List Object) (rest : List UInt8) :
    contents (readList limits depth before (itemsBytes items ++ letterE :: rest)) =
      readBack (itemsNumbers items) (before ++ itemsObjects items) rest := by
  induction items generalizing before with
  | nil =>
    rw [itemsBytes, List.nil_append, readList_cons, if_pos rfl, itemsObjects, List.append_nil]
    rfl
  | cons item others inductionHypothesis =>
    obtain ⟨itemRead, othersRead⟩ := List.forall_mem_cons.mp each
    obtain ⟨first, tail, spelled, starts⟩ := item.bytes_cons
    rw [itemsBytes, List.append_assoc, spelled, List.cons_append, readList_cons,
      if_neg starts.ne_letterE, ← List.cons_append, ← spelled, itemRead, itemsNumbers]
    apply readBack_bind
    simp only [inductionHypothesis othersRead, itemsObjects, List.append_assoc,
      List.singleton_append]

/-- Reading the entries of a dictionary after those read so far. -/
theorem readDict_spelled (limits : Limits) (depth : Nat) (entries : List (Key × Tree))
    (each : ∀ entry ∈ entries, ∀ rest, readGeneric limits depth (entry.2.bytes ++ rest) =
      readBack entry.2.numbers entry.2.object rest)
    (acceptZeroPad : Bool) (stored : List (Bstr × Object)) (rest : List UInt8) :
    contents (readDict limits depth acceptZeroPad stored
        (entriesBytes entries ++ letterE :: rest)) =
      readBack (entriesNumbers entries) (storeEntries stored entries) rest := by
  induction entries generalizing stored acceptZeroPad with
  | nil =>
    rw [entriesBytes, List.nil_append, readDict_cons, if_pos rfl]
    rfl
  | cons entry others inductionHypothesis =>
    obtain ⟨key, value⟩ := entry
    obtain ⟨valueRead, othersRead⟩ := List.forall_mem_cons.mp each
    obtain ⟨first, tail, spelled, notEnd, keyRead⟩ :=
      key.read acceptZeroPad (value.bytes ++ (entriesBytes others ++ letterE :: rest))
    rw [entriesBytes, List.append_assoc, List.append_assoc, spelled, readDict_cons,
      if_neg notEnd, keyRead]
    simp only [Outcome.ok_bind, valueRead, entriesNumbers]
    apply readBack_bind
    simp only [inductionHypothesis othersRead, storeEntries]

/-- No item is deeper than the deepest. -/
theorem levels_le_of_mem_items (item : Tree) (items : List Tree) (member : item ∈ items) :
    item.levels ≤ itemsLevels items := by
  induction items with
  | nil => cases member
  | cons head rest inductionHypothesis =>
    rw [itemsLevels]
    rcases List.mem_cons.mp member with rfl | inside
    · exact le_max_left _ _
    · exact (inductionHypothesis inside).trans (le_max_right _ _)

/-- No value is deeper than the deepest. -/
theorem levels_le_of_mem_entries (entry : Key × Tree) (entries : List (Key × Tree))
    (member : entry ∈ entries) : entry.2.levels ≤ entriesLevels entries := by
  induction entries with
  | nil => cases member
  | cons head rest inductionHypothesis =>
    obtain ⟨key, value⟩ := head
    rw [entriesLevels]
    rcases List.mem_cons.mp member with rfl | inside
    · exact le_max_left _ _
    · exact (inductionHypothesis inside).trans (le_max_right _ _)

/-- A tree within the depth limit is read as its object, whatever follows it, unless it
spells the least integer.

Proof: induction on the tree. Strings and integers are read as they would be if written; for a
list or a dictionary the loop reads its members, which are within the depth because the whole
is. -/
theorem readGeneric_spelled (limits : Limits) (tree : Tree) (depth : Nat)
    (room : depth + tree.levels ≤ limits.maxRecursion + 1) (rest : List UInt8) :
    readGeneric limits depth (tree.bytes ++ rest) = readBack tree.numbers tree.object rest := by
  induction tree using Tree.tree_induction generalizing depth rest with
  | string literal =>
    rw [Tree.levels] at room
    have read := readGeneric_written limits (.bytes literal.content) (.bytes _) depth
      (by rwa [Object.nesting]) rest
    rwa [writeValue, ← literal.bytes_append, Object.integers] at read
  | integer literal =>
    rw [Tree.levels] at room
    have read := readGeneric_written limits (.integer literal.number) (.integer _) depth
      (by rwa [Object.nesting]) rest
    rwa [writeValue, ← literal.bytes_append, Object.integers] at read
  | list items inductionHypothesis =>
    rw [Tree.levels] at room
    have itemsRead : ∀ item ∈ items, ∀ rest,
        readGeneric limits (depth + 1) (item.bytes ++ rest) =
          readBack item.numbers item.object rest := by
      intro item member rest
      have shallow : item.levels ≤ itemsLevels items := levels_le_of_mem_items item items member
      exact inductionHypothesis item member (depth + 1) (by omega) rest
    rw [Tree.bytes, List.cons_append, List.append_assoc, List.singleton_append,
      readGeneric_cons _ _ _ _ (by omega), if_pos rfl,
      readList_spelled limits (depth + 1) items itemsRead, List.nil_append]
    exact readBack_map _ _ _ _
  | dict entries inductionHypothesis =>
    rw [Tree.levels] at room
    have entriesRead : ∀ entry ∈ entries, ∀ rest,
        readGeneric limits (depth + 1) (entry.2.bytes ++ rest) =
          readBack entry.2.numbers entry.2.object rest := by
      intro entry member rest
      have shallow : entry.2.levels ≤ entriesLevels entries :=
        levels_le_of_mem_entries entry entries member
      exact inductionHypothesis entry member (depth + 1) (by omega) rest
    rw [Tree.bytes, List.cons_append, List.append_assoc, List.singleton_append,
      readGeneric_cons _ _ _ _ (by omega), if_neg (by decide), if_pos rfl]
    dsimp only
    rw [readDict_spelled limits (depth + 1) entries entriesRead]
    exact readBack_map _ _ _ _

/-! ## Nothing else is read -/

/-- A digit is pushed only if it is one and the number stays in range. -/
theorem pushDigit_ok {decimal : Decimal} {byte : UInt8} {number next : Nat}
    (pushed : pushDigit decimal byte number = .ok next) :
    isAsciiDigit byte = true ∧ next = number * 10 + (byte - digitZero).toNat := by
  rw [pushDigit] at pushed
  split at pushed
  · cases pushed
  · next notRefused =>
    dsimp only at pushed
    split at pushed
    · cases pushed
    · cases pushed
      exact ⟨by simpa using notRefused, rfl⟩

/-- A number that has been read is spelled by the digits in front of its terminator.
They start with a superfluous zero only where that is accepted.

Proof: induction on the input. Each turn takes one digit, whose value is added to those taken
before. -/
theorem readDecimal_sound {decimal : Decimal} (ends : isAsciiDigit decimal.terminator = false)
    {byte : UInt8} {number result : Nat} {input rest : List UInt8}
    (read : readDecimal decimal byte number input = .ok (result, rest)) :
    ∃ digits, byte :: input = digits ++ decimal.terminator :: rest ∧
      (∀ each ∈ digits, isAsciiDigit each = true) ∧ spelled number digits = result ∧
      (decimal.acceptLeadingZeros = false → ∀ digit others, digits = digit :: others →
        number * 10 + (digit - digitZero).toNat = 0 → others = []) := by
  induction input generalizing byte number with
  | nil =>
    rw [readDecimal] at read
    split at read
    · next same =>
      cases read
      exact ⟨[], by rw [same, List.nil_append], by simp, rfl, by simp⟩
    · simp [Outcome.bind_ok_iff] at read
  | cons following tail inductionHypothesis =>
    rw [readDecimal] at read
    split at read
    · next same =>
      cases read
      exact ⟨[], by rw [same, List.nil_append], by simp, rfl, by simp⟩
    · obtain ⟨next, push, loop⟩ := (Outcome.bind_ok_iff _ _ _).mp read
      obtain ⟨isDigit, value⟩ := pushDigit_ok push
      split at loop
      · cases loop
      · next noZero =>
        obtain ⟨digits, split, each, sum, -⟩ := inductionHypothesis loop
        refine ⟨byte :: digits, by rw [split, List.cons_append],
          List.forall_mem_cons.mpr ⟨isDigit, each⟩, ?_, ?_⟩
        · rw [← sum, value]
          rfl
        · intro strict digit others same zero
          obtain ⟨rfl, rfl⟩ := List.cons.inj same
          -- a zero in front is followed by the terminator, so no digit is left
          have last : following = decimal.terminator := by
            by_contra other
            exact noZero ⟨value.trans zero, other, strict⟩
          cases digits with
          | nil => rfl
          | cons second others =>
            rw [List.cons_append] at split
            have digit := each second List.mem_cons_self
            rw [← (List.cons.inj split).1, last, ends] at digit
            cases digit

/-- Digits that have been read without a superfluous zero are a numeral. -/
theorem numeral_of_read (decimal : Decimal) (ends : isAsciiDigit decimal.terminator = false)
    (strict : decimal.acceptLeadingZeros = false) {byte : UInt8} {result : Nat}
    {input rest : List UInt8} (started : byte ≠ decimal.terminator)
    (read : readDecimal decimal byte 0 input = .ok (result, rest)) :
    ∃ numeral : Numeral, byte :: input = numeral.digits ++ decimal.terminator :: rest ∧
      numeral.value = result := by
  obtain ⟨digits, split, each, sum, leading⟩ := readDecimal_sound ends read
  cases digits with
  | nil => exact absurd (List.cons.inj split).1 started
  | cons digit others =>
    refine ⟨⟨digit :: others, List.cons_ne_nil _ _, each, ?_⟩, split, sum⟩
    intro zero
    rw [List.head?_cons, Option.some.injEq] at zero
    subst zero
    rw [leading strict digitZero others rfl rfl]

/-- A string that has been read stands behind its length. -/
theorem content_of_read {byte : UInt8} {acceptZeroPad : Bool} {input rest : List UInt8}
    {content : Bstr} (read : readStringWithByte byte acceptZeroPad input = .ok (content, rest)) :
    readDecimal (lengthDigits acceptZeroPad) byte 0 input =
      .ok (content.bytes.length, content.bytes ++ rest) := by
  rw [readStringWithByte] at read
  obtain ⟨⟨length, afterLength⟩, digits, finish⟩ := (Outcome.bind_ok_iff _ _ _).mp read
  dsimp only at finish
  split at finish
  · next fits =>
    split at finish
    · next enough =>
      obtain ⟨rfl, rfl⟩ := Prod.mk.inj (Outcome.ok.inj finish)
      dsimp only
      rw [digits, List.length_take, Nat.min_eq_left enough, List.take_append_drop]
    · cases finish
  · cases finish

/-- What is read as a string is a key. It has a length unless it starts with the colon. -/
theorem readStringWithByte_sound {byte : UInt8} {input rest : List UInt8} {content : Bstr}
    (read : readStringWithByte byte false input = .ok (content, rest)) :
    ∃ key : Key, byte :: input = key.bytes ++ rest ∧ key.content = content ∧
      (byte ≠ colon → ∃ literal, key = .literal literal) := by
  have digits := content_of_read read
  by_cases started : byte = colon
  · subst started
    rw [readDecimal_colon] at digits
    obtain ⟨none, following⟩ := Prod.mk.inj (Outcome.ok.inj digits)
    obtain ⟨bytes, fits⟩ := content
    have empty : bytes = [] := List.length_eq_zero_iff.mp none.symm
    subst empty
    exact ⟨.bare, by rw [following]; rfl, rfl, fun other => absurd rfl other⟩
  · obtain ⟨numeral, split, value⟩ := numeral_of_read (lengthDigits false) rfl rfl started digits
    refine ⟨.literal ⟨numeral, content, value.symm⟩, ?_, rfl, fun _ => ⟨_, rfl⟩⟩
    rw [split, Key.bytes, StringLiteral.bytes, List.append_assoc, List.cons_append]
    rfl

/-- A sign that has been read stands in front of the byte after it. -/
theorem readSign_sound {input rest : List UInt8} {isNegative : Bool} {byte : UInt8}
    (read : readSign input = .ok (isNegative, byte, rest)) :
    input = (if isNegative then [minusSign] else []) ++ byte :: rest := by
  simp only [readSign, Outcome.bind_ok_iff, Prod.exists, readByte_ok_iff] at read
  obtain ⟨first, afterFirst, rfl, second⟩ := read
  split at second
  · next minus =>
    simp only [Outcome.bind_ok_iff, Prod.exists, readByte_ok_iff] at second
    obtain ⟨digit, afterDigit, rfl, same⟩ := second
    cases same
    rw [minus]
    rfl
  · cases second
    rfl

/-- What is read as an integer is an integer literal.

Proof: by the sign that was read. The digits are within the range because the loop keeps to its
limit, and a sign in front of zero is refused. -/
theorem readInt_sound {input rest : List UInt8} {number : Int64}
    (read : readInt input = .ok (number, rest)) :
    ∃ literal : IntegerLiteral, letterI :: input = literal.bytes ++ rest ∧
      literal.number = number := by
  simp only [readInt, Outcome.bind_ok_iff, Prod.exists] at read
  obtain ⟨isNegative, byte, afterSign, sign, body⟩ := read
  split at body
  · cases body
  · next started =>
    simp only [Outcome.bind_ok_iff, Prod.exists] at body
    obtain ⟨value, afterDigits, digits, finish⟩ := body
    have bound : value ≤ 2 ^ 63 - 1 := readDecimal_le (Nat.zero_le _) digits
    obtain ⟨numeral, split, magnitude⟩ :=
      numeral_of_read intDigits rfl rfl started digits
    have spelledBytes : letterI :: input =
        letterI :: ((if isNegative then [minusSign] else []) ++
          (numeral.digits ++ [letterE])) ++ afterDigits := by
      rw [readSign_sound sign, split]
      simp only [List.cons_append, List.append_assoc, List.nil_append]
      rfl
    cases isNegative with
    | true =>
      simp only [if_true] at finish
      split at finish
      · cases finish
      · next nonzero =>
        obtain ⟨rfl, rfl⟩ := Prod.mk.inj (Outcome.ok.inj finish)
        refine ⟨⟨true, numeral, fun _ => by rwa [magnitude], ?_⟩, spelledBytes, ?_⟩
        · rw [if_pos rfl]
          omega
        · simp [IntegerLiteral.number, magnitude]
    | false =>
      simp only [Bool.false_eq_true, if_false] at finish
      obtain ⟨rfl, rfl⟩ := Prod.mk.inj (Outcome.ok.inj finish)
      refine ⟨⟨false, numeral, fun negative => absurd negative (by decide), ?_⟩, spelledBytes, ?_⟩
      · rw [if_neg (by decide)]
        omega
      · simp [IntegerLiteral.number, magnitude]

/-- A bound for every item bounds the deepest. -/
theorem itemsLevels_le {items : List Tree} {bound : Nat}
    (each : ∀ item ∈ items, item.levels ≤ bound) : itemsLevels items ≤ bound := by
  induction items with
  | nil => exact Nat.zero_le _
  | cons item rest inductionHypothesis =>
    obtain ⟨first, others⟩ := List.forall_mem_cons.mp each
    exact Nat.max_le.mpr ⟨first, inductionHypothesis others⟩

/-- A bound for every value bounds the deepest. -/
theorem entriesLevels_le {entries : List (Key × Tree)} {bound : Nat}
    (each : ∀ entry ∈ entries, entry.2.levels ≤ bound) : entriesLevels entries ≤ bound := by
  induction entries with
  | nil => exact Nat.zero_le _
  | cons entry rest inductionHypothesis =>
    obtain ⟨first, others⟩ := List.forall_mem_cons.mp each
    exact Nat.max_le.mpr ⟨first, inductionHypothesis others⟩

/-- At a depth where no padding is accepted in front of a key. -/
def Unpadded (limits : Limits) (depth : Nat) : Prop :=
  limits.acceptCjdnsAlignPad = false ∨ 1 ≤ depth

/-- The flag that a dictionary is read with. -/
theorem Unpadded.flag {limits : Limits} {depth : Nat} (unpadded : Unpadded limits depth) :
    (limits.acceptCjdnsAlignPad && depth + 1 == 1) = false := by
  rcases unpadded with strict | inside
  · rw [strict, Bool.false_and]
  · have deeper : (depth + 1 == 1) = false := by
      rw [beq_eq_false_iff_ne]
      omega
    rw [deeper, Bool.and_false]

/-- What the readers return from streams up to a length is spelled there. -/
structure SpelledUpTo (limits : Limits) (bound : Nat) : Prop where
  generic : ∀ (depth : Nat) (input rest : List UInt8) (object : Object),
    Unpadded limits depth → input.length ≤ bound →
    readGeneric limits depth input = .ok (object, rest) →
    ∃ tree : Tree, input = tree.bytes ++ rest ∧ tree.object = object ∧
      depth + tree.levels ≤ limits.maxRecursion + 1
  list : ∀ (depth : Nat) (input rest : List UInt8) (before all : List Object),
    Unpadded limits depth → input.length ≤ bound →
    contents (readList limits depth before input) = .ok (all, rest) →
    ∃ items : List Tree, input = itemsBytes items ++ letterE :: rest ∧
      before ++ itemsObjects items = all ∧
      ∀ item ∈ items, depth + item.levels ≤ limits.maxRecursion + 1
  dict : ∀ (depth : Nat) (input rest : List UInt8) (stored all : List (Bstr × Object)),
    Unpadded limits depth → input.length ≤ bound →
    contents (readDict limits depth false stored input) = .ok (all, rest) →
    ∃ entries : List (Key × Tree), input = entriesBytes entries ++ letterE :: rest ∧
      storeEntries stored entries = all ∧
      ∀ entry ∈ entries, depth + entry.2.levels ≤ limits.maxRecursion + 1

/-- A value by its first byte, from what follows it.

Proof: by the first byte, as the reader branches on it. Lists and dictionaries have been read
from a shorter stream, so the hypothesis gives their members as trees. -/
theorem SpelledUpTo.generic_step {limits : Limits} {bound : Nat}
    (shorter : SpelledUpTo limits bound) (depth : Nat) (input rest : List UInt8)
    (object : Object) (unpadded : Unpadded limits depth) (short : input.length ≤ bound + 1)
    (read : readGeneric limits depth input = .ok (object, rest)) :
    ∃ tree : Tree, input = tree.bytes ++ rest ∧ tree.object = object ∧
      depth + tree.levels ≤ limits.maxRecursion + 1 := by
  have permitted : depth ≤ limits.maxRecursion := readGeneric_permitted read
  have inside : Unpadded limits (depth + 1) := Or.inr (Nat.le_add_left 1 depth)
  cases input with
  | nil => cases read
  | cons chr tail =>
    have tailShort : tail.length ≤ bound := Nat.le_of_succ_le_succ short
    rw [readGeneric_cons limits depth chr tail permitted, unpadded.flag] at read
    split at read
    · next isList =>
      obtain ⟨⟨objects, after⟩, itemsRead, built⟩ := (Outcome.bind_ok_iff _ _ _).mp read
      cases built
      obtain ⟨items, split, same, each⟩ := shorter.list _ _ _ _ _ inside tailShort itemsRead
      have levels : itemsLevels items ≤ limits.maxRecursion - depth := by
        apply itemsLevels_le
        intro item member
        have room := each item member
        omega
      refine ⟨.list items, ?_, ?_, ?_⟩
      · rw [isList, split, Tree.bytes, List.cons_append, List.append_assoc, List.singleton_append]
      · rw [Tree.object, ← same, List.nil_append]
      · rw [Tree.levels]
        omega
    · split at read
      · next isDict =>
        obtain ⟨⟨stored, after⟩, entriesRead, built⟩ := (Outcome.bind_ok_iff _ _ _).mp read
        cases built
        obtain ⟨entries, split, same, each⟩ :=
          shorter.dict _ _ _ _ _ inside tailShort entriesRead
        have levels : entriesLevels entries ≤ limits.maxRecursion - depth := by
          apply entriesLevels_le
          intro entry member
          have room := each entry member
          omega
        refine ⟨.dict entries, ?_, ?_, ?_⟩
        · rw [isDict, split, Tree.bytes, List.cons_append, List.append_assoc,
            List.singleton_append]
        · rw [Tree.object, same]
        · rw [Tree.levels]
          omega
      · split at read
        · next isInteger =>
          obtain ⟨⟨number, after⟩, numberRead, built⟩ := (Outcome.bind_ok_iff _ _ _).mp read
          cases built
          obtain ⟨literal, split, same⟩ := readInt_sound numberRead
          refine ⟨.integer literal, ?_, ?_, ?_⟩
          · rw [isInteger, split, Tree.bytes]
          · rw [Tree.object, same]
          · rw [Tree.levels]
            omega
        · split at read
          · next isDigit =>
            obtain ⟨⟨content, after⟩, stringRead, built⟩ := (Outcome.bind_ok_iff _ _ _).mp read
            cases built
            obtain ⟨key, split, same, spelledKey⟩ := readStringWithByte_sound stringRead
            have notColon : chr ≠ colon := by
              rintro rfl
              cases isDigit
            obtain ⟨literal, rfl⟩ := spelledKey notColon
            refine ⟨.string literal, ?_, ?_, ?_⟩
            · rw [split, Tree.bytes, Key.bytes]
            · rw [Tree.object, ← same, Key.content]
            · rw [Tree.levels]
              omega
          · cases read

/-- The items of a list, from what follows the first one. -/
theorem SpelledUpTo.list_step {limits : Limits} {bound : Nat} (shorter : SpelledUpTo limits bound)
    (depth : Nat) (input rest : List UInt8) (before all : List Object)
    (unpadded : Unpadded limits depth) (short : input.length ≤ bound + 1)
    (read : contents (readList limits depth before input) = .ok (all, rest)) :
    ∃ items : List Tree, input = itemsBytes items ++ letterE :: rest ∧
      before ++ itemsObjects items = all ∧
      ∀ item ∈ items, depth + item.levels ≤ limits.maxRecursion + 1 := by
  cases input with
  | nil =>
    rw [readList] at read
    cases read
  | cons byte tail =>
    rw [readList_cons] at read
    split at read
    · next isEnd =>
      cases read
      exact ⟨[], by rw [isEnd, itemsBytes, List.nil_append],
        by rw [itemsObjects, List.append_nil], by simp⟩
    · obtain ⟨⟨object, after⟩, itemRead, others⟩ := (Outcome.bind_ok_iff _ _ _).mp read
      have left : after.length < tail.length + 1 := readGeneric_length itemRead
      obtain ⟨item, itemSplit, rfl, room⟩ :=
        shorter.generic_step depth _ _ object unpadded short itemRead
      rw [List.length_cons] at short
      obtain ⟨items, split, same, each⟩ :=
        shorter.list depth after rest _ all unpadded (by omega) others
      refine ⟨item :: items, ?_, ?_, List.forall_mem_cons.mpr ⟨room, each⟩⟩
      · rw [itemSplit, split, itemsBytes, List.append_assoc]
      · rw [← same, itemsObjects, List.append_assoc, List.singleton_append]

/-- The entries of a dictionary, from what follows the first one.

Proof: the key and the value in front have been read, and leave a shorter stream, to which the
hypothesis applies. -/
theorem SpelledUpTo.dict_step {limits : Limits} {bound : Nat} (shorter : SpelledUpTo limits bound)
    (depth : Nat) (input rest : List UInt8) (stored all : List (Bstr × Object))
    (unpadded : Unpadded limits depth) (short : input.length ≤ bound + 1)
    (read : contents (readDict limits depth false stored input) = .ok (all, rest)) :
    ∃ entries : List (Key × Tree), input = entriesBytes entries ++ letterE :: rest ∧
      storeEntries stored entries = all ∧
      ∀ entry ∈ entries, depth + entry.2.levels ≤ limits.maxRecursion + 1 := by
  cases input with
  | nil =>
    rw [readDict] at read
    cases read
  | cons byte tail =>
    rw [readDict_cons] at read
    split at read
    · next isEnd =>
      cases read
      exact ⟨[], by rw [isEnd, entriesBytes, List.nil_append], rfl, by simp⟩
    · obtain ⟨⟨content, afterKey⟩, keyRead, afterwards⟩ := (Outcome.bind_ok_iff _ _ _).mp read
      obtain ⟨⟨object, after⟩, valueRead, others⟩ := (Outcome.bind_ok_iff _ _ _).mp afterwards
      have keyLeft := readStringWithByte_length byte false tail afterKey content keyRead
      have left : after.length < afterKey.length := readGeneric_length valueRead
      rw [List.length_cons] at short
      obtain ⟨key, keySplit, rfl, -⟩ := readStringWithByte_sound keyRead
      obtain ⟨value, valueSplit, rfl, room⟩ :=
        shorter.generic depth afterKey after object unpadded (by omega) valueRead
      obtain ⟨entries, split, same, each⟩ :=
        shorter.dict depth after rest _ all unpadded (by omega) others
      refine ⟨(key, value) :: entries, ?_, same, List.forall_mem_cons.mpr ⟨room, each⟩⟩
      rw [keySplit, valueSplit, split, entriesBytes, List.append_assoc, List.append_assoc]

/-- Whatever the length of the stream, what is returned is spelled there. -/
theorem spelledUpTo (limits : Limits) (bound : Nat) : SpelledUpTo limits bound := by
  induction bound with
  | zero =>
    refine ⟨?_, ?_, ?_⟩
    · intro depth input rest object _ short read
      cases List.length_eq_zero_iff.mp (Nat.le_zero.mp short)
      cases read
    · intro depth input rest before all _ short read
      cases List.length_eq_zero_iff.mp (Nat.le_zero.mp short)
      rw [readList] at read
      cases read
    · intro depth input rest stored all _ short read
      cases List.length_eq_zero_iff.mp (Nat.le_zero.mp short)
      rw [readDict] at read
      cases read
  | succ bound shorter => exact ⟨shorter.generic_step, shorter.list_step, shorter.dict_step⟩

end RouteServer.Bencode
