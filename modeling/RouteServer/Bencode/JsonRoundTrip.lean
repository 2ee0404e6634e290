import RouteServer.Bencode.JsonSerializer
import RouteServer.Bencode.RoundTrip

/-!
# Reading back JSON

What the serializer writes is read back in strict mode. Blanks in front of a value are
passed over, an escaped byte is one byte again, and a number ends at the first byte that
is none of its own, which is put back. A value is therefore read back in front of anything
that does not continue a number.

The state after a value is described by what is left to be read; how many lines were
counted does not matter.
-/

namespace RouteServer.Bencode.Json

open Rust

/-- The bytes that the serializer puts between values to lay them out. -/
def Blank (byte : UInt8) : Prop := byte = space ∨ byte = newline

/-- A byte that is neither blank nor starts a comment. -/
def Meaningful (byte : UInt8) : Prop :=
  byte ≠ slash ∧ byte ≠ space ∧ byte ≠ tab ∧ byte ≠ newline

/-- Bytes that do not go on with a number. -/
def EndsNumber (bytes : List UInt8) : Prop :=
  ∀ byte rest, bytes = byte :: rest → inNumber byte = false

/-- A number ends before a byte that does not belong to one. -/
theorem endsNumber_cons {byte : UInt8} (rest : List UInt8) (outside : inNumber byte = false) :
    EndsNumber (byte :: rest) := by
  intro first others same
  cases same
  exact outside

/-- A line break and an indentation. -/
theorem newline_indent_blank (indentLevel : Nat) :
    ∀ byte ∈ newline :: indent indentLevel, Blank byte := by
  intro byte member
  rcases List.mem_cons.mp member with rfl | inside
  · exact Or.inr rfl
  · exact Or.inl (List.eq_of_mem_replicate inside)

/-- A meaningful byte that is the first one left is read as it is. -/
theorem nextMeaningfulChar_meaningful {byte : UInt8} (meaningful : Meaningful byte)
    {rest : List UInt8} {parser : JsonParser} (left : parser.unread = byte :: rest) :
    nextMeaningfulChar parser = .ok (byte, ⟨rest, parser.currentLine, none⟩) := by
  obtain ⟨notSlash, notSpace, notTab, notNewline⟩ := meaningful
  rw [nextMeaningfulChar_cons left]
  simp only [notSlash, notSpace, notTab, notNewline, or_self, if_false]

/-- Blanks are passed over up to the first meaningful byte. -/
theorem nextMeaningfulChar_blanks {blanks : List UInt8} (layout : ∀ byte ∈ blanks, Blank byte)
    {byte : UInt8} (meaningful : Meaningful byte) {rest : List UInt8} {parser : JsonParser}
    (left : parser.unread = blanks ++ byte :: rest) :
    ∃ line, nextMeaningfulChar parser = .ok (byte, ⟨rest, line, none⟩) := by
  induction blanks generalizing parser with
  | nil => exact ⟨parser.currentLine, nextMeaningfulChar_meaningful meaningful left⟩
  | cons blank blanks inductionHypothesis =>
    obtain ⟨first, others⟩ := List.forall_mem_cons.mp layout
    rw [nextMeaningfulChar_cons left]
    rcases first with rfl | rfl
    · exact inductionHypothesis others rfl
    · exact inductionHypothesis others rfl

/-- A byte within its bound is added to a string. -/
theorem pushByte_fits {result : Bstr} {byte : UInt8} {rest : List UInt8}
    (fits : (result.bytes ++ byte :: rest).length < 2 ^ 63) :
    ∃ longer, pushByte result byte = .ok longer ∧ longer.bytes = result.bytes ++ [byte] := by
  have less : (result.bytes ++ [byte]).length < 2 ^ 63 := by
    simp only [List.length_append, List.length_cons, List.length_nil] at fits ⊢
    omega
  exact ⟨⟨_, less⟩, dif_pos less, rfl⟩

/-- The two digits of an escape are text and stand for the byte. -/
theorem hexDigits_value (byte : UInt8) :
    fromUtf8 [upperHexDigit (byte.toNat / 16), upperHexDigit (byte.toNat % 16)] ≠ none ∧
    fromStrRadix16 (upperHexDigit (byte.toNat / 16)) (upperHexDigit (byte.toNat % 16)) =
      some byte := by
  have all : ∀ byte : Fin 256,
      fromUtf8 [upperHexDigit (byte.val / 16), upperHexDigit (byte.val % 16)] ≠ none ∧
      fromStrRadix16 (upperHexDigit (byte.val / 16)) (upperHexDigit (byte.val % 16)) =
        some (UInt8.ofNat byte.val) := by
    decide +kernel
  have value := all ⟨byte.toNat, byte.toNat_lt⟩
  rwa [UInt8.ofNat_toNat] at value

/-- A byte of a string is read back, escaped or not. -/
theorem parseStringLoop_escapeByte {result longer : Bstr} {parser : JsonParser} {byte : UInt8}
    {rest : List UInt8} (left : parser.unread = escapeByte byte ++ rest)
    (pushed : pushByte result byte = .ok longer) :
    parseStringLoop result parser =
      parseStringLoop longer ⟨rest, parser.currentLine, none⟩ := by
  rw [escapeByte] at left
  split at left
  · next plain =>
    rw [parseStringLoop_plain left plain.2.2.2 plain.2.2.1, pushed, Outcome.ok_bind]
    rfl
  · obtain ⟨isText, digits⟩ := hexDigits_value byte
    rw [parseStringLoop_escape left isText digits, pushed, Outcome.ok_bind]
    rfl

/-- The bytes of a string are read back up to its closing quote. -/
theorem parseStringLoop_written (bytes : List UInt8) (result : Bstr) {parser : JsonParser}
    {writer : List UInt8}
    (left : parser.unread =
      bytes.foldr (fun byte writer => escapeByte byte ++ writer) (quote :: writer))
    (fits : (result.bytes ++ bytes).length < 2 ^ 63) :
    ∃ line, parseStringLoop result parser =
      .ok (⟨result.bytes ++ bytes, fits⟩, ⟨writer, line, none⟩) := by
  induction bytes generalizing result parser with
  | nil =>
    refine ⟨parser.currentLine, ?_⟩
    simp only [List.append_nil]
    exact parseStringLoop_quote left
  | cons byte bytes inductionHypothesis =>
    obtain ⟨longer, pushed, content⟩ := pushByte_fits fits
    have whole : longer.bytes ++ bytes = result.bytes ++ byte :: bytes := by
      rw [content, List.append_assoc, List.singleton_append]
    have longerFits : (longer.bytes ++ bytes).length < 2 ^ 63 := by rwa [whole]
    have next : (⟨_, parser.currentLine, none⟩ : JsonParser).unread =
        bytes.foldr (fun byte writer => escapeByte byte ++ writer) (quote :: writer) := rfl
    obtain ⟨line, read⟩ := inductionHypothesis longer next longerFits
    refine ⟨line, ?_⟩
    rw [parseStringLoop_escapeByte left pushed, read]
    simp only [whole]

/-- A string is read back after its opening quote. -/
theorem parseString_written (content : Bstr) {parser : JsonParser} {writer : List UInt8}
    (left : quote :: parser.unread = serializeString content.bytes writer) :
    ∃ line, parseString parser = .ok (content, ⟨writer, line, none⟩) := by
  obtain ⟨-, left⟩ := List.cons_eq_cons.mp left
  exact parseStringLoop_written content.bytes ⟨[], by decide⟩ left content.fits

/-- Printed digits are the number. -/
theorem decimalValue_decimal (number : Nat) : decimalValue (decimal number) = some number := by
  obtain ⟨digit, digits, spelled, small, -, value⟩ := decimalDigits_cons number
  have allDigits : (decimal number).all isAsciiDigit = true := by
    rw [decimal, spelled, List.all_map, List.all_eq_true]
    exact fun each member => (digitByte_value (small each member)).1
  have folded : ∀ (digits : List Nat) (start : Nat), (∀ each ∈ digits, each < 10) →
      (digits.map digitByte).foldl (fun value digit => value * 10 + (digit.toNat - 48)) start =
        appendDigits start digits := by
    intro digits
    induction digits with
    | nil => intro start _; rfl
    | cons first rest inductionHypothesis =>
      intro start small
      obtain ⟨firstSmall, restSmall⟩ := List.forall_mem_cons.mp small
      have spelledByte : (digitByte first).toNat - 48 = first := by
        rw [digitByte, UInt8.toNat_ofNat']
        omega
      rw [List.map_cons, List.foldl_cons, spelledByte, inductionHypothesis _ restSmall,
        appendDigits_cons]
  have nonempty : decimal number ≠ [] := by simp [decimal, spelled]
  rw [decimalValue, if_neg (by simp [nonempty, allDigits]), decimal, spelled,
    folded _ 0 small, value]

/-- A printed number starts with a digit. -/
theorem decimal_digit (number : Nat) :
    ∃ first others, decimal number = first :: others ∧ isAsciiDigit first = true ∧
      ∀ byte ∈ others, isAsciiDigit byte = true := by
  obtain ⟨digit, digits, spelled, small, -, -⟩ := decimalDigits_cons number
  obtain ⟨firstSmall, restSmall⟩ := List.forall_mem_cons.mp small
  refine ⟨digitByte digit, digits.map digitByte, by rw [decimal, spelled, List.map_cons],
    (digitByte_value firstSmall).1, ?_⟩
  intro byte member
  obtain ⟨each, inside, rfl⟩ := List.mem_map.mp member
  exact (digitByte_value (restSmall each inside)).1

/-- A digit belongs to a number. -/
theorem inNumber_of_digit {byte : UInt8} (isDigit : isAsciiDigit byte = true) :
    inNumber byte = true := by
  rw [inNumber, isDigit, Bool.true_or]

/-- A printed integer is a byte that starts a number and more of them. -/
theorem signedDecimal_cons (number : Int64) :
    ∃ first others, signedDecimal number = first :: others ∧ inNumber first = true ∧
      ∀ byte ∈ others, inNumber byte = true := by
  obtain ⟨first, others, printed, isDigit, digits⟩ := decimal_digit number.toInt.natAbs
  rw [signedDecimal]
  split
  · refine ⟨minusSign, decimal number.toInt.natAbs, rfl, by decide, ?_⟩
    rw [printed]
    intro byte member
    rcases List.mem_cons.mp member with rfl | inside
    · exact inNumber_of_digit isDigit
    · exact inNumber_of_digit (digits byte inside)
  · exact ⟨first, others, printed, inNumber_of_digit isDigit,
      fun byte member => inNumber_of_digit (digits byte member)⟩

/-- A printed integer is parsed as itself, the least one included. -/
theorem parseI64_signedDecimal (number : Int64) :
    parseI64 (signedDecimal number) = some number := by
  have lower : -2 ^ 63 ≤ number.toInt := Int64.le_toInt number
  have upper : number.toInt < 2 ^ 63 := Int64.toInt_lt number
  rw [signedDecimal]
  split
  · next negative =>
    have back : Int64.ofInt (-(number.toInt.natAbs : Int)) = number := by
      rw [show -(number.toInt.natAbs : Int) = number.toInt by omega, Int64.ofInt_toInt]
    simp only [parseI64, if_true, decimalValue_decimal, Option.bind_eq_bind,
      Option.bind_some, back]
    rw [if_pos (by omega)]
  · next notNegative =>
    obtain ⟨first, others, printed, isDigit, -⟩ := decimal_digit number.toInt.natAbs
    have notSign : first ≠ minusSign := by
      rintro rfl
      cases isDigit
    have notPlus : first ≠ plus := by
      rintro rfl
      cases isDigit
    have back : Int64.ofInt (number.toInt.natAbs : Int) = number := by
      rw [show (number.toInt.natAbs : Int) = number.toInt by omega, Int64.ofInt_toInt]
    rw [printed]
    simp only [parseI64, if_neg notSign, if_neg notPlus]
    rw [← printed, decimalValue_decimal]
    simp only [Option.bind_eq_bind, Option.bind_some, back]
    rw [if_pos (by omega)]

/-- The bytes of a number are collected up to its end. -/
theorem collectNumber_written (bytes : List UInt8) (inside : ∀ byte ∈ bytes, inNumber byte = true)
    {numStr : List UInt8} {parser : JsonParser} {writer : List UInt8} (ends : EndsNumber writer)
    (left : parser.unread = bytes ++ writer) :
    ∃ after, collectNumber numStr parser = (numStr ++ bytes, after) ∧
      after.unread = writer := by
  induction bytes generalizing numStr parser with
  | nil =>
    rw [List.nil_append] at left
    have outside : ∀ byte rest, parser.unread = byte :: rest → inNumber byte = false := by
      rw [left]
      exact ends
    obtain ⟨after, collected, same⟩ := @collectNumber_outside numStr parser outside
    exact ⟨after, by rw [collected, List.append_nil], same.trans left⟩
  | cons byte bytes inductionHypothesis =>
    obtain ⟨first, others⟩ := List.forall_mem_cons.mp inside
    obtain ⟨after, collected, same⟩ := @inductionHypothesis others (numStr ++ [byte])
      ⟨bytes ++ writer, parser.currentLine, none⟩ rfl
    refine ⟨after, ?_, same⟩
    rw [List.cons_append] at left
    rw [collectNumber_inside left first, collected, List.append_assoc, List.singleton_append]

/-- An integer is read back after its first byte. -/
theorem parseInt_written (number : Int64) {first : UInt8} {others : List UInt8}
    (printed : signedDecimal number = first :: others)
    (inside : ∀ byte ∈ others, inNumber byte = true) {parser : JsonParser} {writer : List UInt8}
    (ends : EndsNumber writer) (left : parser.unread = others ++ writer) :
    ∃ after, parseInt first parser = .ok (number, after) ∧ after.unread = writer := by
  obtain ⟨after, collected, same⟩ :=
    @collectNumber_written others inside [first] parser writer ends left
  refine ⟨after, ?_, same⟩
  rw [parseInt, collected, List.singleton_append, ← printed]
  simp only [parseI64_signedDecimal]

/-- What the first byte of a value cannot be. -/
theorem startsValue_meaningful {byte : UInt8} (starts : startsValue byte = true) :
    Meaningful byte ∧ byte ≠ colon ∧ byte ≠ comma ∧ byte ≠ closeBracket := by
  have all : ∀ byte : Fin 256, startsValue (UInt8.ofNat byte.val) = true →
      (UInt8.ofNat byte.val ≠ slash ∧ UInt8.ofNat byte.val ≠ space ∧
        UInt8.ofNat byte.val ≠ tab ∧ UInt8.ofNat byte.val ≠ newline) ∧
      UInt8.ofNat byte.val ≠ colon ∧ UInt8.ofNat byte.val ≠ comma ∧
      UInt8.ofNat byte.val ≠ closeBracket := by
    decide +kernel
  have value := all ⟨byte.toNat, byte.toNat_lt⟩
  rw [UInt8.ofNat_toNat] at value
  exact value starts

/-- A number starts with no bracket and no quote. -/
theorem inNumber_plain {byte : UInt8} (inside : inNumber byte = true) :
    byte ≠ openBrace ∧ byte ≠ openBracket ∧ byte ≠ quote := by
  refine ⟨?_, ?_, ?_⟩ <;> (rintro rfl; cases inside)

/-- Every value starts with a byte by which it is known. -/
theorem serializeReverse_cons (value : Object) (indentLevel : Nat) (writer : List UInt8) :
    ∃ first others, serializeReverse value indentLevel writer = first :: others ∧
      startsValue first = true := by
  cases value with
  | bytes content => exact ⟨quote, _, by rw [serializeReverse, serializeString], by decide⟩
  | integer number =>
    obtain ⟨first, others, printed, inside, -⟩ := signedDecimal_cons number
    exact ⟨first, others ++ writer, by rw [serializeReverse, printed, List.cons_append],
      by rw [startsValue, inside, Bool.or_true]⟩
  | list items =>
    rw [serializeReverse]
    split
    · exact ⟨openBracket, _, rfl, by decide⟩
    · exact ⟨openBracket, _, rfl, by decide⟩
  | dict entries =>
    rw [serializeReverse]
    split
    · exact ⟨openBrace, _, rfl, by decide⟩
    · exact ⟨openBrace, _, rfl, by decide⟩

/-- A value that is read back wherever blanks stand before it and no number goes on
after it. -/
def ReadBack (value : Object) : Prop :=
  ∀ (indentLevel : Nat) (blanks writer : List UInt8) (parser : JsonParser),
    (∀ byte ∈ blanks, Blank byte) → EndsNumber writer →
    parser.unread = blanks ++ serializeReverse value indentLevel writer →
    ∃ after, contents (parser.parse false) = .ok (value, after) ∧ after.unread = writer

/-- Between a key and its value stand a colon and a blank. -/
theorem expectValue_written {parser : JsonParser} {first : UInt8} {others : List UInt8}
    (starts : startsValue first = true)
    (left : parser.unread = colon :: space :: first :: others) :
    ∃ next, expectValue false true parser = .ok next ∧ next.unread = first :: others := by
  obtain ⟨meaningful, notColon, -⟩ := startsValue_meaningful starts
  obtain ⟨line, colonRead⟩ : ∃ line, nextMeaningfulChar parser =
      .ok (colon, ⟨space :: first :: others, line, none⟩) :=
    @nextMeaningfulChar_blanks [] (by simp) _ ⟨by decide, by decide, by decide, by decide⟩
      _ _ left
  obtain ⟨lineAfter, valueRead⟩ : ∃ lineAfter, nextMeaningfulChar
      ⟨space :: first :: others, line, none⟩ = .ok (first, ⟨others, lineAfter, none⟩) :=
    @nextMeaningfulChar_blanks [space] (by simp [Blank]) _ meaningful _ _ rfl
  refine ⟨⟨others, lineAfter, some first⟩, ?_, rfl⟩
  rw [expectValue_eq, colonRead, Outcome.ok_bind]
  simp only [ne_eq, not_true_eq_false, false_and, and_false, if_false, if_true,
    Bool.true_eq_false]
  rw [expectValue_eq, valueRead, Outcome.ok_bind]
  simp only [notColon, starts, Bool.false_eq_true, false_and, if_false, if_true]

/-- Between values the parser comes to the next meaningful byte. -/
theorem meaningful_after_newline {indentLevel : Nat} {byte : UInt8} {rest : List UInt8}
    (meaningful : Meaningful byte) {parser : JsonParser}
    (left : parser.unread = newline :: (indent indentLevel ++ byte :: rest)) :
    ∃ line, nextMeaningfulChar parser = .ok (byte, ⟨rest, line, none⟩) := by
  rw [← List.cons_append] at left
  exact nextMeaningfulChar_blanks (newline_indent_blank indentLevel) meaningful left

/-- An item is read where none is missing a comma. -/
theorem parseList_item {item : Object} (back : ReadBack item) {indentLevel : Nat}
    (before : List Object) {parser : JsonParser} {rest : List UInt8} (ends : EndsNumber rest)
    (left : parser.unread =
      newline :: (indent indentLevel ++ serializeReverse item indentLevel rest)) :
    ∃ after, contents (parseList false false before parser) =
        contents (parseList false true (before ++ [item]) after) ∧ after.unread = rest := by
  obtain ⟨first, others, written, starts⟩ := serializeReverse_cons item indentLevel rest
  obtain ⟨meaningful, -, notComma, notClose⟩ := startsValue_meaningful starts
  rw [written] at left
  obtain ⟨line, firstRead⟩ := meaningful_after_newline meaningful left
  obtain ⟨after, itemRead, same⟩ :=
    back indentLevel [] rest ⟨others, line, some first⟩ (by simp) ends written.symm
  refine ⟨after, ?_, same⟩
  rw [parseList_eq, firstRead]
  simp only [Outcome.ok_bind, Bool.false_eq_true, false_and, notClose, notComma, starts,
    if_false, if_true, itemRead]

/-- After an item a comma leads to the next one. -/
theorem parseList_comma (before : List Object) {parser : JsonParser} {rest : List UInt8}
    (left : parser.unread = comma :: rest) :
    ∃ next, contents (parseList false true before parser) =
        contents (parseList false false before next) ∧ next.unread = rest := by
  obtain ⟨line, commaRead⟩ := @nextMeaningfulChar_blanks [] (by simp) comma
    ⟨by decide, by decide, by decide, by decide⟩ _ parser left
  refine ⟨⟨rest, line, none⟩, ?_, rfl⟩
  rw [parseList_eq, commaRead, Outcome.ok_bind]
  dsimp only
  rw [if_neg (by decide), if_neg (by decide), if_pos rfl, if_neg (by decide)]

/-- After an item the bracket closes the list. -/
theorem parseList_close (before : List Object) {parser : JsonParser} {indentLevel : Nat}
    {rest : List UInt8}
    (left : parser.unread = newline :: (indent indentLevel ++ closeBracket :: rest)) :
    ∃ after, contents (parseList false true before parser) = .ok (before, after) ∧
      after.unread = rest := by
  obtain ⟨line, closeRead⟩ :=
    meaningful_after_newline ⟨by decide, by decide, by decide, by decide⟩ left
  refine ⟨⟨rest, line, none⟩, ?_, rfl⟩
  rw [parseList_eq, closeRead, Outcome.ok_bind]
  dsimp only
  rw [if_neg (by decide), if_pos rfl, if_neg (by simp)]

/-- The items of a list are read back after those before them. -/
theorem parseList_written (item : Object) (others : List Object)
    (each : ∀ value ∈ item :: others, ReadBack value) (indentLevel outer : Nat)
    (before : List Object) {parser : JsonParser} {writer : List UInt8}
    (left : parser.unread = serializeItems (item :: others) indentLevel
      (newline :: (indent outer ++ closeBracket :: writer))) :
    ∃ after, contents (parseList false false before parser) =
        .ok (before ++ item :: others, after) ∧ after.unread = writer := by
  induction others generalizing item before parser with
  | nil =>
    simp only [serializeItems, List.isEmpty_nil, if_true] at left
    obtain ⟨after, itemRead, rest⟩ := parseList_item (each item List.mem_cons_self) before
      (endsNumber_cons _ (by decide)) left
    obtain ⟨last, closed, same⟩ := parseList_close (before ++ [item]) rest
    exact ⟨last, itemRead.trans closed, same⟩
  | cons second others inductionHypothesis =>
    obtain ⟨itemBack, othersBack⟩ := List.forall_mem_cons.mp each
    rw [serializeItems] at left
    obtain ⟨after, itemRead, rest⟩ := parseList_item itemBack before
      (endsNumber_cons _ (by decide)) left
    obtain ⟨next, separated, nextLeft⟩ := parseList_comma (before ++ [item]) rest
    obtain ⟨last, othersRead, final⟩ :=
      inductionHypothesis second othersBack (before ++ [item]) nextLeft
    refine ⟨last, ?_, final⟩
    rw [itemRead, separated, othersRead, List.append_assoc, List.singleton_append]

/-- An entry is read where none is missing a comma. -/
theorem parseDict_entry (key : Bstr) {value : Object} (back : ReadBack value)
    {indentLevel : Nat} (before : List (Bstr × Object)) {parser : JsonParser}
    {rest : List UInt8} (ends : EndsNumber rest)
    (left : parser.unread = newline :: (indent indentLevel ++
      serializeString key.bytes
        (colon :: space :: serializeReverse value indentLevel rest))) :
    ∃ after, contents (parseDict false false before parser) =
        contents (parseDict false true (OrderedMap.insert key value before) after) ∧
      after.unread = rest := by
  obtain ⟨first, others, written, starts⟩ := serializeReverse_cons value indentLevel rest
  rw [written] at left
  obtain ⟨line, quoteRead⟩ :=
    meaningful_after_newline ⟨by decide, by decide, by decide, by decide⟩ left
  obtain ⟨lineAfter, keyRead⟩ := @parseString_written key ⟨_, line, none⟩
    (colon :: space :: first :: others) rfl
  obtain ⟨atValue, found, atValueLeft⟩ :=
    @expectValue_written ⟨_, lineAfter, none⟩ first others starts rfl
  obtain ⟨after, valueRead, same⟩ := back indentLevel [] rest atValue (by simp) ends
    (atValueLeft.trans written.symm)
  refine ⟨after, ?_, same⟩
  rw [parseDict_eq, quoteRead, Outcome.ok_bind]
  dsimp only
  rw [if_neg (by decide), if_neg (by decide), if_pos rfl, keyRead, Outcome.ok_bind]
  dsimp only
  rw [found, Outcome.ok_bind, valueRead, Outcome.ok_bind]

/-- After an entry a comma leads to the next one. -/
theorem parseDict_comma (before : List (Bstr × Object)) {parser : JsonParser}
    {rest : List UInt8} (left : parser.unread = comma :: rest) :
    ∃ next, contents (parseDict false true before parser) =
        contents (parseDict false false before next) ∧ next.unread = rest := by
  obtain ⟨line, commaRead⟩ := @nextMeaningfulChar_blanks [] (by simp) comma
    ⟨by decide, by decide, by decide, by decide⟩ _ parser left
  refine ⟨⟨rest, line, none⟩, ?_, rfl⟩
  rw [parseDict_eq, commaRead, Outcome.ok_bind]
  dsimp only
  rw [if_neg (by decide), if_neg (by decide), if_neg (by decide), if_pos rfl,
    if_neg (by decide)]

/-- After an entry the brace closes the dictionary. -/
theorem parseDict_close (before : List (Bstr × Object)) {parser : JsonParser}
    {indentLevel : Nat} {rest : List UInt8}
    (left : parser.unread = newline :: (indent indentLevel ++ closeBrace :: rest)) :
    ∃ after, contents (parseDict false true before parser) = .ok (before, after) ∧
      after.unread = rest := by
  obtain ⟨line, closeRead⟩ :=
    meaningful_after_newline ⟨by decide, by decide, by decide, by decide⟩ left
  refine ⟨⟨rest, line, none⟩, ?_, rfl⟩
  rw [parseDict_eq, closeRead, Outcome.ok_bind]
  dsimp only
  rw [if_neg (by decide), if_pos rfl, if_neg (by simp)]

/-- The entries of a dictionary are read back after those before them. Every key is above
the earlier ones, so its insertion appends.

Proof: induction on the other entries. The entry in front is read and stored behind those before
it; then the brace closes the dictionary, or a comma leads to the next entry. -/
theorem parseDict_written (entry : Bstr × Object) (others : List (Bstr × Object))
    (each : ∀ each ∈ entry :: others, ReadBack each.2) (indentLevel outer : Nat)
    (before : List (Bstr × Object)) (sorted : OrderedMap.Sorted (before ++ entry :: others))
    {parser : JsonParser} {writer : List UInt8}
    (left : parser.unread = newline :: serializeEntries (entry :: others) indentLevel
      (newline :: (indent outer ++ closeBrace :: writer))) :
    ∃ after, contents (parseDict false false before parser) =
        .ok (before ++ entry :: others, after) ∧ after.unread = writer := by
  induction others generalizing entry before parser with
  | nil =>
    obtain ⟨key, value⟩ := entry
    have above : ∀ entry ∈ before, entry.1 < key := fun entry member =>
      (List.pairwise_append.mp sorted).2.2 entry member (key, value) List.mem_cons_self
    simp only [serializeEntries, List.isEmpty_nil, if_true] at left
    obtain ⟨after, entryRead, rest⟩ := parseDict_entry key (each (key, value) List.mem_cons_self)
      before (endsNumber_cons _ (by decide)) left
    rw [OrderedMap.insert_last key value before above] at entryRead
    obtain ⟨last, closed, same⟩ := parseDict_close (before ++ [(key, value)]) rest
    exact ⟨last, entryRead.trans closed, same⟩
  | cons second others inductionHypothesis =>
    obtain ⟨key, value⟩ := entry
    obtain ⟨entryBack, othersBack⟩ := List.forall_mem_cons.mp each
    have above : ∀ entry ∈ before, entry.1 < key := fun entry member =>
      (List.pairwise_append.mp sorted).2.2 entry member (key, value) List.mem_cons_self
    rw [serializeEntries] at left
    obtain ⟨after, entryRead, rest⟩ := parseDict_entry key entryBack before
      (endsNumber_cons _ (by decide)) left
    rw [OrderedMap.insert_last key value before above] at entryRead
    obtain ⟨next, separated, nextLeft⟩ := parseDict_comma (before ++ [(key, value)]) rest
    rw [List.append_cons] at sorted
    obtain ⟨last, othersRead, final⟩ :=
      inductionHypothesis second othersBack (before ++ [(key, value)]) sorted nextLeft
    refine ⟨last, ?_, final⟩
    rw [entryRead, separated, othersRead, List.append_assoc, List.singleton_append]

/-- A list is read back after its opening bracket. -/
theorem parseList_whole (items : List Object) (each : ∀ value ∈ items, ReadBack value)
    {indentLevel : Nat} {parser : JsonParser} {writer : List UInt8}
    (left : openBracket :: parser.unread = serializeReverse (.list items) indentLevel writer) :
    ∃ after, contents (parseList false false [] parser) = .ok (items, after) ∧
      after.unread = writer := by
  cases items with
  | nil =>
    rw [serializeReverse, if_pos (by rfl)] at left
    obtain ⟨-, left⟩ := List.cons_eq_cons.mp left
    obtain ⟨line, closeRead⟩ := @nextMeaningfulChar_blanks [] (by simp) closeBracket
      ⟨by decide, by decide, by decide, by decide⟩ _ parser left
    refine ⟨⟨writer, line, none⟩, ?_, rfl⟩
    rw [parseList_eq, closeRead, Outcome.ok_bind]
    dsimp only
    rw [if_neg (by decide), if_pos rfl, if_neg (by simp)]
  | cons item others =>
    rw [serializeReverse, if_neg (by simp)] at left
    obtain ⟨-, left⟩ := List.cons_eq_cons.mp left
    exact parseList_written item others each (indentLevel + 1) indentLevel [] left

/-- A dictionary is read back after its opening brace. -/
theorem parseDict_whole (entries : List (Bstr × Object))
    (each : ∀ entry ∈ entries, ReadBack entry.2) (sorted : OrderedMap.Sorted entries)
    {indentLevel : Nat} {parser : JsonParser} {writer : List UInt8}
    (left : openBrace :: parser.unread = serializeReverse (.dict entries) indentLevel writer) :
    ∃ after, contents (parseDict false false [] parser) = .ok (entries, after) ∧
      after.unread = writer := by
  cases entries with
  | nil =>
    rw [serializeReverse, if_pos (by rfl)] at left
    obtain ⟨-, left⟩ := List.cons_eq_cons.mp left
    obtain ⟨line, closeRead⟩ := @nextMeaningfulChar_blanks [] (by simp) closeBrace
      ⟨by decide, by decide, by decide, by decide⟩ _ parser left
    refine ⟨⟨writer, line, none⟩, ?_, rfl⟩
    rw [parseDict_eq, closeRead, Outcome.ok_bind]
    dsimp only
    rw [if_neg (by decide), if_pos rfl, if_neg (by simp)]
  | cons entry others =>
    rw [serializeReverse, if_neg (by simp)] at left
    obtain ⟨-, left⟩ := List.cons_eq_cons.mp left
    exact parseDict_written entry others each (indentLevel + 1) indentLevel [] sorted left

/-- Every object is read back.

Proof: induction on the object. Each kind is recognized by the first byte it is written with,
after the blanks; the members of lists and dictionaries are read back by the hypothesis. -/
theorem readBack_of_ordered (object : Object) (ordered : object.Ordered) : ReadBack object := by
  induction object using Object.tree_induction with
  | bytes content =>
    intro indentLevel blanks writer parser layout ends left
    rw [serializeReverse, serializeString] at left
    obtain ⟨line, quoteRead⟩ := nextMeaningfulChar_blanks layout
      ⟨by decide, by decide, by decide, by decide⟩ left
    obtain ⟨lineAfter, read⟩ := @parseString_written content ⟨_, line, none⟩ writer rfl
    refine ⟨⟨writer, lineAfter, none⟩, ?_, rfl⟩
    rw [parse_eq, quoteRead, Outcome.ok_bind]
    dsimp only
    rw [if_neg (by decide), if_neg (by decide), if_pos rfl, read, Outcome.ok_bind]
  | integer number =>
    intro indentLevel blanks writer parser layout ends left
    obtain ⟨first, others, printed, firstInside, inside⟩ := signedDecimal_cons number
    obtain ⟨notBrace, notBracket, notQuote⟩ := inNumber_plain firstInside
    have starts : startsValue first = true := by rw [startsValue, firstInside, Bool.or_true]
    rw [serializeReverse, printed, List.cons_append] at left
    obtain ⟨line, firstRead⟩ :=
      nextMeaningfulChar_blanks layout (startsValue_meaningful starts).1 left
    obtain ⟨after, read, same⟩ := @parseInt_written number first others printed inside
      ⟨others ++ writer, line, none⟩ writer ends rfl
    refine ⟨after, ?_, same⟩
    rw [parse_eq, firstRead, Outcome.ok_bind]
    dsimp only
    rw [if_neg notBrace, if_neg notBracket, if_neg notQuote, if_pos firstInside, read,
      Outcome.ok_bind]
  | list items inductionHypothesis =>
    intro indentLevel blanks writer parser layout ends left
    cases ordered with
    | list _ each =>
      have back : ∀ item ∈ items, ReadBack item :=
        fun item member => inductionHypothesis item member (each item member)
      obtain ⟨rest, shape⟩ : ∃ rest, serializeReverse (.list items) indentLevel writer =
          openBracket :: rest := by
        rw [serializeReverse]
        split <;> exact ⟨_, rfl⟩
      rw [shape] at left
      obtain ⟨line, openRead⟩ := nextMeaningfulChar_blanks layout
        ⟨by decide, by decide, by decide, by decide⟩ left
      obtain ⟨after, read, same⟩ := @parseList_whole items back indentLevel ⟨rest, line, none⟩
        writer shape.symm
      refine ⟨after, ?_, same⟩
      rw [parse_eq, openRead, Outcome.ok_bind]
      dsimp only
      rw [if_neg (by decide), if_pos rfl, read, Outcome.ok_bind]
  | dict entries inductionHypothesis =>
    intro indentLevel blanks writer parser layout ends left
    cases ordered with
    | dict _ sorted each =>
      have back : ∀ entry ∈ entries, ReadBack entry.2 :=
        fun entry member => inductionHypothesis entry member (each entry member)
      obtain ⟨rest, shape⟩ : ∃ rest, serializeReverse (.dict entries) indentLevel writer =
          openBrace :: rest := by
        rw [serializeReverse]
        split <;> exact ⟨_, rfl⟩
      rw [shape] at left
      obtain ⟨line, openRead⟩ := nextMeaningfulChar_blanks layout
        ⟨by decide, by decide, by decide, by decide⟩ left
      obtain ⟨after, read, same⟩ := @parseDict_whole entries back sorted indentLevel
        ⟨rest, line, none⟩ writer shape.symm
      refine ⟨after, ?_, same⟩
      rw [parse_eq, openRead, Outcome.ok_bind]
      dsimp only
      rw [if_pos rfl, read, Outcome.ok_bind]

/-- Strict parsing of what the serializer writes returns the object that was written, the
least integer and bytes that are no text included.

Proof: by induction on the object every value is read back from what was written for it, whatever
stands behind it. -/
theorem strict_parse_serialize (value : OrderedObject) :
    parse (serialize [] value.object) false = .ok value.object := by
  have left : (JsonParser.new (serialize [] value.object)).unread =
      [] ++ serializeReverse value.object 0 [] := rfl
  obtain ⟨after, read, -⟩ := readBack_of_ordered value.object value.ordered 0 [] [] _
    (by simp) (by simp [EndsNumber]) left
  rw [parse, read]
  rfl

example : serialize [] (.dict [(⟨[107], by decide⟩, .list [.integer (-1), .list []])]) =
    "\x7b\n  \"k\": [\n    -1,\n    []\n  ]\n\x7d".toUTF8.toList := by
  decide +kernel

end RouteServer.Bencode.Json
