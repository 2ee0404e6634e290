import RouteServer.Bencode.Object
import RouteServer.Bencode.Parser
import RouteServer.Rust.Utf8

/-!
# The JSON parser

A dialect of JSON for the objects of bencode: strings are bytes with `\x` escapes,
numbers are 64-bit integers, comments are passed over. In lax mode commas and colons
may be missing or repeated.

The parser reads one byte at a time and can put one byte back. Every function leaves
fewer bytes than it was given, or no more, which is carried by the results and makes the
recursion end. Lines are counted for the errors.
-/

namespace RouteServer.Bencode.Json

open Rust

/-- `ParseError`. -/
inductive ParseError where
  | malformedInput (desc : String) (line : Nat)
deriving DecidableEq

/-- The parser without its mode: the reader, the line and a byte put back. -/
structure JsonParser where
  reader : List UInt8
  currentLine : Nat
  lastChr : Option UInt8
deriving DecidableEq

/-- ASCII codes the format uses. -/
abbrev tab : UInt8 := 9
abbrev newline : UInt8 := 10
abbrev space : UInt8 := 32
abbrev quote : UInt8 := 34
abbrev star : UInt8 := 42
abbrev plus : UInt8 := 43
abbrev comma : UInt8 := 44
abbrev slash : UInt8 := 47
abbrev openBracket : UInt8 := 91
abbrev backslash : UInt8 := 92
abbrev closeBracket : UInt8 := 93
abbrev letterX : UInt8 := 120
abbrev openBrace : UInt8 := 123
abbrev closeBrace : UInt8 := 125

/-- `JsonParser::new`. -/
def JsonParser.new (reader : List UInt8) : JsonParser := ⟨reader, 1, none⟩

/-- What is left to be read. -/
def JsonParser.unread (parser : JsonParser) : List UInt8 := parser.lastChr.toList ++ parser.reader

/-- The number of bytes left to be read. -/
abbrev JsonParser.size (parser : JsonParser) : Nat := parser.unread.length

/-- `self.current_line += 1`. -/
def JsonParser.nextLine (parser : JsonParser) : JsonParser :=
  { parser with currentLine := parser.currentLine + 1 }

/-- Counting a line reads nothing. -/
theorem JsonParser.nextLine_size (parser : JsonParser) :
    parser.nextLine.size = parser.size := rfl

/-- An error at the present line. -/
def JsonParser.malformed {α : Type} (parser : JsonParser) (desc : String) :
    Outcome ParseError α :=
  .err (.malformedInput desc parser.currentLine)

/-- `format_chr`. Every byte is a character. -/
def formatChr (chr : UInt8) : String := asChar chr

/-- `read_byte`. -/
def readByte (parser : JsonParser) : Option (UInt8 × JsonParser) :=
  match parser.lastChr with
  | some lc => some (lc, { parser with lastChr := none })
  | none =>
    match parser.reader with
    | [] => none
    | byte :: rest => some (byte, { parser with reader := rest })

/-- A byte is read off the front of what is left. -/
theorem readByte_eq (parser : JsonParser) :
    readByte parser =
      match parser.unread with
      | [] => none
      | byte :: rest => some (byte, ⟨rest, parser.currentLine, none⟩) := by
  obtain ⟨reader, currentLine, lastChr⟩ := parser
  cases lastChr with
  | some lc => rfl
  | none => cases reader <;> rfl

/-- The next byte is the first of what is left. -/
theorem readByte_cons {parser : JsonParser} {byte : UInt8} {rest : List UInt8}
    (left : parser.unread = byte :: rest) :
    readByte parser = some (byte, ⟨rest, parser.currentLine, none⟩) := by
  rw [readByte_eq, left]

/-- A byte that was read is not read again. -/
theorem readByte_size {parser next : JsonParser} {byte : UInt8}
    (read : readByte parser = some (byte, next)) : next.size < parser.size := by
  rw [readByte_eq] at read
  split at read
  · cases read
  · next found =>
    cases read
    rw [JsonParser.size, JsonParser.size, found]
    exact Nat.lt_succ_self _

/-- `consume_singleline_comment`. -/
def consumeSinglelineComment (parser : JsonParser) : JsonParser :=
  match _read : readByte parser with
  | none => parser
  | some (byte, next) =>
    if byte = newline then next.nextLine
    else consumeSinglelineComment next
termination_by parser.size
decreasing_by exact readByte_size _read

/-- `consume_multiline_comment`. -/
def consumeMultilineComment (parser : JsonParser) : JsonParser :=
  match _read : readByte parser with
  | none => parser
  | some (byte, next) =>
    if byte = star then
      match _second : readByte next with
      | some (following, afterNext) =>
        if following = slash then afterNext else consumeMultilineComment afterNext
      | none => consumeMultilineComment next
    else consumeMultilineComment next
termination_by parser.size
decreasing_by
  · exact (readByte_size _second).trans (readByte_size _read)
  · exact readByte_size _read
  · exact readByte_size _read

/-- `handle_comment`. A slash that starts no comment is passed over with the byte
after it. -/
def handleComment (parser : JsonParser) : JsonParser :=
  match readByte parser with
  | none => parser
  | some (nextByte, next) =>
    if nextByte = star then consumeMultilineComment next
    else if nextByte = slash then consumeSinglelineComment next
    else next

/-- A comment to the end of the line is only read on. -/
theorem consumeSinglelineComment_size (parser : JsonParser) :
    (consumeSinglelineComment parser).size ≤ parser.size := by
  fun_induction consumeSinglelineComment parser with
  | case1 => exact Nat.le_refl _
  | case2 parser next read => exact (readByte_size read).le
  | case3 parser byte next read other inductionHypothesis =>
    exact inductionHypothesis.trans (readByte_size read).le

/-- A block comment is only read on. -/
theorem consumeMultilineComment_size (parser : JsonParser) :
    (consumeMultilineComment parser).size ≤ parser.size := by
  fun_induction consumeMultilineComment parser with
  | case1 => exact Nat.le_refl _
  | case2 parser next afterNext read second =>
    exact ((readByte_size second).trans (readByte_size read)).le
  | case3 parser next following afterNext second other read inductionHypothesis =>
    exact inductionHypothesis.trans ((readByte_size second).trans (readByte_size read)).le
  | case4 parser next second read inductionHypothesis =>
    exact inductionHypothesis.trans (readByte_size read).le
  | case5 parser byte next read other inductionHypothesis =>
    exact inductionHypothesis.trans (readByte_size read).le

/-- Whatever follows the first byte of a comment, nothing is put back before it. -/
theorem handleComment_size (parser : JsonParser) : (handleComment parser).size ≤ parser.size := by
  rw [handleComment]
  split
  · exact Nat.le_refl _
  · next read =>
    split
    · exact (consumeMultilineComment_size _).trans (readByte_size read).le
    · split
      · exact (consumeSinglelineComment_size _).trans (readByte_size read).le
      · exact (readByte_size read).le

/-- `next_meaningful_char`. -/
def nextMeaningfulChar (parser : JsonParser) : Outcome ParseError (UInt8 × JsonParser) :=
  match _read : readByte parser with
  | none => parser.malformed "Ran out of content while parsing"
  | some (byte, next) =>
    if byte = slash then nextMeaningfulChar (handleComment next)
    else if byte = space ∨ byte = tab then nextMeaningfulChar next
    else if byte = newline then nextMeaningfulChar next.nextLine
    else .ok (byte, next)
termination_by parser.size
decreasing_by
  · exact (handleComment_size next).trans_lt (readByte_size _read)
  · exact readByte_size _read
  · rw [JsonParser.nextLine_size]
    exact readByte_size _read

/-- What the next byte is decides on. -/
theorem nextMeaningfulChar_cons {parser : JsonParser} {byte : UInt8} {rest : List UInt8}
    (left : parser.unread = byte :: rest) :
    nextMeaningfulChar parser =
      let next : JsonParser := ⟨rest, parser.currentLine, none⟩
      if byte = slash then nextMeaningfulChar (handleComment next)
      else if byte = space ∨ byte = tab then nextMeaningfulChar next
      else if byte = newline then nextMeaningfulChar next.nextLine
      else .ok (byte, next) := by
  rw [nextMeaningfulChar]
  split
  · next read => cases (readByte_cons left).symm.trans read
  · next read =>
    cases (readByte_cons left).symm.trans read
    rfl

/-- A meaningful byte is behind all that was passed over. -/
theorem nextMeaningfulChar_size {parser next : JsonParser} {byte : UInt8}
    (read : nextMeaningfulChar parser = .ok (byte, next)) : next.size < parser.size := by
  fun_induction nextMeaningfulChar parser with
  | case1 => cases read
  | case2 parser after found inductionHypothesis =>
    exact (inductionHypothesis read).trans
      ((handleComment_size after).trans_lt (readByte_size found))
  | case3 parser first after found other blank inductionHypothesis =>
    exact (inductionHypothesis read).trans (readByte_size found)
  | case4 parser after found notSlash notBlank inductionHypothesis =>
    exact ((inductionHypothesis read).trans_eq after.nextLine_size).trans (readByte_size found)
  | case5 parser first after found =>
    cases read
    exact readByte_size found

/-- The value of a hexadecimal digit. -/
def hexDigit (byte : UInt8) : Option Nat :=
  if isAsciiDigit byte then some (byte.toNat - 48)
  else if 65 ≤ byte ∧ byte ≤ 70 then some (byte.toNat - 55)
  else if 97 ≤ byte ∧ byte ≤ 102 then some (byte.toNat - 87)
  else none

/-- `u8::from_str_radix` of two characters to the base 16. A plus sign is accepted in
front of a number. -/
def fromStrRadix16 (first second : UInt8) : Option UInt8 :=
  if first = plus then (hexDigit second).map UInt8.ofNat
  else do
    let high ← hexDigit first
    let low ← hexDigit second
    return UInt8.ofNat (16 * high + low)

/-- `read_two_hex_digits`. -/
def readTwoHexDigits (parser : JsonParser) : Outcome ParseError (UInt8 × JsonParser) :=
  match readByte parser with
  | none => parser.malformed "Incomplete hex escape"
  | some (first, parser) =>
    match readByte parser with
    | none => parser.malformed "Incomplete hex escape"
    | some (second, parser) =>
      if fromUtf8 [first, second] = none then parser.malformed "Invalid hex escape"
      else match fromStrRadix16 first second with
        | none => parser.malformed "Invalid hex digits"
        | some hex => .ok (hex, parser)

/-- Two digits are two bytes. -/
theorem readTwoHexDigits_size {parser next : JsonParser} {hex : UInt8}
    (read : readTwoHexDigits parser = .ok (hex, next)) : next.size < parser.size := by
  rw [readTwoHexDigits] at read
  split at read
  · cases read
  · next firstRead =>
    split at read
    · cases read
    · next secondRead =>
      split at read
      · cases read
      · split at read
        · cases read
        · cases read
          exact (readByte_size secondRead).trans (readByte_size firstRead)

/-- `push` on the bytes of a string. A buffer beyond `isize::MAX` bytes is a panic. -/
def pushByte (result : Bstr) (byte : UInt8) : Outcome ParseError Bstr :=
  if fits : (result.bytes ++ [byte]).length < 2 ^ 63 then .ok ⟨result.bytes ++ [byte], fits⟩
  else .panicked

/-- The loop of `parse_string`, with the bytes read so far. A string may end with the
input, and a backslash there is dropped. -/
def parseStringLoop (result : Bstr) (parser : JsonParser) :
    Outcome ParseError (Bstr × JsonParser) :=
  match _read : readByte parser with
  | none => .ok (result, parser)
  | some (byte, next) =>
    if byte = quote then .ok (result, next)
    else if byte = backslash then
      match _escaped : readByte next with
      | none => parseStringLoop result next
      | some (escapedByte, afterEscape) =>
        if escapedByte = letterX then
          match _hex : readTwoHexDigits afterEscape with
          | .ok (hex, afterHex) =>
            match pushByte result hex with
            | .ok result => parseStringLoop result afterHex
            | .err fault => .err fault
            | .panicked => .panicked
          | .err fault => .err fault
          | .panicked => .panicked
        else afterEscape.malformed
          ("String: Invalid escape sequence: '\\" ++ formatChr byte ++ "'")
    else
      match pushByte result byte with
      | .ok result => parseStringLoop result next
      | .err fault => .err fault
      | .panicked => .panicked
termination_by parser.size
decreasing_by
  · exact readByte_size _read
  · exact (readTwoHexDigits_size _hex).trans
      ((readByte_size _escaped).trans (readByte_size _read))
  · exact readByte_size _read

/-- The loop of `parse_string` as a sequence of calls.

Proof: the branches of the loop one by one; each outcome of a call in the loop is the case of
the bind. -/
theorem parseStringLoop_eq (result : Bstr) (parser : JsonParser) :
    parseStringLoop result parser =
      (match readByte parser with
      | none => .ok (result, parser)
      | some (byte, next) =>
        if byte = quote then .ok (result, next)
        else if byte = backslash then
          match readByte next with
          | none => parseStringLoop result next
          | some (escapedByte, afterEscape) =>
            if escapedByte = letterX then do
              let (hex, afterHex) ← readTwoHexDigits afterEscape
              let result ← pushByte result hex
              parseStringLoop result afterHex
            else afterEscape.malformed
              ("String: Invalid escape sequence: '\\" ++ formatChr byte ++ "'")
        else do
          let result ← pushByte result byte
          parseStringLoop result next) := by
  rw [parseStringLoop]
  split
  · next read => rw [read]
  · next byte next read =>
    simp only [read]
    split_ifs
    · rfl
    · split
      · next escaped => rw [escaped]
      · next escapedByte afterEscape escaped =>
        simp only [escaped]
        split_ifs
        · split
          · next hexRead =>
            rw [hexRead, Outcome.ok_bind]
            dsimp only
            split <;> simp only [*] <;> rfl
          · next hexRead =>
            rw [hexRead]
            rfl
          · next hexRead =>
            rw [hexRead]
            rfl
        · rfl
    · split <;> simp only [*] <;> rfl

/-- A quote ends a string. -/
theorem parseStringLoop_quote {result : Bstr} {parser : JsonParser} {rest : List UInt8}
    (left : parser.unread = quote :: rest) :
    parseStringLoop result parser = .ok (result, ⟨rest, parser.currentLine, none⟩) := by
  rw [parseStringLoop_eq, readByte_cons left]
  exact if_pos rfl

/-- A plain byte is added to the string. -/
theorem parseStringLoop_plain {result : Bstr} {parser : JsonParser} {byte : UInt8}
    {rest : List UInt8} (left : parser.unread = byte :: rest) (notQuote : byte ≠ quote)
    (notBackslash : byte ≠ backslash) :
    parseStringLoop result parser = (do
      let longer ← pushByte result byte
      parseStringLoop longer ⟨rest, parser.currentLine, none⟩) := by
  rw [parseStringLoop_eq, readByte_cons left]
  dsimp only
  rw [if_neg notQuote, if_neg notBackslash]

/-- The two digits of an escape are read. -/
theorem readTwoHexDigits_cons {parser : JsonParser} {first second hex : UInt8}
    {rest : List UInt8} (left : parser.unread = first :: second :: rest)
    (isText : fromUtf8 [first, second] ≠ none)
    (digits : fromStrRadix16 first second = some hex) :
    readTwoHexDigits parser = .ok (hex, ⟨rest, parser.currentLine, none⟩) := by
  rw [readTwoHexDigits, readByte_cons left]
  simp only [readByte, if_neg isText, digits]

/-- The byte of two digits is added to the string. -/
theorem parseStringLoop_escape {result : Bstr} {parser : JsonParser}
    {first second hex : UInt8} {rest : List UInt8}
    (left : parser.unread = backslash :: letterX :: first :: second :: rest)
    (isText : fromUtf8 [first, second] ≠ none)
    (digits : fromStrRadix16 first second = some hex) :
    parseStringLoop result parser = (do
      let longer ← pushByte result hex
      parseStringLoop longer ⟨rest, parser.currentLine, none⟩) := by
  rw [parseStringLoop_eq, readByte_cons left]
  dsimp only
  rw [if_neg (by decide), if_pos rfl, readByte_cons rfl]
  dsimp only
  rw [if_pos rfl, readTwoHexDigits_cons rfl isText digits, Outcome.ok_bind]

/-- `parse_string`. -/
def parseString (parser : JsonParser) : Outcome ParseError (Bstr × JsonParser) :=
  parseStringLoop ⟨[], by decide⟩ parser

/-- Digits as a number; there must be some. -/
def decimalValue (digits : List UInt8) : Option Nat :=
  if digits = [] ∨ digits.all isAsciiDigit = false then none
  else some (digits.foldl (fun value digit => value * 10 + (digit.toNat - 48)) 0)

/-- `str::parse::<i64>`. -/
def parseI64 (numStr : List UInt8) : Option Int64 :=
  match numStr with
  | first :: digits =>
    if first = minusSign then do
      let magnitude ← decimalValue digits
      if magnitude ≤ 2 ^ 63 then some (Int64.ofInt (-(magnitude : Int))) else none
    else do
      let magnitude ← decimalValue (if first = plus then digits else first :: digits)
      if magnitude < 2 ^ 63 then some (Int64.ofInt magnitude) else none
  | [] => none

/-- Bytes that the number reader collects. -/
def inNumber (byte : UInt8) : Bool := isAsciiDigit byte || byte == minusSign

/-- The loop of `parse_int`: the byte after the number is put back. -/
def collectNumber (numStr : List UInt8) (parser : JsonParser) : List UInt8 × JsonParser :=
  match _read : readByte parser with
  | none => (numStr, parser)
  | some (byte, next) =>
    if inNumber byte then collectNumber (numStr ++ [byte]) next
    else (numStr, { next with lastChr := some byte })
termination_by parser.size
decreasing_by exact readByte_size _read

/-- The number goes on with a byte of its own. -/
theorem collectNumber_inside {numStr : List UInt8} {parser : JsonParser} {byte : UInt8}
    {rest : List UInt8} (left : parser.unread = byte :: rest) (inside : inNumber byte = true) :
    collectNumber numStr parser =
      collectNumber (numStr ++ [byte]) ⟨rest, parser.currentLine, none⟩ := by
  rw [collectNumber]
  split
  · next read => cases (readByte_cons left).symm.trans read
  · next read =>
    cases (readByte_cons left).symm.trans read
    rw [if_pos inside]

/-- The number ends before any other byte, and at the end of the input. -/
theorem collectNumber_outside {numStr : List UInt8} {parser : JsonParser}
    (ends : ∀ byte rest, parser.unread = byte :: rest → inNumber byte = false) :
    ∃ after, collectNumber numStr parser = (numStr, after) ∧ after.unread = parser.unread := by
  cases left : parser.unread with
  | nil =>
    have read : readByte parser = none := by rw [readByte_eq, left]
    refine ⟨parser, ?_, left⟩
    rw [collectNumber]
    split
    · rfl
    · next found => cases read.symm.trans found
  | cons byte rest =>
    refine ⟨⟨rest, parser.currentLine, some byte⟩, ?_, rfl⟩
    rw [collectNumber]
    split
    · next read => cases (readByte_cons left).symm.trans read
    · next read =>
      cases (readByte_cons left).symm.trans read
      simp only [ends byte rest left, Bool.false_eq_true, if_false]

/-- `parse_int`. -/
def parseInt (firstByte : UInt8) (parser : JsonParser) :
    Outcome ParseError (Int64 × JsonParser) :=
  let (numStr, parser) := collectNumber [firstByte] parser
  match parseI64 numStr with
  | some num => .ok (num, parser)
  | none => parser.malformed "Invalid integer"

/-- Bytes a value starts with. -/
def startsValue (byte : UInt8) : Bool :=
  byte == openBrace || byte == openBracket || byte == quote || inNumber byte

/-- A byte put back is the next to be read. -/
theorem putBack_unread {parser next : JsonParser} {byte : UInt8}
    (read : nextMeaningfulChar parser = .ok (byte, next)) :
    ({ next with lastChr := some byte } : JsonParser).unread = byte :: next.unread := by
  have empty : next.lastChr = none := by
    fun_induction nextMeaningfulChar parser with
    | case1 => cases read
    | case2 parser after found inductionHypothesis => exact inductionHypothesis read
    | case3 parser first after found other blank inductionHypothesis =>
      exact inductionHypothesis read
    | case4 parser after found notSlash notBlank inductionHypothesis =>
      exact inductionHypothesis read
    | case5 parser first after found =>
      cases read
      rw [readByte_eq] at found
      split at found
      · cases found
      · cases found
        rfl
  rw [JsonParser.unread, JsonParser.unread, empty]
  rfl

/-- The loop of `parse_dict` between a key and its value. The first byte of the value is
put back. -/
def expectValue (laxMode needColon : Bool) (parser : JsonParser) :
    Outcome ParseError JsonParser :=
  match _read : nextMeaningfulChar parser with
  | .ok (byte, next) =>
    if needColon ∧ byte ≠ colon ∧ laxMode = false then
      next.malformed ("Dict: Expecting ':' but got '" ++ formatChr byte ++ "'")
    else if byte = colon then
      if needColon = false ∧ laxMode = false then
        next.malformed "Dict: Expected value but got duplicate ':'"
      else expectValue laxMode false next
    else if startsValue byte then .ok { next with lastChr := some byte }
    else next.malformed
      ("Dict: Unexpected character '" ++ formatChr byte ++ "', exppecting value")
  | .err fault => .err fault
  | .panicked => .panicked
termination_by parser.size
decreasing_by exact nextMeaningfulChar_size _read

/-- What follows a key, as a sequence of calls. -/
theorem expectValue_eq (laxMode needColon : Bool) (parser : JsonParser) :
    expectValue laxMode needColon parser = (do
      let (byte, next) ← nextMeaningfulChar parser
      if needColon ∧ byte ≠ colon ∧ laxMode = false then
        next.malformed ("Dict: Expecting ':' but got '" ++ formatChr byte ++ "'")
      else if byte = colon then
        if needColon = false ∧ laxMode = false then
          next.malformed "Dict: Expected value but got duplicate ':'"
        else expectValue laxMode false next
      else if startsValue byte then .ok { next with lastChr := some byte }
      else
        next.malformed
          ("Dict: Unexpected character '" ++ formatChr byte ++ "', exppecting value")) := by
  rw [expectValue]
  split
  · next read =>
    conv_rhs => rw [read, Outcome.ok_bind]
  · next read =>
    conv_rhs => rw [read, Outcome.err_bind]
  · next read =>
    conv_rhs => rw [read, Outcome.panicked_bind]

/-- A byte that is put back was one that was read. -/
theorem putBack_size {parser next : JsonParser} {byte : UInt8}
    (read : nextMeaningfulChar parser = .ok (byte, next)) :
    ({ next with lastChr := some byte } : JsonParser).size ≤ parser.size := by
  rw [JsonParser.size, putBack_unread read, List.length_cons]
  exact nextMeaningfulChar_size read

/-- The loop of a string reads on until its quote, by induction on what is left. -/
theorem parseStringLoop_size {result content : Bstr} {parser next : JsonParser}
    (read : parseStringLoop result parser = .ok (content, next)) : next.size ≤ parser.size := by
  fun_induction parseStringLoop result parser with
  | case1 =>
    cases read
    exact Nat.le_refl _
  | case2 result parser after found =>
    cases read
    exact (readByte_size found).le
  | case3 result parser after ended found notQuote inductionHypothesis =>
    exact (inductionHypothesis read).trans (readByte_size found).le
  | case4 result parser afterBackslash afterEscape hex afterHex hexRead pushed fits found notQuote
      escaped inductionHypothesis =>
    have shorter : afterHex.size < parser.size :=
      (readTwoHexDigits_size hexRead).trans ((readByte_size escaped).trans (readByte_size found))
    exact (inductionHypothesis read).trans shorter.le
  | case10 result parser byte after found notQuote notBackslash pushed fits
      inductionHypothesis =>
    exact (inductionHypothesis read).trans (readByte_size found).le
  | _ => cases read

/-- A string is a quote and what its loop reads. -/
theorem parseString_size {content : Bstr} {parser next : JsonParser}
    (read : parseString parser = .ok (content, next)) : next.size ≤ parser.size :=
  parseStringLoop_size read

/-- The loop of a number puts at most its last byte back. -/
theorem collectNumber_size (numStr : List UInt8) (parser : JsonParser) :
    (collectNumber numStr parser).2.size ≤ parser.size := by
  fun_induction collectNumber numStr parser with
  | case1 => exact Nat.le_refl _
  | case2 numStr parser byte next read inside inductionHypothesis =>
    exact inductionHypothesis.trans (readByte_size read).le
  | case3 numStr parser byte next read outside =>
    rw [readByte_eq] at read
    split at read
    · cases read
    · next found =>
      cases read
      rw [JsonParser.size, JsonParser.size, found]
      exact Nat.le_refl _

/-- An integer reads no more than its digits. -/
theorem parseInt_size {firstByte : UInt8} {number : Int64} {parser next : JsonParser}
    (read : parseInt firstByte parser = .ok (number, next)) : next.size ≤ parser.size := by
  rw [parseInt] at read
  dsimp only at read
  split at read
  · cases read
    exact collectNumber_size _ _
  · cases read

/-- Before a value only blanks, comments and a colon are read. -/
theorem expectValue_size {laxMode needColon : Bool} {parser next : JsonParser}
    (found : expectValue laxMode needColon parser = .ok next) : next.size ≤ parser.size := by
  fun_induction expectValue laxMode needColon parser with
  | case3 needColon parser after present read missing inductionHypothesis =>
    exact (inductionHypothesis found).trans (nextMeaningfulChar_size read).le
  | case4 needColon parser byte after read missing notColon starts =>
    cases found
    exact putBack_size read
  | _ => cases found

/-- A value read by a parser that is left with fewer bytes. -/
abbrev Consumed (parser : JsonParser) (α : Type) :=
  { result : α × JsonParser // result.2.size < parser.size }

mutual

/-- `parse`, whose loop always returns in its first iteration. -/
def JsonParser.parse (laxMode : Bool) (parser : JsonParser) :
    Outcome ParseError (Consumed parser Object) :=
  match read : nextMeaningfulChar parser with
  | .ok (byte, next) =>
    have shorter : next.size < parser.size := nextMeaningfulChar_size read
    if byte = openBrace then
      match parseDict laxMode false [] next with
      | .ok ⟨(entries, after), less⟩ => .ok ⟨(.dict entries, after), less.trans shorter⟩
      | .err fault => .err fault
      | .panicked => .panicked
    else if byte = openBracket then
      match parseList laxMode false [] next with
      | .ok ⟨(items, after), less⟩ => .ok ⟨(.list items, after), less.trans shorter⟩
      | .err fault => .err fault
      | .panicked => .panicked
    else if byte = quote then
      match content : parseString next with
      | .ok (bytes, after) =>
        .ok ⟨(.bytes bytes, after), (parseString_size content).trans_lt shorter⟩
      | .err fault => .err fault
      | .panicked => .panicked
    else if inNumber byte then
      match number : parseInt byte next with
      | .ok (num, after) =>
        .ok ⟨(.integer num, after), (parseInt_size number).trans_lt shorter⟩
      | .err fault => .err fault
      | .panicked => .panicked
    else next.malformed ("Unexpected char " ++ formatChr byte)
  | .err fault => .err fault
  | .panicked => .panicked
termination_by 2 * parser.size

/-- The loop of `parse_dict`, with the entries read so far. -/
def parseDict (laxMode needComma : Bool) (dict : List (Bstr × Object)) (parser : JsonParser) :
    Outcome ParseError (Consumed parser (List (Bstr × Object))) :=
  match read : nextMeaningfulChar parser with
  | .ok (byte, next) =>
    have shorter : next.size < parser.size := nextMeaningfulChar_size read
    if needComma ∧ byte ≠ closeBrace ∧ byte ≠ comma ∧ laxMode = false then
      next.malformed ("Dict: Expecting ',' but got '" ++ formatChr byte ++ "'")
    else if byte = closeBrace then
      if dict.isEmpty = false ∧ needComma = false ∧ laxMode = false then
        next.malformed "Dict: Unexpected trailing ','"
      else .ok ⟨(dict, next), shorter⟩
    else if byte = quote then
      match keyRead : parseString next with
      | .ok (key, afterKey) =>
        match valueFound : expectValue laxMode true afterKey with
        | .ok atValue =>
          have atValueShorter : atValue.size < parser.size :=
            (expectValue_size valueFound).trans_lt
              ((parseString_size keyRead).trans_lt shorter)
          match JsonParser.parse laxMode atValue with
          | .ok ⟨(value, afterValue), less⟩ =>
            have afterShorter : afterValue.size < parser.size := less.trans atValueShorter
            match parseDict laxMode true (OrderedMap.insert key value dict) afterValue with
            | .ok ⟨(all, last), lastLess⟩ => .ok ⟨(all, last), lastLess.trans afterShorter⟩
            | .err fault => .err fault
            | .panicked => .panicked
          | .err fault => .err fault
          | .panicked => .panicked
        | .err fault => .err fault
        | .panicked => .panicked
      | .err fault => .err fault
      | .panicked => .panicked
    else if byte = comma then
      if needComma = false ∧ laxMode = false then next.malformed "Dict: Unexpected comma"
      else
        match parseDict laxMode false dict next with
        | .ok ⟨(all, last), lastLess⟩ => .ok ⟨(all, last), lastLess.trans shorter⟩
        | .err fault => .err fault
        | .panicked => .panicked
    else next.malformed ("Dict: Unexpected character '" ++ formatChr byte ++ "'")
  | .err fault => .err fault
  | .panicked => .panicked
termination_by 2 * parser.size + 1

/-- The loop of `parse_list`, with the items read so far. -/
def parseList (laxMode needComma : Bool) (list : List Object) (parser : JsonParser) :
    Outcome ParseError (Consumed parser (List Object)) :=
  match read : nextMeaningfulChar parser with
  | .ok (byte, next) =>
    have shorter : next.size < parser.size := nextMeaningfulChar_size read
    if needComma ∧ byte ≠ closeBracket ∧ byte ≠ comma ∧ laxMode = false then
      next.malformed ("List: Expecting ',' but got '" ++ formatChr byte ++ "'")
    else if byte = closeBracket then
      if list.isEmpty = false ∧ needComma = false ∧ laxMode = false then
        next.malformed "List: Unexpected trailing ','"
      else .ok ⟨(list, next), shorter⟩
    else if byte = comma then
      if needComma = false ∧ laxMode = false then next.malformed "List: Unexpected comma"
      else
        match parseList laxMode false list next with
        | .ok ⟨(all, last), lastLess⟩ => .ok ⟨(all, last), lastLess.trans shorter⟩
        | .err fault => .err fault
        | .panicked => .panicked
    else if startsValue byte then
      have putBack : ({ next with lastChr := some byte } : JsonParser).size ≤ parser.size :=
        putBack_size read
      match JsonParser.parse laxMode { next with lastChr := some byte } with
      | .ok ⟨(item, afterItem), less⟩ =>
        have afterShorter : afterItem.size < parser.size := less.trans_le putBack
        match parseList laxMode true (list ++ [item]) afterItem with
        | .ok ⟨(all, last), lastLess⟩ => .ok ⟨(all, last), lastLess.trans afterShorter⟩
        | .err fault => .err fault
        | .panicked => .panicked
      | .err fault => .err fault
      | .panicked => .panicked
    else next.malformed ("List: Unexpected character '" ++ formatChr byte ++ "'")
  | .err fault => .err fault
  | .panicked => .panicked
termination_by 2 * parser.size + 1

end

/-- What was read, without the proof that less is left. -/
def contents {parser : JsonParser} {α : Type} :
    Outcome ParseError (Consumed parser α) → Outcome ParseError (α × JsonParser)
  | .ok result => .ok result.1
  | .err fault => .err fault
  | .panicked => .panicked

/-- What has consumed something leaves less than there was, which is why the parser ends. -/
theorem contents_size {parser : JsonParser} {α : Type}
    {outcome : Outcome ParseError (Consumed parser α)} {result : α × JsonParser}
    (read : contents outcome = .ok result) : result.2.size < parser.size := by
  cases outcome with
  | ok value =>
    cases read
    exact value.2
  | err fault => cases read
  | panicked => cases read

/-- The function `parse`: the object at the front of a reader. -/
def parse (reader : List UInt8) (laxMode : Bool) : Outcome ParseError Object := do
  let (object, _) ← contents ((JsonParser.new reader).parse laxMode)
  return object

/-- A value is read by its first meaningful byte.

Proof: the branches of the parser one by one; each outcome of a call in it is the case of the
bind. -/
theorem parse_eq (laxMode : Bool) (parser : JsonParser) :
    contents (parser.parse laxMode) = (do
      let (byte, next) ← nextMeaningfulChar parser
      if byte = openBrace then do
        let (entries, after) ← contents (parseDict laxMode false [] next)
        .ok (.dict entries, after)
      else if byte = openBracket then do
        let (items, after) ← contents (parseList laxMode false [] next)
        .ok (.list items, after)
      else if byte = quote then do
        let (bytes, after) ← parseString next
        .ok (.bytes bytes, after)
      else if inNumber byte then do
        let (num, after) ← parseInt byte next
        .ok (.integer num, after)
      else next.malformed ("Unexpected char " ++ formatChr byte)) := by
  rw [JsonParser.parse]
  split
  · next byte next read =>
    conv_rhs => rw [read, Outcome.ok_bind]
    dsimp only
    split_ifs
    · cases parseDict laxMode false [] next <;> rfl
    · cases parseList laxMode false [] next <;> rfl
    · split <;> simp only [*] <;> rfl
    · split <;> simp only [*] <;> rfl
    · rfl
  · next fault read =>
    conv_rhs => rw [read, Outcome.err_bind]
    rfl
  · next read =>
    conv_rhs => rw [read, Outcome.panicked_bind]
    rfl

/-- A dictionary ends at its brace, and otherwise reads a comma or one more entry.

Proof: the branches of the loop one by one; each outcome of a call in it is the case of the
bind. -/
theorem parseDict_eq (laxMode needComma : Bool) (dict : List (Bstr × Object))
    (parser : JsonParser) :
    contents (parseDict laxMode needComma dict parser) = (do
      let (byte, next) ← nextMeaningfulChar parser
      if needComma ∧ byte ≠ closeBrace ∧ byte ≠ comma ∧ laxMode = false then
        next.malformed ("Dict: Expecting ',' but got '" ++ formatChr byte ++ "'")
      else if byte = closeBrace then
        if dict.isEmpty = false ∧ needComma = false ∧ laxMode = false then
          next.malformed "Dict: Unexpected trailing ','"
        else .ok (dict, next)
      else if byte = quote then do
        let (key, afterKey) ← parseString next
        let atValue ← expectValue laxMode true afterKey
        let (value, afterValue) ← contents (atValue.parse laxMode)
        contents (parseDict laxMode true (OrderedMap.insert key value dict) afterValue)
      else if byte = comma then
        if needComma = false ∧ laxMode = false then next.malformed "Dict: Unexpected comma"
        else contents (parseDict laxMode false dict next)
      else next.malformed ("Dict: Unexpected character '" ++ formatChr byte ++ "'")) := by
  rw [parseDict]
  split
  · next byte next read =>
    conv_rhs => rw [read, Outcome.ok_bind]
    dsimp only
    split_ifs
    · rfl
    · rfl
    · rfl
    · split
      · next key afterKey keyRead =>
        conv_rhs => rw [keyRead, Outcome.ok_bind]
        dsimp only
        split
        · next atValue valueFound =>
          conv_rhs => rw [valueFound, Outcome.ok_bind]
          match JsonParser.parse laxMode atValue with
          | .ok ⟨(value, afterValue), _⟩ =>
            simp only [contents, Outcome.ok_bind]
            cases parseDict laxMode true (OrderedMap.insert key value dict) afterValue <;> rfl
          | .err fault => rfl
          | .panicked => rfl
        · next fault missing =>
          conv_rhs => rw [missing, Outcome.err_bind]
          rfl
        · next missing =>
          conv_rhs => rw [missing, Outcome.panicked_bind]
          rfl
      · next fault keyRead =>
        conv_rhs => rw [keyRead, Outcome.err_bind]
        rfl
      · next keyRead =>
        conv_rhs => rw [keyRead, Outcome.panicked_bind]
        rfl
    · rfl
    · cases parseDict laxMode false dict next <;> rfl
    · rfl
  · next fault read =>
    conv_rhs => rw [read, Outcome.err_bind]
    rfl
  · next read =>
    conv_rhs => rw [read, Outcome.panicked_bind]
    rfl

/-- A list ends at its bracket, and otherwise reads a comma or one more item.

Proof: the branches of the loop one by one; each outcome of a call in it is the case of the
bind. -/
theorem parseList_eq (laxMode needComma : Bool) (list : List Object) (parser : JsonParser) :
    contents (parseList laxMode needComma list parser) = (do
      let (byte, next) ← nextMeaningfulChar parser
      if needComma ∧ byte ≠ closeBracket ∧ byte ≠ comma ∧ laxMode = false then
        next.malformed ("List: Expecting ',' but got '" ++ formatChr byte ++ "'")
      else if byte = closeBracket then
        if list.isEmpty = false ∧ needComma = false ∧ laxMode = false then
          next.malformed "List: Unexpected trailing ','"
        else .ok (list, next)
      else if byte = comma then
        if needComma = false ∧ laxMode = false then next.malformed "List: Unexpected comma"
        else contents (parseList laxMode false list next)
      else if startsValue byte then do
        let (item, afterItem) ←
          contents (JsonParser.parse laxMode { next with lastChr := some byte })
        contents (parseList laxMode true (list ++ [item]) afterItem)
      else next.malformed ("List: Unexpected character '" ++ formatChr byte ++ "'")) := by
  rw [parseList]
  split
  · next byte next read =>
    conv_rhs => rw [read, Outcome.ok_bind]
    dsimp only
    split_ifs
    · rfl
    · rfl
    · rfl
    · rfl
    · cases parseList laxMode false list next <;> rfl
    · match JsonParser.parse laxMode { next with lastChr := some byte } with
      | .ok ⟨(item, afterItem), _⟩ =>
        simp only [contents, Outcome.ok_bind]
        cases parseList laxMode true (list ++ [item]) afterItem <;> rfl
      | .err fault => rfl
      | .panicked => rfl
    · rfl
  · next fault read =>
    conv_rhs => rw [read, Outcome.err_bind]
    rfl
  · next read =>
    conv_rhs => rw [read, Outcome.panicked_bind]
    rfl

end RouteServer.Bencode.Json
