import RouteServer.Bencode.JsonParser
import RouteServer.Bencode.Serializer

/-!
# The JSON serializer

The writer is a stack of bytes, so everything is written from its end to its beginning.
Lists and dictionaries that are not empty put every item on a line of its own, indented
by two blanks a level. Bytes that are no plain characters are escaped.
-/

namespace RouteServer.Bencode.Json

/-- A digit of `{:X}`. -/
def upperHexDigit (digit : Nat) : UInt8 :=
  UInt8.ofNat (if digit < 10 then 48 + digit else 55 + digit)

/-- One byte in `serialize_string`. -/
def escapeByte (byte : UInt8) : List UInt8 :=
  if byte < 126 ∧ byte > 31 ∧ byte ≠ backslash ∧ byte ≠ quote then [byte]
  else [backslash, letterX, upperHexDigit (byte.toNat / 16), upperHexDigit (byte.toNat % 16)]

/-- `serialize_string`. -/
def serializeString (s : List UInt8) (writer : List UInt8) : List UInt8 :=
  quote :: s.foldr (fun byte writer => escapeByte byte ++ writer) (quote :: writer)

/-- Two blanks a level. -/
def indent (indentLevel : Nat) : List UInt8 := List.replicate (2 * indentLevel) space

mutual

/-- `serialize_reverse`. -/
def serializeReverse (obj : Object) (indentLevel : Nat) (writer : List UInt8) : List UInt8 :=
  match obj with
  | .bytes s => serializeString s.bytes writer
  | .integer i => signedDecimal i ++ writer
  | .list list =>
    let writer := closeBracket :: writer
    if list.isEmpty then openBracket :: writer
    else openBracket ::
      serializeItems list (indentLevel + 1) (newline :: (indent indentLevel ++ writer))
  | .dict dict =>
    let writer := closeBrace :: writer
    if dict.isEmpty then openBrace :: writer
    else openBrace :: newline ::
      serializeEntries dict (indentLevel + 1) (newline :: (indent indentLevel ++ writer))

/-- The loop over the items of a list, the last one first. -/
def serializeItems (items : List Object) (indentLevel : Nat) (writer : List UInt8) :
    List UInt8 :=
  match items with
  | [] => writer
  | item :: rest =>
    let written := serializeItems rest indentLevel writer
    let separated := if rest.isEmpty then written else comma :: written
    newline :: (indent indentLevel ++ serializeReverse item indentLevel separated)

/-- The loop over the entries of a dictionary, the last one first, its value before its
key. -/
def serializeEntries (entries : List (Bstr × Object)) (indentLevel : Nat)
    (writer : List UInt8) : List UInt8 :=
  match entries with
  | [] => writer
  | (key, value) :: rest =>
    let written := serializeEntries rest indentLevel writer
    let separated := if rest.isEmpty then written else comma :: newline :: written
    let valued := colon :: space :: serializeReverse value indentLevel separated
    indent indentLevel ++ serializeString key.bytes valued

end

/-- `serialize`: the content of the writer afterwards. -/
def serialize (writer : List UInt8) (obj : Object) : List UInt8 := serializeReverse obj 0 writer

end RouteServer.Bencode.Json
