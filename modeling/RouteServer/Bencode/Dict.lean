import RouteServer.Bencode.Object
import RouteServer.Rust.Utf8

/-!
# Entries of dictionaries

A program names the entries of a dictionary by texts of its own and says of what type they are. An
entry of another type is an error, and so is a text that is no UTF-8 or a number beyond its type.
An entry that is missing is an error only where it is required.
-/

namespace RouteServer.Bencode

open Rust

/-- `Dict`. -/
abbrev Dict : Type := List (Bstr × Object)

/-- No bytes at all can be allocated. -/
theorem nil_fits : ([] : List UInt8).length < 2 ^ 63 := Nat.two_pow_pos 63

/-- Bytes that were allocated, so that there are not too many of them. -/
def allocated (bytes : List UInt8) : Bstr :=
  if fits : bytes.length < 2 ^ 63 then ⟨bytes, fits⟩ else ⟨[], nil_fits⟩

/-- Bytes that fit into an allocation are kept as they are. -/
theorem allocated_bytes {bytes : List UInt8} (fits : bytes.length < 2 ^ 63) :
    (allocated bytes).bytes = bytes := by
  rw [allocated, dif_pos fits]

/-- A key or a text of the program, which has no other characters than those of ASCII. -/
def bstr (text : String) : Bstr := allocated (text.toList.map fun c => UInt8.ofNat c.toNat)

namespace Object

/-- `From<String>`. -/
def ofText (text : Text) : Object := .bytes (allocated (text.flatMap String.utf8EncodeChar))

/-- `as_str`. -/
def asStr : Object → Except String Text
  | .bytes content =>
    match fromUtf8 content.bytes with
    | some text => .ok text
    | none => .error "Unable to parse as utf8"
  | _ => .error "Incorrect type"

/-- `as_int`. -/
def asInt : Object → Except String Int64
  | .integer number => .ok number
  | _ => .error "Incorrect type"

/-- `convert_number` for an unsigned type of some width. -/
def asUnsigned (width : Nat) (obj : Object) : Except String Nat := do
  let number ← obj.asInt
  match number.toInt.toNat? with
  | some value => if value < 2 ^ width then return value else .error "Number out of range"
  | none => .error "Number out of range"

/-- `as_list`. -/
def asList : Object → Except String (List Object)
  | .list items => .ok items
  | _ => .error "Incorrect type"

/-- `as_dict`. -/
def asDict : Object → Except String Dict
  | .dict entries => .ok entries
  | _ => .error "Incorrect type"

end Object

/-- `try_get`, with what `try_get_obj` finds. -/
def tryGet {ε α : Type} (tryInto : Object → Except ε α) :
    Option Object → Except ε (Option α)
  | none => .ok none
  | some obj => do
    let t ← tryInto obj
    return some t

namespace Dict

/-- `insert`. -/
def insert (key : String) (value : Object) (dict : Dict) : Dict :=
  OrderedMap.insert (bstr key) value dict

/-- `try_get_obj`. -/
def getObj (key : String) (dict : Dict) : Option Object := OrderedMap.get (bstr key) dict

/-- `has`. -/
def has (key : String) (dict : Dict) : Bool := (dict.getObj key).isSome

/-- `get`. -/
def get {α : Type} (tryInto : Object → Except String α) (key : String) (dict : Dict) :
    Except String α := do
  match ← tryGet tryInto (dict.getObj key) with
  | some value => return value
  | none => .error ("Missing entry " ++ key)

/-- `try_get_bytes`, where an error is no entry. -/
def getBytes (key : String) (dict : Dict) : Option Bstr :=
  match dict.getObj key with
  | some (.bytes content) => some content
  | _ => none

/-- `try_get_str`, where an error is no entry. -/
def getStr (key : String) (dict : Dict) : Option Text :=
  (dict.getBytes key).bind fun content => fromUtf8 content.bytes

/-- `try_get_int`, where an error is no entry. -/
def getInt (key : String) (dict : Dict) : Option Int64 :=
  match dict.getObj key with
  | some (.integer number) => some number
  | _ => none

/-- An entry that was inserted is there. -/
theorem getBytes_insert (key : String) (content : Bstr) (dict : Dict) :
    (dict.insert key (.bytes content)).getBytes key = some content := by
  rw [getBytes, getObj, insert, OrderedMap.get_insert]

/-- An entry of another key stays what it was. -/
theorem getBytes_insert_ne {key other : String} (different : bstr key ≠ bstr other)
    (value : Object) (dict : Dict) :
    (dict.insert other value).getBytes key = dict.getBytes key := by
  rw [getBytes, getBytes, getObj, getObj, insert, OrderedMap.get_insert_ne different]

end Dict

end RouteServer.Bencode
