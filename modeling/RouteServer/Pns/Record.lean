import RouteServer.Bytes.Tlv
import RouteServer.Rust.Utf8

/-!
# DNS records of a domain

The raw records of a domain are a sequence of type-length-value items, each
holding one DNS record in wire format. A record too long for one item is spread
over several and completed by an end marker.

Names, their text, their concatenation and the wire format belong to the DNS
library. `Hickory` lists the operations the code uses of it; a record itself is
the plain structure whose fields the code reads and replaces.
-/

namespace RouteServer.Pns

open Rust

/-- Record types by what the code distinguishes. -/
inductive RecordType where
  | any
  | cname
  | ns
  | other (code : UInt16)
deriving DecidableEq

/-- Record data with the names it refers to. Data without a name is opaque. -/
inductive RData (Name Parameters Opaque : Type) where
  | aname (name : Name)
  | cname (name : Name)
  | ns (name : Name)
  | mx (preference : UInt16) (exchange : Name)
  | ptr (name : Name)
  | srv (priority weight port : UInt16) (target : Name)
  | svcb (svcPriority : UInt16) (targetName : Name) (svcParams : Parameters)
  | other (data : Opaque)
deriving DecidableEq

/-- A DNS record. -/
structure RecordOf (Name Parameters Opaque : Type) where
  name : Name
  recordType : RecordType
  dnsClass : UInt16
  ttl : UInt32
  data : Option (RData Name Parameters Opaque)
deriving DecidableEq

/-- The DNS library: its types and the operations on them. -/
structure Hickory where
  Name : Type
  Parameters : Type
  Opaque : Type
  ProtoError : Type
  /-- `Name::from_utf8`. -/
  fromUtf8 : Text → Except ProtoError Name
  /-- `Name::to_string`. -/
  toText : Name → Text
  /-- `Name::iter`. -/
  labels : Name → List (List UInt8)
  /-- `Name::append_name`. -/
  appendName : Name → Name → Except ProtoError Name
  /-- `Name::append_domain`. -/
  appendDomain : Name → Name → Except ProtoError Name
  /-- `Record::from_bytes`. -/
  fromBytes : List UInt8 → Except ProtoError (RecordOf Name Parameters Opaque)

variable (hickory : Hickory)

/-- A record of the library at hand. -/
abbrev Hickory.Record : Type := RecordOf hickory.Name hickory.Parameters hickory.Opaque

/-- Why the raw records of a domain cannot be decoded. -/
inductive DecodeError where
  | items (fault : Bytes.Report)
  | record (fault : hickory.ProtoError)

variable {hickory}

/-- Item types. -/
def record : UInt8 := 0x05
def longRecord : UInt8 := 0x06
def longRecordEnd : UInt8 := 0x07

/-- `Record::from_bytes` under the `?` of its caller. -/
def recordFromBytes (bytes : List UInt8) : Except (DecodeError hickory) hickory.Record :=
  (hickory.fromBytes bytes).mapError .record

/-- The loop of `decode_records`, with the parts of a long record so far. Items of
an unknown type are passed over. -/
def decodeItems (longRec : List UInt8) :
    List (UInt8 × List UInt8) → Except (DecodeError hickory) (List hickory.Record)
  | [] => .ok []
  | (type, elem) :: rest =>
    if type = longRecordEnd then do
      let first ← recordFromBytes longRec
      let others ← decodeItems [] rest
      return first :: others
    else if type = longRecord then decodeItems (longRec ++ elem) rest
    else if type = record then do
      let first ← recordFromBytes elem
      let others ← decodeItems longRec rest
      return first :: others
    else decodeItems longRec rest

/-- `decode_records`. -/
def decodeRecords (bytes : List UInt8) : Except (DecodeError hickory) (List hickory.Record) := do
  let items ← (Bytes.parseTlv bytes).mapError .items
  decodeItems [] items

/-- A name by its labels, and whether it is absolute. -/
structure PlainName where
  labels : List Text
  isFqdn : Bool
deriving DecidableEq

/-- Labels in wire format, up to the empty one. -/
def wireLabels : List UInt8 → Option (List Text × List UInt8)
  | [] => none
  | length :: rest =>
    if length = 0 then some ([], rest)
    else if length.toNat ≤ rest.length then
      (wireLabels (rest.drop length.toNat)).map fun (labels, left) =>
        (fromUtf8Lossy (rest.take length.toNat) :: labels, left)
    else none
termination_by bytes => bytes.length
decreasing_by
  simp only [List.length_drop, List.length_cons]
  omega

/-- One record in wire format, its data left opaque. -/
def wireRecord (bytes : List UInt8) : Except Unit (RecordOf PlainName Unit (List UInt8)) :=
  match wireLabels bytes with
  | some (labels,
      type1 :: type0 :: class1 :: class0 :: _ :: _ :: _ :: ttl0 :: _ :: length :: data) =>
    if data.length = length.toNat ∧ type1 = 0 then
      .ok {
        name := { labels := labels, isFqdn := true }
        recordType := if type0 = 5 then .cname else if type0 = 2 then .ns else .other type0.toUInt16
        dnsClass := class1.toUInt16 * 256 + class0.toUInt16
        ttl := ttl0.toUInt32
        data := some (.other data) }
    else .error ()
  | _ => .error ()

/-- The library for names of plain labels without escapes, and for records whose
data holds no name. Relative names print without a final dot. -/
def plainNames : Hickory where
  Name := PlainName
  Parameters := Unit
  Opaque := List UInt8
  ProtoError := Unit
  fromUtf8 := fun text => .ok { labels := text.splitOn '.', isFqdn := false }
  toText := fun name =>
    ['.'].intercalate name.labels ++ if name.isFqdn then ['.'] else []
  labels := fun name => name.labels.map (fun label => label.map (fun c => UInt8.ofNat c.toNat))
  appendName := fun name other =>
    .ok { labels := name.labels ++ other.labels, isFqdn := other.isFqdn }
  appendDomain := fun name other => .ok { labels := name.labels ++ other.labels, isFqdn := true }
  fromBytes := wireRecord

end RouteServer.Pns
