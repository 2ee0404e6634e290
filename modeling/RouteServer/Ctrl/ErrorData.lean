import RouteServer.Hdr.SwitchHeader

/-!
# The body of error messages

An error body names the error, repeats the switch header of the packet it is about
and carries further bytes unread. The absence of an error and the unrecognized
errors are not written.
-/

namespace RouteServer.Ctrl

open Rust Bytes Hdr

/-- `ErrorMessageType`. -/
inductive ErrorMessageType where
  | none
  | malformedAddress
  | flood
  | linkLimitExceeded
  | oversizeMessage
  | undersizedMessage
  | authentication
  | invalid
  | undeliverable
  | loopRoute
  | returnPathInvalid
  | unrecognized
deriving DecidableEq

/-- `ErrorMessageType::to_u32`. -/
def ErrorMessageType.toU32 : ErrorMessageType → UInt32
  | none => 0
  | malformedAddress => 1
  | flood => 2
  | linkLimitExceeded => 3
  | oversizeMessage => 4
  | undersizedMessage => 5
  | authentication => 6
  | invalid => 7
  | undeliverable => 8
  | loopRoute => 9
  | returnPathInvalid => 10
  | unrecognized => 11

/-- `ErrorMessageType::from_u32`. -/
def ErrorMessageType.fromU32 (code : UInt32) : ErrorMessageType :=
  if code = 0 then none
  else if code = 1 then malformedAddress
  else if code = 2 then flood
  else if code = 3 then linkLimitExceeded
  else if code = 4 then oversizeMessage
  else if code = 5 then undersizedMessage
  else if code = 6 then authentication
  else if code = 7 then invalid
  else if code = 8 then undeliverable
  else if code = 9 then loopRoute
  else if code = 10 then returnPathInvalid
  else unrecognized

/-- An error type is read back from its code. -/
@[simp] theorem ErrorMessageType.fromU32_toU32 (errType : ErrorMessageType) :
    fromU32 errType.toU32 = errType := by
  cases errType <;> rfl

/-- `ErrorData`. -/
structure ErrorData where
  errType : ErrorMessageType
  switchHeader : SwitchHeader
  additional : List UInt8
deriving DecidableEq

namespace ErrorData

def minSize : Nat := 4 + SwitchHeader.size

/-- The reads of `ErrorData::parse`. -/
def fields (r : List UInt8) : Option ((UInt32 × List UInt8 × List UInt8) × List UInt8) := do
  let (errTypeCode, r) ← readBe 4 r
  let (headerBytes, additional) ← readSlice SwitchHeader.size r
  return ((UInt32.ofNat errTypeCode, headerBytes, additional), [])

/-- `ErrorData::parse`. -/
def parse (bytes : List UInt8) : Outcome ParseError ErrorData := do
  let (errTypeCode, headerBytes, additional) ← read (.notLessThan minSize) fields bytes
  let errType := ErrorMessageType.fromU32 errTypeCode
  if errType = .none then .err (.invalidData "control message has None body error type")
  else do
    let switchHeader ← SwitchHeader.parse headerBytes
    return { errType, switchHeader, additional }

/-- `ErrorData::serialize`. -/
def serialize (data : ErrorData) : Outcome SerializeError (List UInt8) :=
  if data.errType = .unrecognized ∨ data.errType = .none then
    .err (.invalidData "Unrecognized or None error type")
  else do
    let switchHeaderBytes ← data.switchHeader.serialize
    return toBe 4 data.errType.toU32.toNat ++ switchHeaderBytes ++ data.additional

/-- A body as it is read back. -/
def readBack (data : ErrorData) : ErrorData :=
  { data with switchHeader := data.switchHeader.readBack }

/-- What has been written is read back, with all its further bytes. -/
theorem parse_serialize {data : ErrorData} {bytes : List UInt8}
    (written : data.serialize = .ok bytes) : parse bytes = .ok data.readBack := by
  rw [serialize] at written
  split at written
  · cases written
  · next known =>
    obtain ⟨headerBytes, header, joined⟩ := (Outcome.bind_ok_iff _ _ _).mp written
    obtain ⟨writable, rfl⟩ := (SwitchHeader.serialize_ok_iff _ _).mp header
    cases joined
    have code (rest : List UInt8) : readBe 4 (toBe 4 data.errType.toU32.toNat ++ rest) =
        some (data.errType.toU32.toNat, rest) := readBe_append data.errType.toU32.toNat_lt rest
    have reads : fields (toBe 4 data.errType.toU32.toNat ++ data.switchHeader.bytes ++
        data.additional) =
        some ((data.errType.toU32, data.switchHeader.bytes, data.additional), []) := by
      simp [fields, code, readSlice_append (SwitchHeader.bytes_length _)]
    have enough : minSize ≤ (toBe 4 data.errType.toU32.toNat ++ data.switchHeader.bytes ++
        data.additional).length := by
      simp [minSize]
    have present : data.errType ≠ .none := fun same => known (Or.inr same)
    rw [parse, read_notLessThan enough reads]
    simp only [Outcome.ok_bind, ErrorMessageType.fromU32_toU32, if_neg present,
      SwitchHeader.parse_bytes writable]
    rfl

end ErrorData

end RouteServer.Ctrl
