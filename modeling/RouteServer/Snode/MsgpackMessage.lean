import Mathlib.Algebra.Ring.Int.Defs
import Mathlib.Tactic.SplitIfs
import RouteServer.Rust.Outcome
import RouteServer.Rust.Utf8

/-!
# Messages between supernodes

A message is an identifier and its data, and it is sent as an array of values in the format
of the `rmpv` library: the identifier, the name of the kind, and the arguments of that kind.
Empty announcement data is sent as `Nil`, and a list of hashes follows an integer that means
nothing. The writer and the reader share no code; they agree on every message whose hashes
are not empty, and no other message is ever read.
-/

namespace RouteServer.Snode.Msgpack

open Rust

/-- `rmpv::Integer`, a `u64` or a negative `i64`. -/
structure Integer where
  value : Int
  low : -2 ^ 63 ≤ value
  high : value < 2 ^ 64
deriving DecidableEq

/-- `rmpv::Utf8String`: text, or bytes that encode none. -/
inductive Utf8String where
  | text (text : Text)
  | invalid (bytes : List UInt8)

/-- `rmpv::Value`, floating point numbers by their bits. -/
inductive Value where
  | nil
  | boolean (value : Bool)
  | integer (value : Integer)
  | f32 (bits : UInt32)
  | f64 (bits : UInt64)
  | string (value : Utf8String)
  | binary (bytes : List UInt8)
  | array (items : List Value)
  | map (entries : List (Value × Value))
  | ext (kind : Int8) (bytes : List UInt8)

/-- `From<u64>`. -/
def Integer.ofU64 (value : UInt64) : Integer :=
  ⟨value.toNat, by omega, by have := value.toNat_lt; omega⟩

/-- `Integer::as_u64`. -/
def Integer.asU64 (integer : Integer) : Option UInt64 :=
  if 0 ≤ integer.value then some (UInt64.ofNat integer.value.toNat) else none

/-- `Value::as_u64`. -/
def Value.asU64 : Value → Option UInt64
  | .integer n => n.asU64
  | _ => none

/-- `Value::as_array`. -/
def Value.asArray : Value → Option (List Value)
  | .array items => some items
  | _ => none

/-- `Utf8String::as_str`. -/
def Utf8String.asStr : Utf8String → Option Text
  | .text str => some str
  | .invalid _ => none

/-- `AnnHash`, here with bytes of any number. -/
structure AnnHash where
  bytes : List UInt8
deriving DecidableEq

/-- `MessageData`. -/
inductive MessageData where
  | hello (version : UInt64)
  | olleh (version : UInt64)
  | ping
  | ack
  | getData (hash : AnnHash)
  | data (announcement : List UInt8)
  | inv (hashes : List AnnHash)
deriving DecidableEq

/-- `Message`. -/
structure Message where
  id : UInt64
  data : MessageData
deriving DecidableEq

/-- `DecodingError`. -/
inductive DecodingError where
  | msgpackDeserializeError (error : Text)
  | badMessageRootType
  | badMessageRootArrayLength (length : Nat)
  | badIdFieldType
  | badTypeFieldType
  | badArgsCount (typeStr : Text) (expected found : Nat)
  | badArgType (typeStr : Text)
  | badHelloVersionFieldType
  | unrecognizedMessageType (typeStr : Text)
deriving DecidableEq

/-- `Option::ok_or`. -/
def okOr {α : Type} (fault : DecodingError) : Option α → Outcome DecodingError α
  | some value => .ok value
  | none => .err fault

/-- `check_data_len`. -/
def checkDataLen (typeStr : Text) (n expectedLen : Nat) : Outcome DecodingError Unit :=
  if n ≠ expectedLen then .err (.badArgsCount typeStr expectedLen n) else .ok ()

/-- Indexing an argument. -/
def argAt (data : List Value) (i : Nat) : Outcome DecodingError Value :=
  match data[i]? with
  | some value => .ok value
  | none => .panicked

/-- A hash as an argument; it cannot be empty. -/
def hashOf (typeStr : Text) : Value → Outcome DecodingError AnnHash
  | .binary hash => if hash.length > 0 then .ok ⟨hash⟩ else .err (.badArgType typeStr)
  | _ => .err (.badArgType typeStr)

/-- The hashes of an array, or the first error. -/
def hashesOf (typeStr : Text) : List Value → Outcome DecodingError (List AnnHash)
  | [] => .ok []
  | val :: rest => do
    let hash ← hashOf typeStr val
    let hashes ← hashesOf typeStr rest
    return hash :: hashes

/-- Announcement data as an argument: `Nil` is allowed, the same as empty. -/
def dataOf (typeStr : Text) : Value → Outcome DecodingError (List UInt8)
  | .binary data => .ok data
  | .nil => .ok []
  | _ => .err (.badArgType typeStr)

/-- The branch of `from_msgpack` for the name of a kind. -/
def MessageData.fromArgs (typeStr : Text) (data : List Value) :
    Outcome DecodingError MessageData :=
  let n := data.length
  if typeStr = ['P', 'I', 'N', 'G'] then do
    checkDataLen typeStr n 0
    return .ping
  else if typeStr = ['A', 'C', 'K'] then do
    checkDataLen typeStr n 0
    return .ack
  else if typeStr = ['H', 'E', 'L', 'L', 'O'] then do
    checkDataLen typeStr n 1
    let ver ← okOr .badHelloVersionFieldType (← argAt data 0).asU64
    return .hello ver
  else if typeStr = ['O', 'L', 'L', 'E', 'H'] then do
    checkDataLen typeStr n 1
    let ver ← okOr .badHelloVersionFieldType (← argAt data 0).asU64
    return .olleh ver
  else if typeStr = ['G', 'E', 'T', '_', 'D', 'A', 'T', 'A'] then do
    checkDataLen typeStr n 1
    let hash ← hashOf typeStr (← argAt data 0)
    return .getData hash
  else if typeStr = ['D', 'A', 'T', 'A'] then do
    checkDataLen typeStr n 1
    let announcement ← dataOf typeStr (← argAt data 0)
    return .data announcement
  else if typeStr = ['I', 'N', 'V'] then do
    checkDataLen typeStr n 2
    let arr ← okOr (.badArgType typeStr) (← argAt data 1).asArray
    let hashes ← hashesOf typeStr arr
    return .inv hashes
  else .err (.unrecognizedMessageType typeStr)

/-- `MessageData::from_msgpack`. -/
def MessageData.fromMsgpack (msgData : List Value) : Outcome DecodingError MessageData := do
  Outcome.assert (msgData.length ≥ 1 ∧ msgData.length ≤ 4)
  match msgData with
  | .string s :: args => do
    let typeStr ← okOr .badTypeFieldType s.asStr
    MessageData.fromArgs typeStr args
  | _ :: _ => .err .badTypeFieldType
  | [] => .panicked

/-- `Message::from_msgpack`. -/
def Message.fromMsgpack (msg : Value) : Outcome DecodingError Message :=
  match msg with
  | .array rootArr => do
    let n := rootArr.length
    if n < 2 ∨ n > 4 then .err (.badMessageRootArrayLength n)
    else do
      let id ← okOr .badIdFieldType (← argAt rootArr 0).asU64
      let data ← MessageData.fromMsgpack (rootArr.drop 1)
      return ⟨id, data⟩
  | _ => .err .badMessageRootType

/-- `Value::from` on text. -/
def Value.ofStr (text : Text) : Value := .string (.text text)

/-- `MessageData::as_msgpack`, which pushes values to those given. -/
def MessageData.asMsgpack (res : List Value) : MessageData → List Value
  | .hello a => res ++ [.ofStr ['H', 'E', 'L', 'L', 'O'], .integer (.ofU64 a)]
  | .olleh a => res ++ [.ofStr ['O', 'L', 'L', 'E', 'H'], .integer (.ofU64 a)]
  | .ping => res ++ [.ofStr ['P', 'I', 'N', 'G']]
  | .ack => res ++ [.ofStr ['A', 'C', 'K']]
  | .getData hash => res ++ [.ofStr ['G', 'E', 'T', '_', 'D', 'A', 'T', 'A'], .binary hash.bytes]
  | .data bytes =>
    res ++ [.ofStr ['D', 'A', 'T', 'A'], if bytes.isEmpty then .nil else .binary bytes]
  | .inv hashes =>
    res ++ [.ofStr ['I', 'N', 'V'], .integer (.ofU64 0),
      .array (hashes.map (fun v => .binary v.bytes))]

/-- `Message::as_msgpack`. -/
def Message.asMsgpack (message : Message) : Value :=
  .array (message.data.asMsgpack [.integer (.ofU64 message.id)])

/-- `EncodingError`. -/
inductive EncodingError where
  | msgpackSerializeError (error : Text)

/-- The `rmpv` library: writing and reading one value, errors by their texts. -/
structure Rmpv where
  writeValue : Value → Except Text (List UInt8)
  readValue : List UInt8 → Except Text Value

/-- `encode_msgpack`. -/
def Message.encodeMsgpack (rmpv : Rmpv) (message : Message) :
    Outcome EncodingError (List UInt8) :=
  match rmpv.writeValue message.asMsgpack with
  | .ok bytes => .ok bytes
  | .error e => .err (.msgpackSerializeError e)

/-- `decode_msgpack`. -/
def Message.decodeMsgpack (rmpv : Rmpv) (bytes : List UInt8) : Outcome DecodingError Message :=
  match rmpv.readValue bytes with
  | .ok msg => Message.fromMsgpack msg
  | .error e => .err (.msgpackDeserializeError e)

/-- What is written is read back. -/
def Rmpv.RoundTrips (rmpv : Rmpv) : Prop :=
  ∀ value, ∃ bytes, rmpv.writeValue value = .ok bytes ∧ rmpv.readValue bytes = .ok value

/-- No hash of the data is empty. -/
def MessageData.HashesNonempty : MessageData → Prop
  | .getData hash => hash.bytes ≠ []
  | .inv hashes => ∀ hash ∈ hashes, hash.bytes ≠ []
  | _ => True

/-- A number is read back. -/
theorem asU64_ofU64 (value : UInt64) : (Integer.ofU64 value).asU64 = some value := by
  have positive : 0 ≤ (Integer.ofU64 value).value := Int.natCast_nonneg _
  rw [Integer.asU64, if_pos positive]
  exact congrArg some (UInt64.ofNat_toNat)

/-- What is there is no error. -/
@[simp] theorem okOr_some {α : Type} (fault : DecodingError) (value : α) :
    okOr fault (some value) = .ok value := rfl

/-- A length is what it should be. -/
@[simp] theorem checkDataLen_self (typeStr : Text) (n : Nat) : checkDataLen typeStr n n = .ok () :=
  if_neg (fun different => different rfl)

/-- The first argument is in front. -/
@[simp] theorem argAt_zero (value : Value) (rest : List Value) :
    argAt (value :: rest) 0 = .ok value := rfl

/-- A hash is read from its bytes, unless there are none. -/
theorem hashOf_binary (typeStr : Text) {hash : AnnHash} (nonempty : hash.bytes ≠ []) :
    hashOf typeStr (.binary hash.bytes) = .ok hash :=
  if_pos (List.length_pos_iff.mpr nonempty)

/-- Hashes are read from their bytes, one by one. -/
theorem hashesOf_binary (typeStr : Text) {hashes : List AnnHash}
    (nonempty : ∀ hash ∈ hashes, hash.bytes ≠ []) :
    hashesOf typeStr (hashes.map (fun v => .binary v.bytes)) = .ok hashes := by
  induction hashes with
  | nil => rfl
  | cons hash hashes inductionHypothesis =>
    obtain ⟨first, others⟩ := List.forall_mem_cons.mp nonempty
    rw [List.map_cons, hashesOf, hashOf_binary typeStr first, inductionHypothesis others]
    rfl

/-- What is read as a hash is not empty. -/
theorem hashOf_ok {typeStr : Text} {val : Value} {hash : AnnHash}
    (read : hashOf typeStr val = .ok hash) : hash.bytes ≠ [] := by
  cases val with
  | binary bytes =>
    rw [hashOf] at read
    split at read
    · next some =>
      cases read
      exact List.length_pos_iff.mp some
    · cases read
  | _ => cases read

/-- No hash that was read is empty. -/
theorem hashesOf_ok {typeStr : Text} {arr : List Value} {hashes : List AnnHash}
    (read : hashesOf typeStr arr = .ok hashes) : ∀ hash ∈ hashes, hash.bytes ≠ [] := by
  induction arr generalizing hashes with
  | nil =>
    cases read
    exact fun hash listed => absurd listed List.not_mem_nil
  | cons val arr inductionHypothesis =>
    obtain ⟨hash, first, rest⟩ := (Outcome.bind_ok_iff _ _ _).mp read
    obtain ⟨others, later, same⟩ := (Outcome.bind_ok_iff _ _ _).mp rest
    cases same
    exact List.forall_mem_cons.mpr ⟨hashOf_ok first, inductionHypothesis later⟩

/-- Data is read back from the name of its kind and its arguments. -/
theorem fromMsgpack_asMsgpack {data : MessageData} (nonempty : data.HashesNonempty) :
    MessageData.fromMsgpack (data.asMsgpack []) = .ok data := by
  cases data with
  | hello version =>
    show (okOr .badHelloVersionFieldType (Integer.ofU64 version).asU64 >>= fun ver =>
      (.ok (.hello ver) : Outcome DecodingError MessageData)) = _
    rw [asU64_ofU64]
    rfl
  | olleh version =>
    show (okOr .badHelloVersionFieldType (Integer.ofU64 version).asU64 >>= fun ver =>
      (.ok (.olleh ver) : Outcome DecodingError MessageData)) = _
    rw [asU64_ofU64]
    rfl
  | ping => rfl
  | ack => rfl
  | getData hash =>
    show hashOf _ (.binary hash.bytes) >>= _ = _
    rw [hashOf_binary _ nonempty]
    rfl
  | data announcement =>
    cases announcement <;> rfl
  | inv hashes =>
    show hashesOf _ (hashes.map (fun v => .binary v.bytes)) >>= _ = _
    rw [hashesOf_binary _ nonempty]
    rfl

/-- The identifier in front of the data is read first. -/
theorem fromMsgpack_cons (id : UInt64) {values : List Value}
    (some : 1 ≤ values.length) (few : values.length ≤ 3) :
    Message.fromMsgpack (.array (.integer (.ofU64 id) :: values)) =
      (MessageData.fromMsgpack values >>= fun data => .ok ⟨id, data⟩) := by
  have inRange : ¬((Value.integer (.ofU64 id) :: values).length < 2 ∨
      (Value.integer (.ofU64 id) :: values).length > 4) := by
    rw [List.length_cons]
    omega
  rw [Message.fromMsgpack]
  simp only [if_neg inRange, argAt_zero, Outcome.ok_bind, Value.asU64, asU64_ofU64, okOr_some,
    List.drop_succ_cons, List.drop_zero, Outcome.pure_def]

/-- The values of the data stand behind those given. -/
theorem asMsgpack_append (res : List Value) (data : MessageData) :
    data.asMsgpack res = res ++ data.asMsgpack [] := by
  cases data <;> rfl

/-- A message has one to three items besides its number. -/
theorem length_asMsgpack (data : MessageData) :
    1 ≤ (data.asMsgpack []).length ∧ (data.asMsgpack []).length ≤ 3 := by
  cases data <;> simp [MessageData.asMsgpack]

/-- The one argument of a kind, and what was made of it. -/
theorem exists_arg_of_ok {α : Type} {check : Outcome DecodingError Unit}
    {arg : Outcome DecodingError Value} {read : Value → Outcome DecodingError α}
    {wrap : α → MessageData} {data : MessageData}
    (taken : (check >>= fun _ => arg >>= fun val => read val >>= fun found => pure (wrap found)) =
      .ok data) : ∃ val found, read val = .ok found ∧ wrap found = data := by
  obtain ⟨_, _, inner⟩ := (Outcome.bind_ok_iff _ _ _).mp taken
  obtain ⟨val, _, next⟩ := (Outcome.bind_ok_iff _ _ _).mp inner
  obtain ⟨found, ok, same⟩ := (Outcome.bind_ok_iff _ _ _).mp next
  cases same
  exact ⟨val, found, ok, rfl⟩

/-- What is read has no empty hash.

Proof: one case for each kind of message; the reader of hashes refuses an empty one. -/
theorem hashesNonempty_of_read {values : List Value} {data : MessageData}
    (read : MessageData.fromMsgpack values = .ok data) : data.HashesNonempty := by
  obtain ⟨_, _, rest⟩ := (Outcome.bind_ok_iff _ _ _).mp read
  split at rest
  · next s args =>
    obtain ⟨typeStr, _, taken⟩ := (Outcome.bind_ok_iff _ _ _).mp rest
    rw [MessageData.fromArgs] at taken
    split_ifs at taken with isPing isAck isHello isOlleh isGetData isData isInv
    · obtain ⟨_, _, same⟩ := (Outcome.bind_ok_iff _ _ _).mp taken
      cases same
      trivial
    · obtain ⟨_, _, same⟩ := (Outcome.bind_ok_iff _ _ _).mp taken
      cases same
      trivial
    · obtain ⟨_, _, _, rfl⟩ := exists_arg_of_ok taken
      trivial
    · obtain ⟨_, _, _, rfl⟩ := exists_arg_of_ok taken
      trivial
    · obtain ⟨_, hash, one, rfl⟩ := exists_arg_of_ok taken
      exact hashOf_ok one
    · obtain ⟨_, _, _, rfl⟩ := exists_arg_of_ok taken
      trivial
    · obtain ⟨_, _, inner⟩ := (Outcome.bind_ok_iff _ _ _).mp taken
      obtain ⟨_, _, next⟩ := (Outcome.bind_ok_iff _ _ _).mp inner
      obtain ⟨_, _, later⟩ := (Outcome.bind_ok_iff _ _ _).mp next
      obtain ⟨hashes, all, same⟩ := (Outcome.bind_ok_iff _ _ _).mp later
      cases same
      exact hashesOf_ok all
  · cases rest
  · cases rest

/-- No hash of a message that was read is empty. -/
theorem message_hashesNonempty_of_read {msg : Value} {message : Message}
    (read : Message.fromMsgpack msg = .ok message) : message.data.HashesNonempty := by
  cases msg with
  | array rootArr =>
    rw [Message.fromMsgpack] at read
    split_ifs at read
    obtain ⟨_, _, first⟩ := (Outcome.bind_ok_iff _ _ _).mp read
    obtain ⟨_, _, second⟩ := (Outcome.bind_ok_iff _ _ _).mp first
    obtain ⟨data, taken, same⟩ := (Outcome.bind_ok_iff _ _ _).mp second
    cases same
    exact hashesNonempty_of_read taken
  | _ => cases read

/-- A message without empty hashes is read back. -/
theorem message_fromMsgpack_asMsgpack {message : Message}
    (nonempty : message.data.HashesNonempty) :
    Message.fromMsgpack message.asMsgpack = .ok message := by
  obtain ⟨some, few⟩ := length_asMsgpack message.data
  rw [Message.asMsgpack, asMsgpack_append, List.singleton_append, fromMsgpack_cons _ some few,
    fromMsgpack_asMsgpack nonempty]
  rfl

/-- Messages without empty hashes are read back, as values and as bytes; and a value that is
accepted as a message is read as the same message after it is written again. -/
theorem msgpack_message_round_trip :
    (∀ message : Message, message.data.HashesNonempty →
      Message.fromMsgpack message.asMsgpack = .ok message) ∧
    (∀ msg message, Message.fromMsgpack msg = .ok message →
      Message.fromMsgpack message.asMsgpack = .ok message) ∧
    ∀ rmpv : Rmpv, rmpv.RoundTrips → ∀ message : Message, message.data.HashesNonempty →
      ∃ bytes, message.encodeMsgpack rmpv = .ok bytes ∧
        Message.decodeMsgpack rmpv bytes = .ok message := by
  refine ⟨fun message nonempty => message_fromMsgpack_asMsgpack nonempty, ?accepted, ?bytes⟩
  case accepted =>
    intro msg message read
    exact message_fromMsgpack_asMsgpack (message_hashesNonempty_of_read read)
  case bytes =>
    intro rmpv roundTrips message nonempty
    obtain ⟨bytes, written, read⟩ := roundTrips message.asMsgpack
    refine ⟨bytes, ?_, ?_⟩
    · rw [Message.encodeMsgpack, written]
    · rw [Message.decodeMsgpack, read]
      exact message_fromMsgpack_asMsgpack nonempty

/-- An announcement of two hashes. -/
theorem msgpack_message_round_trip_inv :
    let message : Message := ⟨7, .inv [⟨[1, 2]⟩, ⟨[3]⟩]⟩
    Message.fromMsgpack message.asMsgpack = .ok message := by
  intro message
  apply msgpack_message_round_trip.1
  exact List.forall_mem_cons.mpr
    ⟨List.cons_ne_nil _ _, List.forall_mem_singleton.mpr (List.cons_ne_nil _ _)⟩

end RouteServer.Snode.Msgpack
