import RouteServer.Rust.Reader

/-!
# Addresses, keys and cryptography

A cjdns address starts with the byte `fc`; the zero address is accepted as well. It
is the beginning of the double hash of a public key. Hashing, signatures and the
conversion of signing keys belong to the cryptographic library, whose operations
are listed by `Crypto`.
-/

namespace RouteServer.Keys

open Rust

/-- `CJDNSPublicKey`, and the public keys of signatures. -/
abbrev PublicKey : Type := Bytes 32

/-- `sha512::Digest`, and `AnnHash`. -/
abbrev Digest : Type := Bytes 64

/-- Bytes of a cjdns address: the first one is `fc`, or all are zero. -/
def isIp6 (bytes : List UInt8) : Bool :=
  bytes.length = 16 ∧ (bytes.head? = some 0xfc ∨ bytes = List.replicate 16 0)

/-- `CJDNS_IP6`. -/
structure Ip6 where
  bytes : List UInt8
  valid : isIp6 bytes = true
deriving DecidableEq

/-- `KeyCreationError`. -/
inductive KeyCreationError where
  | notDecodableString
  | badString
  | resultingIp6OutOfValidRange
  | invalidLength
deriving DecidableEq

/-- The message of an error. -/
def KeyCreationError.message : KeyCreationError → String
  | notDecodableString => "Base32 string must encode exactly 255 bits integer in little-endian"
  | badString => "Wrong string format"
  | resultingIp6OutOfValidRange => "Resulting IP6 address must start with 0xFC byte"
  | invalidLength => "Byte array must be exactly 16 bytes long"

/-- Why bytes are no address, where they are none. -/
def Ip6.fault (bytes : List UInt8) : KeyCreationError :=
  if bytes.length = 16 then .resultingIp6OutOfValidRange else .invalidLength

/-- `CJDNS_IP6::try_from` on bytes. -/
def Ip6.tryFrom (bytes : List UInt8) : Option Ip6 :=
  if valid : isIp6 bytes = true then some ⟨bytes, valid⟩ else none

/-- The operations of the cryptographic library. -/
structure Crypto where
  /-- `sha512::hash`. -/
  sha512 : List UInt8 → Digest
  /-- Whether `Signature::from_bytes` accepts the bytes. -/
  isSignature : Bytes 64 → Bool
  /-- `verify_detached` of a signature on signed data under a public key. -/
  verifyDetached : Bytes 64 → List UInt8 → PublicKey → Bool
  /-- `crypto_sign_ed25519_pk_to_curve25519`. -/
  pkToCurve25519 : PublicKey → Option PublicKey

/-- `CJDNS_IP6::try_from` on a public key. -/
def Ip6.ofPublicKey (crypto : Crypto) (key : PublicKey) : Option Ip6 :=
  Ip6.tryFrom ((crypto.sha512 (crypto.sha512 key.bytes).bytes).bytes.take 16)

end RouteServer.Keys
