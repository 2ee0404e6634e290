import RouteServer.Core.Keys
import RouteServer.Rust.Base32
import RouteServer.Rust.Outcome
import RouteServer.Rust.Pattern

/-!
# The text of a public key

A public key is printed in base 32 with the suffix `.k`. Its parser searches the text for a
part of this form, and then decodes the first bytes of the whole text. The base 32 library
is the parameter here: its decoder accepts exactly the encodings. The law says of every text
whether the parser is right about it; it is wrong when the form is found but the text has
more than it.
-/

namespace RouteServer.Keys

open Rust

/-- The number of bytes of a text. -/
def byteLength (text : Text) : Nat := (text.map Char.utf8Size).sum

/-- `text[..count]`: a slice ends between two characters and within the text. -/
def sliceTo : Nat → Text → Outcome KeyCreationError Text
  | 0, _ => .ok []
  | _ + 1, [] => .panicked
  | count + 1, c :: text =>
    if c.utf8Size ≤ count + 1 then do
      let rest ← sliceTo (count + 1 - c.utf8Size) text
      return c :: rest
    else .panicked

/-- `BASE32_DNSCURVE`. -/
structure Base32Encoding where
  encode : List UInt8 → Text
  decode : Text → Option (List UInt8)

/-- The decoder accepts exactly the encodings, which have a symbol for five bits each, a last
one for the bits left over, and no symbols but lower-case letters and digits. -/
structure Base32Encoding.Canonical (base32 : Base32Encoding) : Prop where
  decode_iff : ∀ text bytes, base32.decode text = some bytes ↔ text = base32.encode bytes
  length_encode : ∀ bytes, (base32.encode bytes).length = (8 * bytes.length + 4) / 5
  symbols : ∀ bytes, ∀ c ∈ base32.encode bytes, ('a' ≤ c ∧ c ≤ 'z') ∨ ('0' ≤ c ∧ c ≤ '9')

/-- `[a-z0-9]`. -/
def isKeySymbol (c : Char) : Bool := ('a' ≤ c ∧ c ≤ 'z') ∨ ('0' ≤ c ∧ c ≤ '9')

/-- `PUBLIC_KEY_RE`, which has no anchors. -/
def publicKeyRe : Pattern := List.replicate 52 isKeySymbol ++ [(· == '.'), (· == 'k')]

/-- `BASE32_ENCODED_STRING_LEN`. -/
def base32EncodedStringLen : Nat := 52

/-- `vec_to_array32`. -/
def vecToArray32 (bytes : List UInt8) : Outcome KeyCreationError PublicKey :=
  if sized : bytes.length = 32 then .ok ⟨bytes, sized⟩ else .panicked

/-- `try_from` for `CJDNSPublicKey`. -/
def tryFromStr (base32 : Base32Encoding) (value : Text) : Outcome KeyCreationError PublicKey :=
  if publicKeyRe.isFound value then do
    let front ← sliceTo base32EncodedStringLen value
    match base32.decode front with
    | some bytes => vecToArray32 bytes
    | none => .err .notDecodableString
  else .err .badString

/-- `Display` for `CJDNSPublicKey`. -/
def toText (base32 : Base32Encoding) (key : PublicKey) : Text :=
  base32.encode key.bytes ++ ['.', 'k']

/-- The bytes of a text are those of its first character and of the others. -/
theorem byteLength_cons (c : Char) (text : Text) :
    byteLength (c :: text) = c.utf8Size + byteLength text := by
  rw [byteLength, List.map_cons, List.sum_cons, byteLength]

/-- Text without characters beyond ASCII has a byte for each character. -/
theorem byteLength_of_ascii {text : Text} (ascii : ∀ c ∈ text, c.utf8Size = 1) :
    byteLength text = text.length := by
  induction text with
  | nil => rfl
  | cons c text inductionHypothesis =>
    obtain ⟨first, others⟩ := List.forall_mem_cons.mp ascii
    rw [byteLength_cons, first, inductionHypothesis others, List.length_cons, Nat.add_comm]

/-- Every character takes at least one byte. -/
theorem length_le_byteLength (text : Text) : text.length ≤ byteLength text := by
  induction text with
  | nil => exact Nat.le_refl 0
  | cons c text inductionHypothesis =>
    have := c.utf8Size_pos
    rw [byteLength_cons, List.length_cons]
    omega

/-- A slice is a part in front of the text with that many bytes.

Proof: induction on the text. The first character takes its bytes off the count, and is refused
if it has more of them than are left. -/
theorem sliceTo_ok_iff (count : Nat) (text front : Text) : sliceTo count text = .ok front ↔
    ∃ rest, text = front ++ rest ∧ byteLength front = count := by
  induction text generalizing count front with
  | nil =>
    cases count with
    | zero =>
      constructor
      · intro sliced
        cases sliced
        exact ⟨[], rfl, rfl⟩
      · rintro ⟨rest, whole, _⟩
        rw [(List.append_eq_nil_iff.mp whole.symm).1]
        rfl
    | succ count =>
      constructor
      · intro sliced
        cases sliced
      · rintro ⟨rest, whole, sized⟩
        rw [(List.append_eq_nil_iff.mp whole.symm).1] at sized
        cases sized
  | cons c text inductionHypothesis =>
    have positive := c.utf8Size_pos
    cases count with
    | zero =>
      constructor
      · intro sliced
        cases sliced
        exact ⟨c :: text, rfl, rfl⟩
      · rintro ⟨rest, whole, sized⟩
        cases front with
        | nil => rfl
        | cons other front =>
          have := other.utf8Size_pos
          rw [byteLength_cons] at sized
          omega
    | succ count =>
      rw [sliceTo]
      constructor
      · intro sliced
        split at sliced
        · next room =>
          obtain ⟨behind, inner, same⟩ := (Outcome.bind_ok_iff _ _ _).mp sliced
          cases same
          obtain ⟨rest, rfl, sized⟩ := (inductionHypothesis _ behind).mp inner
          refine ⟨rest, rfl, ?_⟩
          rw [byteLength_cons, sized]
          omega
        · cases sliced
      · rintro ⟨rest, whole, sized⟩
        cases front with
        | nil => cases sized
        | cons other front =>
          obtain ⟨rfl, rfl⟩ := List.cons.inj whole
          rw [byteLength_cons] at sized
          have inner := (inductionHypothesis (count + 1 - c.utf8Size) front).mpr
            ⟨rest, rfl, by omega⟩
          rw [if_pos (by omega), inner]
          rfl

/-- A slice is refused by a panic and in no other way. -/
theorem sliceTo_ne_err (count : Nat) (text : Text) (fault : KeyCreationError) :
    sliceTo count text ≠ .err fault := by
  induction text generalizing count with
  | nil => cases count <;> exact fun same => by cases same
  | cons c text inductionHypothesis =>
    cases count with
    | zero => exact fun same => by cases same
    | succ count =>
      rw [sliceTo]
      split
      · intro failed
        rcases (Outcome.bind_err_iff _ _ _).mp failed with inner | ⟨_, _, last⟩
        · exact inductionHypothesis _ inner
        · cases last
      · exact fun same => by cases same

/-- A symbol of a key takes one byte. -/
theorem utf8Size_of_isKeySymbol {c : Char} (symbol : isKeySymbol c = true) : c.utf8Size = 1 := by
  have small : c.val ≤ 0x7f := by
    have range : 97 ≤ c.toNat ∧ c.toNat ≤ 122 ∨ 48 ≤ c.toNat ∧ c.toNat ≤ 57 := by
      simpa [isKeySymbol, Char.le_def, UInt32.le_iff_toNat_le] using symbol
    rw [UInt32.le_iff_toNat_le]
    show c.toNat ≤ 127
    omega
  exact Char.utf8Size_eq_one_iff.mpr small

/-- What the expression matches: symbols and the suffix. -/
theorem isMatch_publicKeyRe_iff (part : Text) : publicKeyRe.isMatch part = true ↔
    ∃ symbols : Text, part = symbols ++ ['.', 'k'] ∧ symbols.length = 52 ∧
      ∀ c ∈ symbols, isKeySymbol c = true := by
  rw [publicKeyRe, Pattern.isMatch_append_iff]
  constructor
  · rintro ⟨symbols, suffix, rfl, inFront, after⟩
    obtain ⟨sized, accepted⟩ := (Pattern.isMatch_replicate_iff ..).mp inFront
    obtain ⟨dot, rest, rfl, isDot, last⟩ := (Pattern.isMatch_cons_iff ..).mp after
    obtain ⟨k, nothing, rfl, isK, ends⟩ := (Pattern.isMatch_cons_iff ..).mp last
    rw [(Pattern.isMatch_nil_iff nothing).mp ends, eq_of_beq isDot, eq_of_beq isK]
    exact ⟨symbols, rfl, sized, accepted⟩
  · rintro ⟨symbols, rfl, sized, accepted⟩
    exact ⟨symbols, _, rfl, (Pattern.isMatch_replicate_iff ..).mpr ⟨sized, accepted⟩, rfl⟩

variable {base32 : Base32Encoding}

/-- Encodings of keys consist of fifty-two symbols. -/
theorem Base32Encoding.Canonical.encode_key (canonical : base32.Canonical) (key : PublicKey) :
    (base32.encode key.bytes).length = 52 ∧
      ∀ c ∈ base32.encode key.bytes, isKeySymbol c = true := by
  constructor
  · rw [canonical.length_encode, key.sized]
  · intro c listed
    exact decide_eq_true (canonical.symbols _ c listed)

/-- Symbols of a key take as many bytes as they are. -/
theorem byteLength_symbols {symbols : Text} (accepted : ∀ c ∈ symbols, isKeySymbol c = true) :
    byteLength symbols = symbols.length :=
  byteLength_of_ascii (fun c listed => utf8Size_of_isKeySymbol (accepted c listed))

/-- An encoding of as many symbols as a key has is one of a key. -/
theorem Base32Encoding.Canonical.length_bytes (canonical : base32.Canonical) {bytes : List UInt8}
    (sized : byteLength (base32.encode bytes) = 52) : bytes.length = 32 := by
  have symbols : ∀ c ∈ base32.encode bytes, isKeySymbol c = true :=
    fun c listed => decide_eq_true (canonical.symbols _ c listed)
  rw [byteLength_symbols symbols, canonical.length_encode] at sized
  omega

/-- What the parser makes of a text in which the form is found, by what is in front. -/
theorem tryFromStr_of_front (canonical : base32.Canonical) {front rest : Text}
    (found : publicKeyRe.isFound (front ++ rest) = true) (sized : byteLength front = 52) :
    (∀ key : PublicKey, front = base32.encode key.bytes →
      tryFromStr base32 (front ++ rest) = .ok key) ∧
    ((∀ key : PublicKey, front ≠ base32.encode key.bytes) →
      tryFromStr base32 (front ++ rest) = .err .notDecodableString) := by
  have sliced : sliceTo base32EncodedStringLen (front ++ rest) = .ok front :=
    (sliceTo_ok_iff _ _ _).mpr ⟨rest, rfl, sized⟩
  rw [tryFromStr, if_pos found, sliced, Outcome.ok_bind]
  constructor
  · rintro key rfl
    rw [(canonical.decode_iff _ key.bytes).mpr rfl]
    exact dif_pos key.sized
  · intro none
    cases decoded : base32.decode front with
    | none => rfl
    | some bytes =>
      have same := (canonical.decode_iff front bytes).mp decoded
      have bound := canonical.length_bytes (same ▸ sized)
      exact absurd same (none ⟨bytes, bound⟩)

/-- A printed key is found. -/
theorem isFound_toText (canonical : base32.Canonical) (key : PublicKey) :
    publicKeyRe.isFound (toText base32 key) = true := by
  obtain ⟨sized, symbols⟩ := canonical.encode_key key
  apply (Pattern.isFound_iff _ _).mpr
  refine ⟨[], toText base32 key, [], (List.append_nil _).symm, ?_⟩
  exact (isMatch_publicKeyRe_iff _).mpr ⟨_, rfl, sized, symbols⟩

/-- Printed keys are parsed as what they are printed from. A text is parsed without a panic,
and only as a key that is printed as this text, exactly when it does not have the form
anywhere, or its fifty-second byte ends a character and, if the bytes so far encode a key,
two more bytes follow.

Proof: a printed key has fifty-two symbols and its ending. The pattern is found anywhere in a text
and the first fifty-two bytes are sliced off, so a longer text is parsed as well and a cut within
a character panics. -/
theorem publicKey_parsed_iff (canonical : base32.Canonical) :
    (∀ key, tryFromStr base32 (toText base32 key) = .ok key) ∧
    ∀ text, (tryFromStr base32 text ≠ .panicked ∧
        ∀ key, tryFromStr base32 text = .ok key → toText base32 key = text) ↔
      (publicKeyRe.isFound text = true → ∃ front rest, text = front ++ rest ∧
        byteLength front = 52 ∧
        ((∃ key : PublicKey, front = base32.encode key.bytes) → byteLength rest = 2)) := by
  constructor
  · intro key
    obtain ⟨sized, symbols⟩ := canonical.encode_key key
    have bytes : byteLength (base32.encode key.bytes) = 52 := by
      rw [byteLength_symbols symbols, sized]
    exact (tryFromStr_of_front canonical (isFound_toText canonical key) bytes).1 key rfl
  · intro text
    constructor
    · rintro ⟨returns, faithful⟩ found
      cases sliced : sliceTo base32EncodedStringLen text with
      | err fault => exact absurd sliced (sliceTo_ne_err _ _ _)
      | panicked =>
        rw [tryFromStr, if_pos found, sliced] at returns
        exact absurd rfl returns
      | ok front =>
        obtain ⟨rest, rfl, sized⟩ := (sliceTo_ok_iff _ _ _).mp sliced
        refine ⟨front, rest, rfl, sized, ?_⟩
        rintro ⟨key, rfl⟩
        have printed := faithful key ((tryFromStr_of_front canonical found sized).1 key rfl)
        rw [← List.append_cancel_left printed]
        rfl
    · intro condition
      by_cases found : publicKeyRe.isFound text = true
      · obtain ⟨front, rest, rfl, sized, ends⟩ := condition found
        obtain ⟨encoded, other⟩ := tryFromStr_of_front canonical found sized
        by_cases isKey : ∃ key : PublicKey, front = base32.encode key.bytes
        · obtain ⟨key, same⟩ := isKey
          have short := ends ⟨key, same⟩
          rw [encoded key same]
          refine ⟨fun same => (by cases same), ?_⟩
          intro other parsed
          cases parsed
          -- what is found is the whole text, as there are no more bytes
          obtain ⟨before, part, after, whole, matched⟩ := (Pattern.isFound_iff _ _).mp found
          obtain ⟨symbols, rfl, count, accepted⟩ := (isMatch_publicKeyRe_iff part).mp matched
          obtain ⟨keyLength, keySymbols⟩ := canonical.encode_key key
          have total := congrArg List.length whole
          have inFront : front.length = 52 := by rw [same, keyLength]
          have behind := length_le_byteLength rest
          simp only [List.length_append, List.length_cons, List.length_nil, inFront, count] at total
          have noBefore : before = [] := List.eq_nil_of_length_eq_zero (by omega)
          have noAfter : after = [] := List.eq_nil_of_length_eq_zero (by omega)
          rw [noBefore, noAfter, List.nil_append, List.append_nil] at whole
          obtain ⟨_, suffix⟩ := List.append_inj whole (inFront.trans count.symm)
          rw [toText, ← same, suffix]
        · rw [other (fun key same => isKey ⟨key, same⟩)]
          exact ⟨fun same => (by cases same), fun key same => by cases same⟩
      · rw [tryFromStr, if_neg found]
        exact ⟨fun same => (by cases same), fun key same => by cases same⟩

/-- Base 32 of the least significant bits first, with lower-case symbols only. -/
def dnscurve : Base32Encoding := ⟨Base32.encode, Base32.decode⟩

/-- The encoding writes bytes with its own symbols and reads them back. -/
theorem canonical_dnscurve : dnscurve.Canonical where
  decode_iff := Base32.decode_iff
  length_encode := Base32.length_encode
  symbols := by
    intro bytes c listed
    have alphabet : Base32.symbols.all
        (fun c => decide (('a' ≤ c ∧ c ≤ 'z') ∨ ('0' ≤ c ∧ c ≤ '9'))) = true := by decide
    exact of_decide_eq_true (List.all_eq_true.mp alphabet c (Base32.encode_mem_symbols listed))

/-- The key of zeros is parsed, and a short text is refused without a panic. -/
theorem publicKey_parsed_zeros :
    tryFromStr dnscurve (toText dnscurve ⟨List.replicate 32 0, rfl⟩) =
      .ok ⟨List.replicate 32 0, rfl⟩ ∧ tryFromStr dnscurve ['a', '.', 'k'] ≠ .panicked := by
  obtain ⟨printed, parsed⟩ := publicKey_parsed_iff canonical_dnscurve
  refine ⟨printed _, ((parsed ['a', '.', 'k']).mpr ?_).1⟩
  have missing : publicKeyRe.isFound ['a', '.', 'k'] = false := by decide
  exact fun found => absurd found (by rw [missing]; exact Bool.false_ne_true)

/-- Text after a key is dropped, and text before a key may end the slice within a
character. -/
theorem publicKey_of_longer_text :
    let key := "xpr2z2s3hnr0qzpk2u121uqjv15dc335v54pccqlqj6c5p840yy0.k".toList
    (∃ parsed, tryFromStr dnscurve (key ++ ['x']) = .ok parsed ∧
      toText dnscurve parsed ≠ key ++ ['x']) ∧
    tryFromStr dnscurve (List.replicate 51 'a' ++ 'é' :: key) = .panicked := by
  intro key
  constructor
  · obtain ⟨parsed, returned, differs⟩ := Outcome.exists_ok_of_any
      (tryFromStr dnscurve (key ++ ['x'])) (fun parsed => toText dnscurve parsed ≠ key ++ ['x'])
      (by decide +kernel)
    exact ⟨parsed, returned, of_decide_eq_true differs⟩
  · decide +kernel

end RouteServer.Keys
