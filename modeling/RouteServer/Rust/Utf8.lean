/-!
# Text

Text is a list of characters. `from_utf8_lossy` decodes bytes as UTF-8 and puts
one replacement character for every maximal part of an encoding that is not
completed. Searching for a separator and cutting off a suffix work on characters;
as the needles are ASCII, this agrees with the search on encoded bytes.
-/

namespace Rust

/-- A string, by its characters. -/
abbrev Text := List Char

/-- `char::REPLACEMENT_CHARACTER`. -/
def replacementCharacter : Char := Char.ofNat 0xFFFD

/-- The length of an encoding by its first byte, the bounds of its second byte,
and the bits the first byte contributes. -/
def encodingOf (first : UInt8) : Option (Nat × UInt8 × UInt8 × Nat) :=
  if first < 0x80 then some (1, 0x80, 0xBF, first.toNat)
  else if first < 0xC2 then none
  else if first < 0xE0 then some (2, 0x80, 0xBF, first.toNat - 0xC0)
  else if first = 0xE0 then some (3, 0xA0, 0xBF, 0)
  else if first = 0xED then some (3, 0x80, 0x9F, 0xD)
  else if first < 0xF0 then some (3, 0x80, 0xBF, first.toNat - 0xE0)
  else if first = 0xF0 then some (4, 0x90, 0xBF, 0)
  else if first < 0xF4 then some (4, 0x80, 0xBF, first.toNat - 0xF0)
  else if first = 0xF4 then some (4, 0x80, 0x8F, 4)
  else none

/-- Take the continuation bytes still missing. The result is the code point, if
none is missing, and the number of bytes taken. -/
def takeContinuations : Nat → UInt8 → UInt8 → Nat → Nat → List UInt8 → Option Nat × Nat
  | 0, _, _, value, taken, _ => (some value, taken)
  | _ + 1, _, _, _, taken, [] => (none, taken)
  | missing + 1, low, high, value, taken, byte :: rest =>
    if low ≤ byte ∧ byte ≤ high then
      takeContinuations missing 0x80 0xBF (value * 64 + (byte.toNat - 0x80)) (taken + 1) rest
    else (none, taken)

/-- One character, or a replacement, and the number of further bytes it took. -/
def decodeCharacter (first : UInt8) (rest : List UInt8) : Char × Nat :=
  match encodingOf first with
  | none => (replacementCharacter, 0)
  | some (length, low, high, value) =>
    match takeContinuations (length - 1) low high value 0 rest with
    | (some point, taken) => (Char.ofNat point, taken)
    | (none, taken) => (replacementCharacter, taken)

/-- `std::str::from_utf8`: text, if the bytes encode any. -/
def fromUtf8 : List UInt8 → Option Text
  | [] => some []
  | first :: rest =>
    match encodingOf first with
    | none => none
    | some (length, low, high, value) =>
      match takeContinuations (length - 1) low high value 0 rest with
      | (some point, taken) => (fromUtf8 (rest.drop taken)).map (Char.ofNat point :: ·)
      | (none, _) => none
termination_by bytes => bytes.length
decreasing_by
  simp only [List.length_drop, List.length_cons]
  omega

/-- `String::from_utf8_lossy`. -/
def fromUtf8Lossy : List UInt8 → Text
  | [] => []
  | first :: rest =>
    (decodeCharacter first rest).1 :: fromUtf8Lossy (rest.drop (decodeCharacter first rest).2)
termination_by bytes => bytes.length
decreasing_by
  simp only [List.length_drop, List.length_cons]
  omega

/-- `str::strip_prefix`. -/
def stripPrefix (start text : Text) : Option Text :=
  if start <+: text then some (text.drop start.length) else none

/-- A prefix that is there is taken off. -/
theorem stripPrefix_append (start text : Text) : stripPrefix start (start ++ text) = some text := by
  rw [stripPrefix, if_pos (List.prefix_append start text), List.drop_left]

/-- What is stripped of its start was the start and the rest. -/
theorem eq_append_of_stripPrefix {start text rest : Text}
    (stripped : stripPrefix start text = some rest) : text = start ++ rest := by
  rw [stripPrefix] at stripped
  split at stripped
  · next isStart =>
    obtain ⟨behind, rfl⟩ := isStart
    rw [List.drop_left, Option.some.injEq] at stripped
    rw [stripped]
  · cases stripped

/-- `str::strip_suffix`. -/
def stripSuffix (suffix text : Text) : Option Text :=
  if suffix <:+ text then some (text.take (text.length - suffix.length)) else none

/-- `str::find` of a dot and the slice after it. -/
def afterDot : Text → Option Text
  | [] => none
  | character :: rest => if character = '.' then some rest else afterDot rest

/-- The text behind a dot is shorter. -/
theorem afterDot_length {text rest : Text} (found : afterDot text = some rest) :
    rest.length < text.length := by
  induction text with
  | nil => cases found
  | cons character tail inductionHypothesis =>
    rw [afterDot] at found
    split at found
    · cases found
      exact Nat.lt_succ_self _
    · exact Nat.lt_trans (inductionHypothesis found) (Nat.lt_succ_self _)

example : fromUtf8Lossy [0x66, 0xC3, 0xB6, 0xE2, 0x82, 0x41, 0xFF] =
    ['f', 'ö', replacementCharacter, 'A', replacementCharacter] := by
  decide +kernel

end Rust
