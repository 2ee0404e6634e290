import Mathlib.Algebra.Ring.Parity
import Mathlib.Data.List.DropRight
import RouteServer.Bencode.JsonRoundTrip
import RouteServer.Rust.Agreement

/-!
# The pieces of a JSON text

What the parser passes over in front of a meaningful byte depends on the text alone, and so
does where it ends. A text is made of pieces: blanks, marks, the bytes of numbers, strings
and comments. A comment in a block ends at the first star with a slash after it, but the
parser looks for the slash only after every other star of a row, so it misses the end of
a comment whose text ends with an odd number of stars.
-/

namespace RouteServer.Bencode.Json

open Rust Outcome

/-- What is left after the end of a comment in a block. -/
def skipBlock : List UInt8 → List UInt8
  | byte :: following :: rest =>
    if byte = star then
      if following = slash then rest else skipBlock rest
    else skipBlock (following :: rest)
  | _ => []

/-- What is left after the end of a line. -/
def skipLine : List UInt8 → List UInt8
  | byte :: rest => if byte = newline then rest else skipLine rest
  | [] => []

/-- What is left after a slash and what belongs to it. -/
def skipComment : List UInt8 → List UInt8
  | byte :: rest =>
    if byte = star then skipBlock rest else if byte = slash then skipLine rest else rest
  | [] => []

/-- The text behind a block comment is a part of what there was. -/
theorem skipBlock_length (text : List UInt8) : (skipBlock text).length ≤ text.length := by
  fun_induction skipBlock text with
  | case1 rest =>
    rw [List.length_cons, List.length_cons]
    omega
  | case2 following rest other inductionHypothesis =>
    rw [List.length_cons, List.length_cons]
    omega
  | case3 byte following rest other inductionHypothesis =>
    exact inductionHypothesis.trans (Nat.le_succ _)
  | case4 => exact Nat.zero_le _

/-- The text behind a line is a part of what there was. -/
theorem skipLine_length (text : List UInt8) : (skipLine text).length ≤ text.length := by
  fun_induction skipLine text with
  | case1 => exact Nat.le_succ _
  | case2 byte rest other inductionHypothesis => exact inductionHypothesis.trans (Nat.le_succ _)
  | case3 => exact Nat.le_refl _

/-- Either kind of comment leaves a part of the text. -/
theorem skipComment_length (text : List UInt8) : (skipComment text).length ≤ text.length := by
  fun_cases skipComment text with
  | case1 rest => exact (skipBlock_length rest).trans (Nat.le_succ _)
  | case2 rest => exact (skipLine_length rest).trans (Nat.le_succ _)
  | case3 => exact Nat.le_succ _
  | case4 => exact Nat.le_refl _

/-- The text from its first meaningful byte on. -/
def skip (text : List UInt8) : List UInt8 :=
  match text with
  | byte :: rest =>
    if byte = slash then skip (skipComment rest)
    else if byte = space ∨ byte = tab ∨ byte = newline then skip rest
    else byte :: rest
  | [] => []
termination_by text.length
decreasing_by
  · exact Nat.lt_succ_of_le (skipComment_length rest)
  · exact Nat.lt_succ_self _

/-- Where no byte is read there is none left. -/
theorem unread_of_none {parser : JsonParser} (read : readByte parser = none) :
    parser.unread = [] := by
  rw [readByte_eq] at read
  split at read
  · next ended => exact ended
  · cases read

/-- The byte that is read is the first of those that were left. -/
theorem unread_of_some {parser next : JsonParser} {byte : UInt8}
    (read : readByte parser = some (byte, next)) : parser.unread = byte :: next.unread := by
  rw [readByte_eq] at read
  split at read
  · cases read
  · next found =>
    cases read
    exact found

/-- On the bytes that are left a comment to the end of the line is `skipLine`, by induction on them.
-/
theorem consumeSinglelineComment_unread (parser : JsonParser) :
    (consumeSinglelineComment parser).unread = skipLine parser.unread := by
  fun_induction consumeSinglelineComment parser with
  | case1 parser read => rw [unread_of_none read, skipLine]
  | case2 parser next read =>
    rw [unread_of_some read, skipLine, if_pos rfl]
    rfl
  | case3 parser byte next read other inductionHypothesis =>
    rw [unread_of_some read, skipLine, if_neg other, inductionHypothesis]

/-- On the bytes that are left a block comment is `skipBlock`, by induction on them. -/
theorem consumeMultilineComment_unread (parser : JsonParser) :
    (consumeMultilineComment parser).unread = skipBlock parser.unread := by
  fun_induction consumeMultilineComment parser with
  | case1 parser read =>
    rw [unread_of_none read]
    rfl
  | case2 parser next afterNext read second =>
    rw [unread_of_some read, unread_of_some second, skipBlock, if_pos rfl, if_pos rfl]
  | case3 parser next following afterNext second other read inductionHypothesis =>
    rw [unread_of_some read, unread_of_some second, skipBlock, if_pos rfl, if_neg other,
      inductionHypothesis]
  | case4 parser next second read inductionHypothesis =>
    rw [inductionHypothesis, unread_of_some read, unread_of_none second]
    rfl
  | case5 parser byte next read other inductionHypothesis =>
    rw [inductionHypothesis, unread_of_some read]
    cases next.unread with
    | nil => rfl
    | cons following rest => rw [skipBlock, if_neg other]

/-- On the bytes that are left a comment is `skipComment`. -/
theorem handleComment_unread (parser : JsonParser) :
    (handleComment parser).unread = skipComment parser.unread := by
  rw [handleComment]
  split
  · next read => rw [unread_of_none read, skipComment]
  · next read =>
    rw [unread_of_some read, skipComment]
    split_ifs
    · exact consumeMultilineComment_unread _
    · exact consumeSinglelineComment_unread _
    · rfl

/-- The byte that is returned and what is left after it, if there is any. -/
theorem skip_eq (parser : JsonParser) :
    skip parser.unread = ((nextMeaningfulChar parser).toOption.map fun read =>
      read.1 :: read.2.unread).getD [] := by
  fun_induction nextMeaningfulChar parser with
  | case1 parser ended =>
    rw [unread_of_none ended, skip]
    rfl
  | case2 parser after found inductionHypothesis =>
    rw [unread_of_some found, skip, if_pos rfl, ← handleComment_unread, inductionHypothesis]
  | case3 parser first after found notSlash blank inductionHypothesis =>
    rw [unread_of_some found, skip, if_neg notSlash, if_pos (by tauto), inductionHypothesis]
  | case4 parser after found notSlash notBlank inductionHypothesis =>
    rw [unread_of_some found, skip, if_neg notSlash, if_pos (by tauto)]
    exact inductionHypothesis
  | case5 parser first after found notSlash notBlank notNewline =>
    rw [unread_of_some found, skip, if_neg notSlash, if_neg (by tauto)]
    rfl

/-- The parser needs a meaningful byte and none is left. -/
def RanOut (fault : ParseError) : Prop :=
  ∃ line, fault = .malformedInput "Ran out of content while parsing" line

/-- Where all that is left is passed over, the text is said to be over. -/
theorem nextMeaningfulChar_ranOut {parser : JsonParser} (nothing : skip parser.unread = []) :
    ∃ fault, RanOut fault ∧ nextMeaningfulChar parser = .err fault := by
  fun_induction nextMeaningfulChar parser with
  | case1 parser ended => exact ⟨_, ⟨parser.currentLine, rfl⟩, rfl⟩
  | case2 parser after found inductionHypothesis =>
    rw [unread_of_some found, skip, if_pos rfl, ← handleComment_unread] at nothing
    exact inductionHypothesis nothing
  | case3 parser first after found notSlash blank inductionHypothesis =>
    rw [unread_of_some found, skip, if_neg notSlash, if_pos (by tauto)] at nothing
    exact inductionHypothesis nothing
  | case4 parser after found notSlash notBlank inductionHypothesis =>
    rw [unread_of_some found, skip, if_neg notSlash, if_pos (by tauto)] at nothing
    exact inductionHypothesis nothing
  | case5 parser first after found notSlash notBlank notNewline =>
    rw [unread_of_some found, skip, if_neg notSlash, if_neg (by tauto)] at nothing
    cases nothing

/-- Texts with the same first meaningful byte give that byte. -/
theorem nextMeaningfulChar_agree {lost : ParseError → Prop} {left right : JsonParser}
    (same : (skip left.unread).head? = (skip right.unread).head?) :
    Agree lost (fun first second => first.1 = second.1 ∧
        skip left.unread = first.1 :: first.2.unread ∧
        skip right.unread = second.1 :: second.2.unread)
      (nextMeaningfulChar left) (nextMeaningfulChar right) := by
  rw [skip_eq left, skip_eq right] at same ⊢
  right
  generalize (nextMeaningfulChar left).toOption = first at same ⊢
  generalize (nextMeaningfulChar right).toOption = second at same ⊢
  cases first with
  | none =>
    cases second with
    | none => exact .none
    | some second => cases same
  | some first =>
    cases second with
    | none => cases same
    | some second => exact .some ⟨Option.some.inj same, rfl, rfl⟩

/-- A part of a string: a byte that stands for itself, or an escape. -/
inductive StringPart where
  | plain (byte : UInt8) (notQuote : byte ≠ quote) (notBackslash : byte ≠ backslash)
  | escape (first second hex : UInt8) (isText : fromUtf8 [first, second] ≠ none)
      (digits : fromStrRadix16 first second = some hex)

/-- The bytes of a part. -/
def StringPart.text : StringPart → List UInt8
  | plain byte _ _ => [byte]
  | escape first second _ _ _ => [backslash, letterX, first, second]

/-- The marks of the format. -/
def marks : List UInt8 := [openBrace, closeBrace, openBracket, closeBracket, colon, comma]

/-- A comment to the end of its line. -/
def lineComment (text : List UInt8) : List UInt8 := slash :: slash :: text ++ [newline]

/-- A comment in a block. -/
def blockComment (text : List UInt8) : List UInt8 := slash :: star :: text ++ [star, slash]

/-- A piece of a text: a token, a blank or a comment. Each byte of a number is a piece. -/
inductive Piece where
  | blank (byte : UInt8) (isBlank : byte = space ∨ byte = tab ∨ byte = newline)
  | mark (byte : UInt8) (isMark : byte ∈ marks)
  | digit (byte : UInt8) (inside : inNumber byte = true)
  | string (parts : List StringPart)
  | lineComment (text : List UInt8) (oneLine : newline ∉ text)
  | blockComment (text : List UInt8) (noEnd : ¬ [star, slash] <:+: text)

/-- The bytes of a piece. -/
def Piece.text : Piece → List UInt8
  | blank byte _ => [byte]
  | mark byte _ => [byte]
  | digit byte _ => [byte]
  | string parts => quote :: parts.flatMap StringPart.text ++ [quote]
  | lineComment text _ => Json.lineComment text
  | blockComment text _ => Json.blockComment text

/-- The bytes of pieces. -/
def textOf (pieces : List Piece) : List UInt8 := pieces.flatMap Piece.text

/-- The text of pieces is that of the first and that of the others. -/
theorem textOf_cons (piece : Piece) (pieces : List Piece) :
    textOf (piece :: pieces) = piece.text ++ textOf pieces := rfl

/-- The number of stars at the end of a text. -/
def starsAtEnd (text : List UInt8) : Nat := (text.rtakeWhile (· == star)).length

/-- The text of a comment in a block ends with an even number of stars. -/
def Piece.Closed : Piece → Prop
  | blockComment text _ => Even (starsAtEnd text)
  | _ => True

/-- There are no more stars at the end than bytes. -/
theorem starsAtEnd_le (text : List UInt8) : starsAtEnd text ≤ text.length :=
  (List.rtakeWhile_suffix _ _).length_le

/-- One more byte in front counts if it is a star and only stars follow. -/
theorem starsAtEnd_cons (byte : UInt8) (text : List UInt8) :
    starsAtEnd (byte :: text) =
      if byte = star ∧ starsAtEnd text = text.length then text.length + 1
      else starsAtEnd text := by
  simp only [starsAtEnd, List.rtakeWhile, List.length_reverse, List.reverse_cons,
    List.takeWhile_append]
  by_cases all : (text.reverse.takeWhile (· == star)).length = text.length
  · by_cases isStar : byte = star
    · simp [all, isStar]
    · simp [all, isStar]
  · simp [all]

/-- A byte that is no star counts for nothing. -/
theorem starsAtEnd_other {byte : UInt8} (other : byte ≠ star) (text : List UInt8) :
    starsAtEnd (byte :: text) = starsAtEnd text := by
  rw [starsAtEnd_cons, if_neg fun both => other both.1]

/-- A star and the byte after it do not change whether the number is even. -/
theorem even_starsAtEnd_pair (following : UInt8) (text : List UInt8) :
    Even (starsAtEnd (star :: following :: text)) ↔ Even (starsAtEnd text) := by
  have most := starsAtEnd_le text
  by_cases all : following = star ∧ starsAtEnd text = text.length
  · have one : starsAtEnd (following :: text) = text.length + 1 := by
      rw [starsAtEnd_cons, if_pos all]
    rw [starsAtEnd_cons, if_pos ⟨rfl, one⟩, List.length_cons, all.2, Nat.even_iff, Nat.even_iff]
    omega
  · have same : starsAtEnd (following :: text) = starsAtEnd text := by
      rw [starsAtEnd_cons, if_neg all]
    have notAll : starsAtEnd (following :: text) ≠ (following :: text).length := by
      rw [same, List.length_cons]
      omega
    rw [starsAtEnd_cons, if_neg fun both => notAll both.2, same]

/-- The end of a comment is seen after an even number of stars only.

Proof: by the recursion of the scanner, which takes two bytes after a star and one after any
other byte. -/
theorem skipBlock_append {text : List UInt8} (noEnd : ¬ [star, slash] <:+: text)
    (after : List UInt8) :
    skipBlock (text ++ star :: slash :: after) =
      if Even (starsAtEnd text) then after else skipBlock after := by
  fun_induction skipBlock text with
  | case1 rest => exact absurd (List.prefix_append [star, slash] rest).isInfix noEnd
  | case2 following rest other inductionHypothesis =>
    have shorter : ¬ [star, slash] <:+: rest := fun inside =>
      noEnd (inside.trans (List.suffix_append [star, following] rest).isInfix)
    rw [List.cons_append, List.cons_append, skipBlock, if_pos rfl, if_neg other,
      inductionHypothesis shorter]
    exact if_congr (even_starsAtEnd_pair following rest).symm rfl rfl
  | case3 byte following rest other inductionHypothesis =>
    have shorter : ¬ [star, slash] <:+: following :: rest := fun inside =>
      noEnd (inside.trans (List.suffix_cons byte _).isInfix)
    rw [starsAtEnd_other other, ← inductionHypothesis shorter, List.cons_append,
      List.cons_append, skipBlock, if_neg other]
  | case4 text short =>
    obtain _ | ⟨byte, _ | ⟨following, rest⟩⟩ := text
    · rfl
    · by_cases isStar : byte = star
      · subst isStar
        -- the star before the end takes the star of the end for the byte after it
        have swallowed : skipBlock (slash :: after) = skipBlock after := by
          cases after <;> rfl
        rw [if_neg (by decide)]
        exact swallowed
      · rw [starsAtEnd_other isStar, List.singleton_append, skipBlock, if_neg isStar]
        rfl
    · exact absurd rfl (short byte following rest)

/-- A line without a newline ends at the first one behind it. -/
theorem skipLine_append {text : List UInt8} (oneLine : newline ∉ text) (after : List UInt8) :
    skipLine (text ++ newline :: after) = after := by
  induction text with
  | nil => rw [List.nil_append, skipLine, if_pos rfl]
  | cons byte text inductionHypothesis =>
    rw [List.cons_append, skipLine, if_neg (List.ne_of_not_mem_cons oneLine).symm,
      inductionHypothesis (List.not_mem_of_not_mem_cons oneLine)]

/-- A comment to the end of the line is passed over up to its newline. -/
theorem skip_lineComment {text : List UInt8} (oneLine : newline ∉ text)
    (after : List UInt8) : skip (lineComment text ++ after) = skip after := by
  have whole : lineComment text ++ after = slash :: slash :: (text ++ newline :: after) := by
    simp [lineComment]
  rw [whole, skip, if_pos rfl, skipComment, if_neg (by decide), if_pos rfl,
    skipLine_append oneLine]

/-- Behind a star the scanner takes the next byte with it, so it sees the end of a block comment
exactly when an even number of stars stands before that end. -/
theorem skip_blockComment {text : List UInt8} (noEnd : ¬ [star, slash] <:+: text)
    (after : List UInt8) :
    skip (blockComment text ++ after) =
      if Even (starsAtEnd text) then skip after else skip (skipBlock after) := by
  have whole : blockComment text ++ after =
      slash :: star :: (text ++ star :: slash :: after) := by
    simp [blockComment]
  rw [whole, skip, if_pos rfl, skipComment, if_pos rfl, skipBlock_append noEnd]
  split_ifs <;> rfl

/-- A byte that is neither blank nor a slash is the first meaningful one. -/
theorem skip_meaningful {byte : UInt8} (meaningful : Meaningful byte) (rest : List UInt8) :
    skip (byte :: rest) = byte :: rest := by
  obtain ⟨notSlash, notSpace, notTab, notNewline⟩ := meaningful
  rw [skip, if_neg notSlash, if_neg (by tauto)]

/-- No mark is a blank or begins a comment. -/
theorem meaningful_of_mark {byte : UInt8} (isMark : byte ∈ marks) : Meaningful byte := by
  have all : ∀ byte ∈ marks, byte ≠ slash ∧ byte ≠ space ∧ byte ≠ tab ∧ byte ≠ newline := by
    decide +kernel
  exact all byte isMark

/-- No mark belongs to a number. -/
theorem not_inNumber_of_mark {byte : UInt8} (isMark : byte ∈ marks) : inNumber byte = false := by
  have all : ∀ byte ∈ marks, inNumber byte = false := by decide +kernel
  exact all byte isMark

/-- What belongs to a number is no blank and begins no comment. -/
theorem meaningful_of_inNumber {byte : UInt8} (inside : inNumber byte = true) :
    Meaningful byte := by
  refine ⟨?_, ?_, ?_, ?_⟩
  all_goals
    rintro rfl
    cases inside

/-- A quote is no blank and begins no comment. -/
theorem meaningful_quote : Meaningful quote := ⟨by decide, by decide, by decide, by decide⟩

/-- Pieces up to the first one with a meaningful byte are passed over. -/
theorem Piece.skip_text {piece : Piece} (closed : piece.Closed) :
    (∀ after, skip (piece.text ++ after) = skip after) ∨
      ∃ byte rest, Meaningful byte ∧ piece.text = byte :: rest := by
  cases piece with
  | blank byte isBlank =>
    left
    intro after
    have notSlash : byte ≠ slash := by rcases isBlank with rfl | rfl | rfl <;> decide
    rw [Piece.text, List.singleton_append, skip, if_neg notSlash, if_pos isBlank]
  | mark byte isMark =>
    exact Or.inr ⟨byte, [], meaningful_of_mark isMark, rfl⟩
  | digit byte inside =>
    exact Or.inr ⟨byte, [], meaningful_of_inNumber inside, rfl⟩
  | string parts =>
    exact Or.inr ⟨quote, parts.flatMap StringPart.text ++ [quote], meaningful_quote, rfl⟩
  | lineComment text oneLine => exact Or.inl (skip_lineComment oneLine)
  | blockComment text noEnd =>
    exact Or.inl fun after => (skip_blockComment noEnd after).trans (if_pos closed)

end RouteServer.Bencode.Json
