import RouteServer.Bencode.Grammar

/-!
# One tree for each stream

No tree is spelled by a proper prefix of another one's bytes: a number ends at its
terminator, the content of a string has the length in front of it, and a container ends
at the first marker where an item or a key could start. So a stream has at most one
tree, the bare key included.
-/

namespace RouteServer.Bencode

open Rust

/-- A number ends at its terminator. -/
theorem Numeral.prefix_free {left right : Numeral} {terminator : UInt8}
    (ends : isAsciiDigit terminator = false) {leftRest rightRest : List UInt8}
    (same : left.digits ++ terminator :: leftRest = right.digits ++ terminator :: rightRest) :
    left = right ∧ leftRest = rightRest := by
  let reader : Decimal :=
    { intDigits with terminator := terminator, limit := max left.value right.value }
  rw [left.digits_eq, right.digits_eq] at same
  obtain ⟨first, others, leftSpelled, -, leftRead⟩ := decimal_cons left.value
  obtain ⟨second, remaining, rightSpelled, -, rightRead⟩ := decimal_cons right.value
  rw [leftSpelled, rightSpelled] at same
  obtain ⟨rfl, tails⟩ := List.cons.inj same
  have leftResult := (leftRead reader leftRest ends).trans (if_pos (le_max_left _ _))
  have rightResult := (rightRead reader rightRest ends).trans (if_pos (le_max_right _ _))
  have equal : (Outcome.ok (left.value, leftRest) : Outcome ParseError _) =
      .ok (right.value, rightRest) := by
    rw [← leftResult, ← rightResult]
    exact congrArg (readDecimal reader first 0) tails
  obtain ⟨values, rests⟩ := Prod.mk.inj (Outcome.ok.inj equal)
  exact ⟨Numeral.ext_value values, rests⟩

/-- A string starts with a digit. -/
theorem StringLiteral.bytes_cons (literal : StringLiteral) :
    ∃ first others, literal.bytes = first :: others ∧ isAsciiDigit first = true := by
  obtain ⟨first, others, spelled, isDigit⟩ := literal.length.digits_cons
  exact ⟨first, others ++ colon :: literal.content.bytes, by
    rw [StringLiteral.bytes, spelled, List.cons_append], isDigit⟩

/-- The content of a string has the length in front of it. -/
theorem StringLiteral.prefix_free {left right : StringLiteral} {leftRest rightRest : List UInt8}
    (same : left.bytes ++ leftRest = right.bytes ++ rightRest) :
    left = right ∧ leftRest = rightRest := by
  rw [StringLiteral.bytes, StringLiteral.bytes, List.append_assoc, List.append_assoc,
    List.cons_append, List.cons_append] at same
  obtain ⟨lengths, contents⟩ := Numeral.prefix_free rfl same
  have sizes : left.content.bytes.length = right.content.bytes.length := by
    rw [left.exact, right.exact, lengths]
  obtain ⟨contentSame, rests⟩ := List.append_inj contents sizes
  refine ⟨?_, rests⟩
  obtain ⟨leftLength, ⟨leftBytes, leftFits⟩, leftExact⟩ := left
  obtain ⟨rightLength, ⟨rightBytes, rightFits⟩, rightExact⟩ := right
  cases lengths
  cases contentSame
  rfl

/-- The sign and the digits of an integer are those that stand there.

Proof: by the signs of both; a sign is no digit, so they are the same, and then the numerals
are. -/
theorem IntegerLiteral.prefix_free {left right : IntegerLiteral}
    {leftRest rightRest : List UInt8}
    (same : left.bytes ++ leftRest = right.bytes ++ rightRest) :
    left = right ∧ leftRest = rightRest := by
  have notSign (numeral : Numeral) (rest digits : List UInt8) :
      minusSign :: rest ≠ numeral.digits ++ digits := by
    obtain ⟨first, others, spelled, isDigit⟩ := numeral.digits_cons
    intro equal
    rw [spelled, List.cons_append] at equal
    rw [← (List.cons.inj equal).1] at isDigit
    cases isDigit
  obtain ⟨leftNegative, leftMagnitude, leftNonzero, leftRange⟩ := left
  obtain ⟨rightNegative, rightMagnitude, rightNonzero, rightRange⟩ := right
  simp only [IntegerLiteral.bytes, List.cons_append, List.append_assoc, List.cons.injEq,
    true_and, List.nil_append] at same
  cases leftNegative with
  | true =>
    cases rightNegative with
    | true =>
      simp only [if_true, List.cons_append, List.nil_append, List.cons.injEq, true_and] at same
      obtain ⟨rfl, rests⟩ := Numeral.prefix_free rfl same
      exact ⟨rfl, rests⟩
    | false =>
      simp only [if_true, Bool.false_eq_true, if_false, List.cons_append, List.nil_append] at same
      exact absurd same (notSign rightMagnitude _ _)
  | false =>
    cases rightNegative with
    | true =>
      simp only [if_true, Bool.false_eq_true, if_false, List.cons_append, List.nil_append] at same
      exact absurd same.symm (notSign leftMagnitude _ _)
    | false =>
      simp only [Bool.false_eq_true, if_false, List.nil_append] at same
      obtain ⟨rfl, rests⟩ := Numeral.prefix_free rfl same
      exact ⟨rfl, rests⟩

/-- A key is not empty and starts no value and no end of a dictionary. -/
theorem Key.bytes_cons (key : Key) :
    ∃ first others, key.bytes = first :: others ∧ first ≠ letterE := by
  cases key with
  | literal spelling =>
    obtain ⟨first, others, spelled, isDigit⟩ := spelling.bytes_cons
    refine ⟨first, others, spelled, ?_⟩
    rintro rfl
    cases isDigit
  | bare => exact ⟨colon, [], rfl, by decide⟩

/-- A key with a length starts with a digit, the other one with the colon. -/
theorem Key.prefix_free {left right : Key} {leftRest rightRest : List UInt8}
    (same : left.bytes ++ leftRest = right.bytes ++ rightRest) :
    left = right ∧ leftRest = rightRest := by
  have notBare (spelling : StringLiteral) (rest others : List UInt8) :
      Key.bare.bytes ++ others ≠ spelling.bytes ++ rest := by
    obtain ⟨first, tail, spelled, isDigit⟩ := spelling.bytes_cons
    intro equal
    rw [spelled, Key.bytes, List.cons_append, List.cons_append] at equal
    rw [← (List.cons.inj equal).1] at isDigit
    cases isDigit
  cases left with
  | literal leftSpelling =>
    cases right with
    | literal rightSpelling =>
      obtain ⟨rfl, rests⟩ := StringLiteral.prefix_free same
      exact ⟨rfl, rests⟩
    | bare => exact absurd same.symm (notBare leftSpelling _ _)
  | bare =>
    cases right with
    | literal rightSpelling => exact absurd same (notBare rightSpelling _ _)
    | bare => exact ⟨rfl, (List.cons.inj same).2⟩

/-- The form of a value, by its first byte. -/
inductive Tree.Starts : Tree → UInt8 → Prop where
  | string (literal : StringLiteral) {first : UInt8} (isDigit : isAsciiDigit first = true) :
      Tree.Starts (.string literal) first
  | dict (entries : List (Key × Tree)) : Tree.Starts (.dict entries) letterD
  | integer (literal : IntegerLiteral) : Tree.Starts (.integer literal) letterI
  | list (items : List Tree) : Tree.Starts (.list items) letterL

/-- A value starts with the byte of its form. -/
theorem Tree.bytes_cons (tree : Tree) :
    ∃ first others, tree.bytes = first :: others ∧ tree.Starts first := by
  cases tree with
  | string literal =>
    obtain ⟨first, others, spelled, isDigit⟩ := literal.bytes_cons
    exact ⟨first, others, by rw [Tree.bytes, spelled], .string literal isDigit⟩
  | dict entries => exact ⟨letterD, _, by rw [Tree.bytes], .dict entries⟩
  | integer literal =>
    exact ⟨letterI, _, by rw [Tree.bytes, IntegerLiteral.bytes], .integer literal⟩
  | list items => exact ⟨letterL, _, by rw [Tree.bytes], .list items⟩

/-- No value starts with the end marker. -/
theorem Tree.Starts.ne_letterE {tree : Tree} {first : UInt8} (starts : tree.Starts first) :
    first ≠ letterE := by
  rintro rfl
  cases starts with
  | string _ isDigit => cases isDigit

/-- A list ends where no further item starts. -/
theorem itemsBytes_prefix_free {left right : List Tree} {leftRest rightRest : List UInt8}
    (each : ∀ item ∈ left, ∀ (other : Tree) (itemRest otherRest : List UInt8),
      item.bytes ++ itemRest = other.bytes ++ otherRest → item = other ∧ itemRest = otherRest)
    (same : itemsBytes left ++ letterE :: leftRest = itemsBytes right ++ letterE :: rightRest) :
    left = right ∧ leftRest = rightRest := by
  have notEnd (item : Tree) (items : List Tree) (rest others : List UInt8) :
      letterE :: others ≠ itemsBytes (item :: items) ++ rest := by
    obtain ⟨first, tail, spelled, starts⟩ := item.bytes_cons
    intro equal
    rw [itemsBytes, spelled, List.cons_append, List.cons_append] at equal
    exact starts.ne_letterE (List.cons.inj equal).1.symm
  induction left generalizing right with
  | nil =>
    cases right with
    | nil => exact ⟨rfl, (List.cons.inj same).2⟩
    | cons other others => exact absurd same (notEnd other others _ _)
  | cons item items inductionHypothesis =>
    cases right with
    | nil => exact absurd same.symm (notEnd item items _ _)
    | cons other others =>
      obtain ⟨itemUnique, othersUnique⟩ := List.forall_mem_cons.mp each
      rw [itemsBytes, itemsBytes, List.append_assoc, List.append_assoc] at same
      obtain ⟨rfl, following⟩ := itemUnique other _ _ same
      obtain ⟨rfl, rests⟩ := inductionHypothesis othersUnique following
      exact ⟨rfl, rests⟩

/-- A dictionary ends where no further key starts.

Proof: induction on the entries on the left. A key never starts like the end of a dictionary, so
both sides end together, and else the keys, the values and the rest agree in turn. -/
theorem entriesBytes_prefix_free {left right : List (Key × Tree)}
    {leftRest rightRest : List UInt8}
    (each : ∀ entry ∈ left, ∀ (other : Tree) (entryRest otherRest : List UInt8),
      entry.2.bytes ++ entryRest = other.bytes ++ otherRest →
        entry.2 = other ∧ entryRest = otherRest)
    (same : entriesBytes left ++ letterE :: leftRest =
      entriesBytes right ++ letterE :: rightRest) :
    left = right ∧ leftRest = rightRest := by
  have notEnd (entry : Key × Tree) (entries : List (Key × Tree)) (rest others : List UInt8) :
      letterE :: others ≠ entriesBytes (entry :: entries) ++ rest := by
    obtain ⟨key, value⟩ := entry
    obtain ⟨first, tail, spelled, notMarker⟩ := key.bytes_cons
    intro equal
    rw [entriesBytes, spelled, List.cons_append, List.cons_append] at equal
    exact notMarker (List.cons.inj equal).1.symm
  induction left generalizing right with
  | nil =>
    cases right with
    | nil => exact ⟨rfl, (List.cons.inj same).2⟩
    | cons other others => exact absurd same (notEnd other others _ _)
  | cons entry entries inductionHypothesis =>
    cases right with
    | nil => exact absurd same.symm (notEnd entry entries _ _)
    | cons other others =>
      obtain ⟨valueUnique, othersUnique⟩ := List.forall_mem_cons.mp each
      obtain ⟨key, value⟩ := entry
      obtain ⟨otherKey, otherValue⟩ := other
      simp only [entriesBytes, List.append_assoc] at same
      obtain ⟨rfl, values⟩ := Key.prefix_free same
      obtain ⟨valueSame, following⟩ := valueUnique otherValue _ _ values
      cases valueSame
      obtain ⟨rfl, rests⟩ := inductionHypothesis othersUnique following
      exact ⟨rfl, rests⟩

/-- Trees spelled by prefixes of one stream start with the same byte. -/
theorem Tree.start_alike {left right : Tree} {leftRest rightRest : List UInt8}
    (same : left.bytes ++ leftRest = right.bytes ++ rightRest) :
    ∃ first, left.Starts first ∧ right.Starts first := by
  obtain ⟨first, tail, leftSpelled, leftStarts⟩ := left.bytes_cons
  obtain ⟨second, others, rightSpelled, rightStarts⟩ := right.bytes_cons
  rw [leftSpelled, rightSpelled] at same
  obtain ⟨rfl, -⟩ := List.cons.inj same
  exact ⟨first, leftStarts, rightStarts⟩

/-- At most one tree is spelled by a prefix of a stream.

Proof: induction on the tree on the left. The first byte tells the kind of the other tree, and
then its contents are those of the first one. -/
theorem Tree.prefix_free (left right : Tree) (leftRest rightRest : List UInt8)
    (same : left.bytes ++ leftRest = right.bytes ++ rightRest) :
    left = right ∧ leftRest = rightRest := by
  induction left using Tree.tree_induction generalizing right leftRest rightRest with
  | string literal =>
    obtain ⟨first, leftStarts, rightStarts⟩ := Tree.start_alike same
    cases leftStarts with
    | string _ isDigit =>
      cases rightStarts with
      | string other _ =>
        obtain ⟨rfl, rests⟩ := StringLiteral.prefix_free same
        exact ⟨rfl, rests⟩
      | _ => cases isDigit
  | integer literal =>
    obtain ⟨first, leftStarts, rightStarts⟩ := Tree.start_alike same
    cases leftStarts
    cases rightStarts with
    | string _ isDigit => cases isDigit
    | integer other =>
      obtain ⟨rfl, rests⟩ := IntegerLiteral.prefix_free same
      exact ⟨rfl, rests⟩
  | list items inductionHypothesis =>
    obtain ⟨first, leftStarts, rightStarts⟩ := Tree.start_alike same
    cases leftStarts
    cases rightStarts with
    | string _ isDigit => cases isDigit
    | list others =>
      simp only [Tree.bytes, List.cons_append, List.append_assoc, List.nil_append,
        List.cons.injEq, true_and] at same
      obtain ⟨rfl, rests⟩ := itemsBytes_prefix_free inductionHypothesis same
      exact ⟨rfl, rests⟩
  | dict entries inductionHypothesis =>
    obtain ⟨first, leftStarts, rightStarts⟩ := Tree.start_alike same
    cases leftStarts
    cases rightStarts with
    | string _ isDigit => cases isDigit
    | dict others =>
      simp only [Tree.bytes, List.cons_append, List.append_assoc, List.nil_append,
        List.cons.injEq, true_and] at same
      obtain ⟨rfl, rests⟩ := entriesBytes_prefix_free inductionHypothesis same
      exact ⟨rfl, rests⟩

end RouteServer.Bencode
