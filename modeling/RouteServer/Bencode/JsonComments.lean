import RouteServer.Bencode.JsonPieces

/-!
# Comments in JSON texts

Two runs of the parser are compared on two texts that begin with the same pieces, such as a
text and the same text with a comment put in between two pieces. Both runs read the same
bytes until they come to the end of the pieces. If what is passed over there leaves the same
in both, they go on alike; if the first text has nothing left there, the comparison ends.

So a comment to the end of its line can be put anywhere, and one in a block wherever the
number of stars at the end of its text is even or the parser does not get that far. After an
odd number the end of the comment is not seen, and the text is passed over up to the end of
a later comment.
-/

namespace RouteServer.Bencode.Json

open Rust Outcome

/-- No number goes on across the place between two texts. -/
def Apart (before after : List UInt8) : Prop :=
  ∀ last, before.getLast? = some last → inNumber last = true → EndsNumber after

/-- A place behind a separated one is separated from the same text. -/
theorem apart_of_append (first : List UInt8) {before after : List UInt8}
    (apart : Apart (first ++ before) after) : Apart before after := by
  intro last found
  exact apart last (by rw [List.getLast?_append, found, Option.some_or])

/-- What is left to be read of two texts: the pieces that both have are still ahead, or what
is left is the same. -/
inductive Reached (first second : List UInt8) : List UInt8 → List UInt8 → Prop where
  | passed (text : List UInt8) : Reached first second text text
  | ahead (pieces : List Piece) (closed : ∀ piece ∈ pieces, piece.Closed)
      (apartFirst : Apart (textOf pieces) first) (apartSecond : Apart (textOf pieces) second) :
      Reached first second (textOf pieces ++ first) (textOf pieces ++ second)

/-- From the first meaningful byte on two texts are the same, or the first has none and what
a parser then reports ends the comparison. -/
def Comparable (lost : ParseError → Prop) (first second : List UInt8) : Prop :=
  skip first = skip second ∨ skip first = [] ∧ ∀ fault, RanOut fault → lost fault

variable {lost : ParseError → Prop} {first second left right : List UInt8}

/-- The first meaningful byte is the same, and what is left from it on is related again.

Proof: induction on the pieces ahead. A piece that is skipped on both sides leaves the pieces
behind it; a piece with a meaningful byte is where both sides stop. -/
theorem Reached.skip (comparable : Comparable lost first second)
    (reached : Reached first second left right) :
    (Json.skip left = [] ∧ ∀ fault, RanOut fault → lost fault) ∨
      (Json.skip left).head? = (Json.skip right).head? ∧
        Reached first second (Json.skip left) (Json.skip right) := by
  cases reached with
  | passed text => exact Or.inr ⟨rfl, .passed _⟩
  | ahead pieces closed apartFirst apartSecond =>
    induction pieces with
    | nil =>
      rcases comparable with same | ended
      · right
        have whole : Json.skip (textOf [] ++ first) = Json.skip (textOf [] ++ second) := same
        rw [whole]
        exact ⟨rfl, .passed _⟩
      · exact Or.inl ended
    | cons piece pieces inductionHypothesis =>
      obtain ⟨firstClosed, othersClosed⟩ := List.forall_mem_cons.mp closed
      have parts (rest : List UInt8) :
          textOf (piece :: pieces) ++ rest = piece.text ++ (textOf pieces ++ rest) := by
        rw [textOf_cons, List.append_assoc]
      rw [parts, parts]
      rcases Piece.skip_text firstClosed with skipped | ⟨byte, rest, meaningful, starts⟩
      · rw [skipped, skipped]
        exact inductionHypothesis othersClosed (apart_of_append piece.text apartFirst)
          (apart_of_append piece.text apartSecond)
      · have stays (more : List UInt8) : Json.skip (piece.text ++ more) = piece.text ++ more := by
          rw [starts]
          exact skip_meaningful meaningful _
        right
        rw [stays, stays, ← parts, ← parts]
        refine ⟨?_, .ahead _ closed apartFirst apartSecond⟩
        rw [parts, parts, starts]
        rfl

/-- What begins with a meaningful byte: what is left is the same, or the byte is a mark, the
start of a string or one of a number.

Proof: by what is left: the same text on both sides, or pieces, of which the first one is a
mark, a string or a digit. A comment begins with a slash, which the byte is not. -/
theorem Reached.cons_cases {byte : UInt8} (comparable : Comparable lost first second)
    (meaningful : Meaningful byte)
    (reached : Reached first second (byte :: left) (byte :: right)) :
    left = right ∨
      ∃ pieces, (∀ piece ∈ pieces, piece.Closed) ∧
        ((byte ∈ marks ∧ Apart (textOf pieces) first ∧ Apart (textOf pieces) second ∧
          left = textOf pieces ++ first ∧ right = textOf pieces ++ second) ∨
        (inNumber byte = true ∧ Apart (byte :: textOf pieces) first ∧
          Apart (byte :: textOf pieces) second ∧
          left = textOf pieces ++ first ∧ right = textOf pieces ++ second) ∨
        byte = quote ∧ Apart (textOf pieces) first ∧ Apart (textOf pieces) second ∧
          ∃ parts : List StringPart,
            left = parts.flatMap StringPart.text ++ quote :: (textOf pieces ++ first) ∧
            right = parts.flatMap StringPart.text ++ quote :: (textOf pieces ++ second)) := by
  have notBlank := meaningful
  obtain ⟨notSlash, notSpace, notTab, notNewline⟩ := notBlank
  generalize leftText : byte :: left = leftWhole at reached
  generalize rightText : byte :: right = rightWhole at reached
  cases reached with
  | passed text =>
    cases leftText
    cases rightText
    exact Or.inl rfl
  | ahead pieces closed apartFirst apartSecond =>
    cases pieces with
    | nil =>
      have firstText : first = byte :: left := leftText.symm
      have secondText : second = byte :: right := rightText.symm
      rw [Comparable, firstText, secondText, skip_meaningful meaningful,
        skip_meaningful meaningful] at comparable
      rcases comparable with same | ⟨nothing, -⟩
      · exact Or.inl (List.tail_eq_of_cons_eq same)
      · cases nothing
    | cons piece pieces =>
      right
      obtain ⟨-, othersClosed⟩ := List.forall_mem_cons.mp closed
      refine ⟨pieces, othersClosed, ?_⟩
      rw [textOf_cons] at leftText rightText apartFirst apartSecond
      have othersFirst := apart_of_append piece.text apartFirst
      have othersSecond := apart_of_append piece.text apartSecond
      cases piece with
      | blank other isBlank =>
        cases leftText
        tauto
      | mark other isMark =>
        cases leftText
        cases rightText
        exact Or.inl ⟨isMark, othersFirst, othersSecond, rfl, rfl⟩
      | digit other inside =>
        cases leftText
        cases rightText
        exact Or.inr (Or.inl ⟨inside, apartFirst, apartSecond, rfl, rfl⟩)
      | string parts =>
        rw [Piece.text, List.append_assoc, List.append_assoc, List.cons_append,
          List.cons_eq_cons] at leftText rightText
        exact Or.inr (Or.inr ⟨leftText.1, othersFirst, othersSecond, parts, leftText.2,
          rightText.2⟩)
      | lineComment text oneLine =>
        cases leftText
        exact absurd rfl notSlash
      | blockComment text noEnd =>
        cases leftText
        exact absurd rfl notSlash

/-- Two runs that have read the same and are left with related texts. -/
def Alike (first second : List UInt8) {α : Type} (here there : α × JsonParser) : Prop :=
  here.1 = there.1 ∧ Reached first second here.2.unread there.2.unread

/-- Two runs that have read the same and are left with the same. -/
def Same {α : Type} (first second : α × JsonParser) : Prop :=
  first.1 = second.1 ∧ first.2.unread = second.2.unread

/-- Two parsers that have the same bytes before them read the same digits. -/
theorem readTwoHexDigits_agree {left right : JsonParser} (same : left.unread = right.unread) :
    Agree lost Same (readTwoHexDigits left) (readTwoHexDigits right) := by
  rw [readTwoHexDigits, readTwoHexDigits, readByte_eq left, readByte_eq right, same]
  rcases right.unread with _ | ⟨first, _ | ⟨second, rest⟩⟩
  · exact agree_none rfl rfl
  · exact agree_none rfl rfl
  · dsimp only [readByte]
    split_ifs
    · exact agree_none rfl rfl
    · cases fromStrRadix16 first second with
      | none => exact agree_none rfl rfl
      | some hex => exact agree_ok ⟨rfl, rfl⟩

/-- A string is read from the text that is left, whatever the lines counted so far.

Proof: strong induction on the length of what is unread, along the equation of the loop. Both
sides read the same bytes and differ at most in the line they count. -/
theorem parseStringLoop_same (result : Bstr) {left right : JsonParser}
    (same : left.unread = right.unread) :
    Agree lost Same (parseStringLoop result left) (parseStringLoop result right) := by
  induction size : left.unread.length using Nat.strong_induction_on
    generalizing result left right with
  | h count inductionHypothesis =>
    rw [parseStringLoop_eq result left, parseStringLoop_eq result right, readByte_eq left,
      readByte_eq right, ← same]
    cases text : left.unread with
    | nil => exact agree_ok ⟨rfl, same⟩
    | cons byte rest =>
      have shorter : rest.length < count := by
        rw [← size, text]
        exact Nat.lt_succ_self _
      dsimp only
      split_ifs
      · exact agree_ok ⟨rfl, rfl⟩
      · cases rest with
        | nil => exact inductionHypothesis _ shorter result rfl rfl
        | cons escapedByte rest =>
          dsimp only [readByte]
          split_ifs
          · refine Agree.bind (readTwoHexDigits_agree rfl) ?_
            rintro ⟨hex, leftNext⟩ ⟨_, rightNext⟩ read - ⟨rfl, left⟩
            have less : leftNext.unread.length < count :=
              (readTwoHexDigits_size read).trans ((Nat.lt_succ_self _).trans shorter)
            apply Agree.bind (agree_self (pushByte result hex))
            rintro longer _ - - rfl
            exact inductionHypothesis _ less longer left rfl
          · exact agree_none rfl rfl
      · apply Agree.bind (agree_self (pushByte result byte))
        rintro longer _ - - rfl
        exact inductionHypothesis _ shorter longer rfl rfl

/-- A string is read up to its closing quote, whatever follows. -/
theorem parseStringLoop_parts (parts : List StringPart) (result : Bstr)
    {left right : JsonParser} {leftRest rightRest : List UInt8}
    (leftText : left.unread = parts.flatMap StringPart.text ++ quote :: leftRest)
    (rightText : right.unread = parts.flatMap StringPart.text ++ quote :: rightRest) :
    Agree lost (fun here there => here.1 = there.1 ∧ here.2.unread = leftRest ∧
        there.2.unread = rightRest)
      (parseStringLoop result left) (parseStringLoop result right) := by
  induction parts generalizing result left right with
  | nil =>
    rw [parseStringLoop_quote leftText, parseStringLoop_quote rightText]
    exact agree_ok ⟨rfl, rfl, rfl⟩
  | cons part parts inductionHypothesis =>
    rw [List.flatMap_cons, List.append_assoc] at leftText rightText
    cases part with
    | plain byte notQuote notBackslash =>
      rw [parseStringLoop_plain leftText notQuote notBackslash,
        parseStringLoop_plain rightText notQuote notBackslash]
      apply Agree.bind (agree_self (pushByte result byte))
      rintro longer _ - - rfl
      exact inductionHypothesis longer rfl rfl
    | escape first second hex isText digits =>
      rw [parseStringLoop_escape leftText isText digits,
        parseStringLoop_escape rightText isText digits]
      apply Agree.bind (agree_self (pushByte result hex))
      rintro longer _ - - rfl
      exact inductionHypothesis longer rfl rfl

/-- Results that are the same are alike with any comment behind them. -/
theorem Same.alike {α : Type} {here there : α × JsonParser} (same : Same here there) :
    Alike first second here there := by
  obtain ⟨equal, left⟩ := same
  refine ⟨equal, ?_⟩
  rw [left]
  exact .passed _

/-- A string is read alike in both texts. -/
theorem parseString_alike {left right : JsonParser} (comparable : Comparable lost first second)
    (reached : Reached first second (quote :: left.unread) (quote :: right.unread)) :
    Agree lost (Alike first second) (parseString left) (parseString right) := by
  obtain same | ⟨pieces, closed, kinds⟩ := reached.cons_cases comparable meaningful_quote
  · exact (parseStringLoop_same _ same).mono fun _ _ => Same.alike
  · obtain ⟨isMark, -⟩ | ⟨inside, -⟩ |
      ⟨-, apartFirst, apartSecond, parts, leftText, rightText⟩ := kinds
    · exact absurd isMark (by decide)
    · exact absurd inside (by decide)
    · refine (parseStringLoop_parts parts _ leftText rightText).mono ?_
      rintro here there ⟨equal, leftRest, rightRest⟩
      refine ⟨equal, ?_⟩
      rw [leftRest, rightRest]
      exact .ahead pieces closed apartFirst apartSecond

/-- Both numbers end here. -/
theorem collectNumber_ends (numStr : List UInt8) {left right : JsonParser}
    (leftEnds : EndsNumber left.unread) (rightEnds : EndsNumber right.unread)
    (reached : Reached first second left.unread right.unread) :
    Alike first second (collectNumber numStr left) (collectNumber numStr right) := by
  have outside {parser : JsonParser} (ends : EndsNumber parser.unread) :
      ∃ next, collectNumber numStr parser = (numStr, next) ∧ next.unread = parser.unread :=
    collectNumber_outside ends
  obtain ⟨leftNext, leftRead, leftRest⟩ := outside leftEnds
  obtain ⟨rightNext, rightRead, rightRest⟩ := outside rightEnds
  rw [leftRead, rightRead]
  refine ⟨rfl, ?_⟩
  rwa [leftRest, rightRest]

/-- The end of a text ends a number. -/
theorem endsNumber_nil : EndsNumber [] := by
  intro byte rest absent
  cases absent

/-- Two parsers that have the same bytes before them collect the same number. -/
theorem collectNumber_same (numStr : List UInt8) {left right : JsonParser}
    (same : left.unread = right.unread) :
    Alike first second (collectNumber numStr left) (collectNumber numStr right) := by
  induction text : left.unread generalizing numStr left right with
  | nil =>
    have ends : EndsNumber left.unread := text ▸ endsNumber_nil
    exact collectNumber_ends numStr ends (same ▸ ends) (same ▸ .passed _)
  | cons byte rest inductionHypothesis =>
    cases inside : inNumber byte with
    | true =>
      rw [collectNumber_inside text inside,
        collectNumber_inside (same.symm.trans text) inside]
      exact inductionHypothesis (numStr ++ [byte]) rfl rfl
    | false =>
      have ends : EndsNumber left.unread := text ▸ endsNumber_cons rest inside
      exact collectNumber_ends numStr ends (same ▸ ends) (same ▸ .passed _)

/-- A number goes on with a byte of its own and ends at every other piece. -/
theorem Piece.digit_or_ends (piece : Piece) :
    (∃ byte inside, piece = .digit byte inside) ∨ ∀ rest, EndsNumber (piece.text ++ rest) := by
  cases piece with
  | blank byte isBlank =>
    have outside : inNumber byte = false := by rcases isBlank with rfl | rfl | rfl <;> decide
    exact Or.inr fun rest => endsNumber_cons rest outside
  | mark byte isMark =>
    exact Or.inr fun rest => endsNumber_cons rest (not_inNumber_of_mark isMark)
  | digit byte inside => exact Or.inl ⟨byte, inside, rfl⟩
  | string parts => exact Or.inr fun rest => endsNumber_cons _ (by decide)
  | lineComment text oneLine => exact Or.inr fun rest => endsNumber_cons _ (by decide)
  | blockComment text noEnd => exact Or.inr fun rest => endsNumber_cons _ (by decide)

/-- A number is collected alike from the pieces that are left of it.

Proof: induction on the pieces. A digit goes on with the number on both sides; any other piece,
and the end of the pieces, ends it on both. -/
theorem collectNumber_alike (pieces : List Piece) (closed : ∀ piece ∈ pieces, piece.Closed)
    (numStr : List UInt8) {last : UInt8} (inside : inNumber last = true)
    (apartFirst : Apart (last :: textOf pieces) first)
    (apartSecond : Apart (last :: textOf pieces) second)
    {left right : JsonParser} (leftText : left.unread = textOf pieces ++ first)
    (rightText : right.unread = textOf pieces ++ second) :
    Alike first second (collectNumber numStr left) (collectNumber numStr right) := by
  induction pieces generalizing numStr last left right with
  | nil =>
    have leftEnds : EndsNumber left.unread := leftText ▸ apartFirst last rfl inside
    have rightEnds : EndsNumber right.unread := rightText ▸ apartSecond last rfl inside
    refine collectNumber_ends numStr leftEnds rightEnds ?_
    rw [leftText, rightText]
    exact .ahead [] closed (apart_of_append [last] apartFirst) (apart_of_append [last] apartSecond)
  | cons piece pieces inductionHypothesis =>
    obtain ⟨-, othersClosed⟩ := List.forall_mem_cons.mp closed
    have othersFirst : Apart (textOf (piece :: pieces)) first :=
      apart_of_append [last] apartFirst
    have othersSecond : Apart (textOf (piece :: pieces)) second :=
      apart_of_append [last] apartSecond
    obtain ⟨byte, goesOn, rfl⟩ | ends := piece.digit_or_ends
    · rw [collectNumber_inside leftText goesOn, collectNumber_inside rightText goesOn]
      exact inductionHypothesis othersClosed (numStr ++ [byte]) goesOn othersFirst othersSecond
        rfl rfl
    · have leftEnds : EndsNumber left.unread := by
        rw [leftText, textOf_cons, List.append_assoc]
        exact ends _
      have rightEnds : EndsNumber right.unread := by
        rw [rightText, textOf_cons, List.append_assoc]
        exact ends _
      refine collectNumber_ends numStr leftEnds rightEnds ?_
      rw [leftText, rightText]
      exact .ahead _ closed othersFirst othersSecond

/-- A number that begins with a byte is read alike in both texts. -/
theorem parseInt_alike {firstByte : UInt8} (inside : inNumber firstByte = true)
    {left right : JsonParser} (comparable : Comparable lost first second)
    (reached : Reached first second (firstByte :: left.unread) (firstByte :: right.unread)) :
    Agree lost (Alike first second) (parseInt firstByte left) (parseInt firstByte right) := by
  have collected : Alike first second (collectNumber [firstByte] left)
      (collectNumber [firstByte] right) := by
    obtain same | ⟨pieces, closed, kinds⟩ :=
      reached.cons_cases comparable (meaningful_of_inNumber inside)
    · exact collectNumber_same _ same
    · obtain ⟨isMark, -⟩ | ⟨-, apartFirst, apartSecond, leftText, rightText⟩ |
        ⟨isQuote, -⟩ := kinds
      · cases (not_inNumber_of_mark isMark).symm.trans inside
      · exact collectNumber_alike pieces closed _ inside apartFirst apartSecond leftText rightText
      · subst isQuote
        cases inside
  obtain ⟨same, reachedAfter⟩ := collected
  rw [parseInt, parseInt]
  dsimp only
  rw [same]
  cases parseI64 (collectNumber [firstByte] right).1 with
  | none => exact agree_none rfl rfl
  | some num => exact agree_ok ⟨rfl, reachedAfter⟩

/-- A mark is read in both texts. -/
theorem Reached.mark {byte : UInt8} (comparable : Comparable lost first second)
    (isMark : byte ∈ marks) (reached : Reached first second (byte :: left) (byte :: right)) :
    Reached first second left right := by
  obtain same | ⟨pieces, closed, kinds⟩ := reached.cons_cases comparable (meaningful_of_mark isMark)
  · rw [same]
    exact .passed _
  · have noQuote : quote ∉ marks := by decide
    obtain ⟨-, apartFirst, apartSecond, leftText, rightText⟩ | ⟨inside, -⟩ | ⟨isQuote, -⟩ := kinds
    · rw [leftText, rightText]
      exact .ahead pieces closed apartFirst apartSecond
    · cases (not_inNumber_of_mark isMark).symm.trans inside
    · exact absurd (isQuote ▸ isMark) noQuote

/-- The first meaningful byte is read alike in both texts. -/
theorem nextMeaningfulChar_alike (comparable : Comparable lost first second)
    {left right : JsonParser} (reached : Reached first second left.unread right.unread) :
    Agree lost (fun here there => here.1 = there.1 ∧
        Reached first second (here.1 :: here.2.unread) (here.1 :: there.2.unread))
      (nextMeaningfulChar left) (nextMeaningfulChar right) := by
  rcases reached.skip comparable with ⟨nothing, loses⟩ | ⟨same, reachedHead⟩
  · obtain ⟨fault, ranOut, failed⟩ := nextMeaningfulChar_ranOut nothing
    exact agree_lost (loses fault ranOut) failed _
  · refine (nextMeaningfulChar_agree same).mono ?_
    rintro here there ⟨equal, leftSkip, rightSkip⟩
    rw [leftSkip, rightSkip, ← equal] at reachedHead
    exact ⟨equal, reachedHead⟩

/-- The value of an entry is found in both texts. -/
theorem expectValue_alike (comparable : Comparable lost first second) (laxMode needColon : Bool)
    {left right : JsonParser} (reached : Reached first second left.unread right.unread) :
    Agree lost (fun here there => Reached first second here.unread there.unread)
      (expectValue laxMode needColon left) (expectValue laxMode needColon right) := by
  induction size : left.size using Nat.strong_induction_on
    generalizing needColon left right with
  | h count inductionHypothesis =>
    rw [expectValue_eq laxMode needColon left, expectValue_eq laxMode needColon right]
    apply Agree.bind (nextMeaningfulChar_alike comparable reached)
    rintro ⟨byte, leftNext⟩ ⟨_, rightNext⟩ leftRead rightRead ⟨rfl, reachedNext⟩
    dsimp only at reachedNext ⊢
    split_ifs with _ isColon
    · exact agree_none rfl rfl
    · exact agree_none rfl rfl
    · have shorter : leftNext.size < count := size ▸ nextMeaningfulChar_size leftRead
      subst isColon
      exact inductionHypothesis _ shorter false (reachedNext.mark comparable (by decide)) rfl
    · refine agree_ok ?_
      rwa [putBack_unread leftRead, putBack_unread rightRead]
    · exact agree_none rfl rfl

/-- Containers of fewer bytes are read alike in both texts. -/
structure ContainersAlike (lost : ParseError → Prop) (first second : List UInt8)
    (laxMode : Bool) (count : Nat) : Prop where
  dict : ∀ needComma entries (left right : JsonParser), left.size < count →
    Reached first second left.unread right.unread →
    Agree lost (Alike first second) (contents (parseDict laxMode needComma entries left))
      (contents (parseDict laxMode needComma entries right))
  list : ∀ needComma items (left right : JsonParser), left.size < count →
    Reached first second left.unread right.unread →
    Agree lost (Alike first second) (contents (parseList laxMode needComma items left))
      (contents (parseList laxMode needComma items right))

variable {laxMode : Bool} {count : Nat}

/-- A value is read alike if the containers in it are.

Proof: both sides read the same first meaningful byte, and so take the same branch of the
equation of the parser. -/
theorem ContainersAlike.parse (comparable : Comparable lost first second)
    (containers : ContainersAlike lost first second laxMode count) {left right : JsonParser}
    (size : left.size ≤ count) (reached : Reached first second left.unread right.unread) :
    Agree lost (Alike first second) (contents (left.parse laxMode))
      (contents (right.parse laxMode)) := by
  rw [parse_eq, parse_eq]
  apply Agree.bind (nextMeaningfulChar_alike comparable reached)
  rintro ⟨byte, leftNext⟩ ⟨_, rightNext⟩ leftRead rightRead ⟨rfl, reachedNext⟩
  have shorter : leftNext.size < count := (nextMeaningfulChar_size leftRead).trans_le size
  dsimp only at reachedNext ⊢
  split_ifs with isBrace isBracket isQuote inside
  · subst isBrace
    have reachedInside := reachedNext.mark comparable (by decide)
    apply Agree.bind (containers.dict false [] _ _ shorter reachedInside)
    rintro ⟨entries, leftAfter⟩ ⟨_, rightAfter⟩ - - ⟨rfl, reachedAfter⟩
    exact agree_ok ⟨rfl, reachedAfter⟩
  · subst isBracket
    have reachedInside := reachedNext.mark comparable (by decide)
    apply Agree.bind (containers.list false [] _ _ shorter reachedInside)
    rintro ⟨items, leftAfter⟩ ⟨_, rightAfter⟩ - - ⟨rfl, reachedAfter⟩
    exact agree_ok ⟨rfl, reachedAfter⟩
  · subst isQuote
    apply Agree.bind (parseString_alike comparable reachedNext)
    rintro ⟨content, leftAfter⟩ ⟨_, rightAfter⟩ - - ⟨rfl, reachedAfter⟩
    exact agree_ok ⟨rfl, reachedAfter⟩
  · apply Agree.bind (parseInt_alike inside comparable reachedNext)
    rintro ⟨number, leftAfter⟩ ⟨_, rightAfter⟩ - - ⟨rfl, reachedAfter⟩
    exact agree_ok ⟨rfl, reachedAfter⟩
  · exact agree_none rfl rfl

/-- A dictionary is read alike if the values and the rest of it are.

Proof: both sides read the same first meaningful byte, and so take the same branch of the
equation of the loop. Key, colon and value are read alike one after the other, and what is left
is shorter for the rest of the dictionary. -/
theorem ContainersAlike.parseDict (comparable : Comparable lost first second)
    (containers : ContainersAlike lost first second laxMode count) (needComma : Bool)
    (entries : List (Bstr × Object)) {left right : JsonParser} (size : left.size ≤ count)
    (reached : Reached first second left.unread right.unread) :
    Agree lost (Alike first second) (contents (Json.parseDict laxMode needComma entries left))
      (contents (Json.parseDict laxMode needComma entries right)) := by
  rw [parseDict_eq, parseDict_eq]
  apply Agree.bind (nextMeaningfulChar_alike comparable reached)
  rintro ⟨byte, leftNext⟩ ⟨_, rightNext⟩ leftRead rightRead ⟨rfl, reachedNext⟩
  have shorter : leftNext.size < count := (nextMeaningfulChar_size leftRead).trans_le size
  dsimp only at reachedNext ⊢
  split_ifs with _ isBrace _ isQuote isComma
  · exact agree_none rfl rfl
  · exact agree_none rfl rfl
  · subst isBrace
    exact agree_ok ⟨rfl, reachedNext.mark comparable (by decide)⟩
  · subst isQuote
    apply Agree.bind (parseString_alike comparable reachedNext)
    rintro ⟨key, leftKey⟩ ⟨_, rightKey⟩ keyRead - ⟨rfl, reachedKey⟩
    apply Agree.bind (expectValue_alike comparable laxMode true reachedKey)
    rintro leftValue rightValue valueFound - reachedValue
    have atValue : leftValue.size < count :=
      (expectValue_size valueFound).trans_lt ((parseString_size keyRead).trans_lt shorter)
    apply Agree.bind (containers.parse comparable atValue.le reachedValue)
    rintro ⟨value, leftAfter⟩ ⟨_, rightAfter⟩ valueRead - ⟨rfl, reachedAfter⟩
    have afterValue : leftAfter.size < count := (contents_size valueRead).trans atValue
    exact containers.dict true _ _ _ afterValue reachedAfter
  · exact agree_none rfl rfl
  · subst isComma
    exact containers.dict false _ _ _ shorter (reachedNext.mark comparable (by decide))
  · exact agree_none rfl rfl

/-- A list is read alike if the items and the rest of it are.

Proof: both sides read the same first meaningful byte, and so take the same branch of the
equation of the loop. The byte that starts an item is put back, the item is read alike, and what
is left is shorter for the rest of the list. -/
theorem ContainersAlike.parseList (comparable : Comparable lost first second)
    (containers : ContainersAlike lost first second laxMode count) (needComma : Bool)
    (items : List Object) {left right : JsonParser} (size : left.size ≤ count)
    (reached : Reached first second left.unread right.unread) :
    Agree lost (Alike first second) (contents (Json.parseList laxMode needComma items left))
      (contents (Json.parseList laxMode needComma items right)) := by
  rw [parseList_eq, parseList_eq]
  apply Agree.bind (nextMeaningfulChar_alike comparable reached)
  rintro ⟨byte, leftNext⟩ ⟨_, rightNext⟩ leftRead rightRead ⟨rfl, reachedNext⟩
  have shorter : leftNext.size < count := (nextMeaningfulChar_size leftRead).trans_le size
  dsimp only at reachedNext ⊢
  split_ifs with _ isBracket _ isComma
  · exact agree_none rfl rfl
  · exact agree_none rfl rfl
  · subst isBracket
    exact agree_ok ⟨rfl, reachedNext.mark comparable (by decide)⟩
  · exact agree_none rfl rfl
  · subst isComma
    exact containers.list false _ _ _ shorter (reachedNext.mark comparable (by decide))
  · have putBack := putBack_size leftRead
    have reachedItem : Reached first second
        ({ leftNext with lastChr := some byte } : JsonParser).unread
        ({ rightNext with lastChr := some byte } : JsonParser).unread := by
      rwa [putBack_unread leftRead, putBack_unread rightRead]
    apply Agree.bind (containers.parse comparable (putBack.trans size) reachedItem)
    rintro ⟨item, leftAfter⟩ ⟨_, rightAfter⟩ itemRead - ⟨rfl, reachedAfter⟩
    have afterItem : leftAfter.size < count :=
      (contents_size itemRead).trans_le (putBack.trans size)
    exact containers.list true _ _ _ afterItem reachedAfter
  · exact agree_none rfl rfl

/-- Dictionaries and lists are read alike whatever is left, by induction on how much that is: an
item is read from less. -/
theorem containersAlike (comparable : Comparable lost first second) (laxMode : Bool) (count : Nat) :
    ContainersAlike lost first second laxMode count := by
  induction count with
  | zero =>
    refine ⟨?_, ?_⟩
    all_goals
      intro _ _ left right size
      exact absurd size (Nat.not_lt_zero _)
  | succ count inductionHypothesis =>
    refine ⟨?_, ?_⟩
    · intro needComma entries left right size reached
      exact inductionHypothesis.parseDict comparable needComma entries (Nat.le_of_lt_succ size)
        reached
    · intro needComma items left right size reached
      exact inductionHypothesis.parseList comparable needComma items (Nat.le_of_lt_succ size)
        reached

/-- Texts with the same pieces in front are read alike as a whole. -/
theorem parse_alike (comparable : Comparable lost first second) (laxMode : Bool)
    (reached : Reached first second left right) :
    Agree lost Eq (Json.parse left laxMode) (Json.parse right laxMode) := by
  have alike : Agree lost (Alike first second)
      (contents ((JsonParser.new left).parse laxMode))
      (contents ((JsonParser.new right).parse laxMode)) :=
    (containersAlike comparable laxMode _).parse comparable (Nat.le_refl _) reached
  apply Agree.bind alike
  rintro ⟨object, leftAfter⟩ ⟨_, rightAfter⟩ - - ⟨rfl, -⟩
  exact agree_ok rfl

/-- What is passed over behind some pieces does not matter. -/
theorem parse_passedOver (laxMode : Bool) {pieces : List Piece}
    (closed : ∀ piece ∈ pieces, piece.Closed) (same : skip first = skip second)
    (apartFirst : Apart (textOf pieces) first) (apartSecond : Apart (textOf pieces) second) :
    (Json.parse (textOf pieces ++ first) laxMode).toOption =
      (Json.parse (textOf pieces ++ second) laxMode).toOption := by
  have comparable : Comparable (fun _ => False) first second := Or.inl same
  have alike := parse_alike comparable laxMode (.ahead pieces closed apartFirst apartSecond)
  exact alike.toOption_eq fun _ _ => id

/-- The parser comes to the end of a text and needs more. -/
def RunsOut (laxMode : Bool) (text : List UInt8) : Prop :=
  ∃ fault, Json.parse text laxMode = .err fault ∧ RanOut fault

/-- What follows pieces in which the parser stops does not matter. -/
theorem parse_stopped {laxMode : Bool} {pieces : List Piece}
    (closed : ∀ piece ∈ pieces, piece.Closed) (stops : ¬ RunsOut laxMode (textOf pieces))
    (apart : Apart (textOf pieces) right) :
    (Json.parse (textOf pieces ++ right) laxMode).toOption =
      (Json.parse (textOf pieces) laxMode).toOption := by
  have ended : Comparable RanOut [] right := Or.inr ⟨by rw [skip], fun _ => id⟩
  have alike := parse_alike ended laxMode
    (.ahead pieces closed (fun _ _ _ => endsNumber_nil) apart)
  rw [List.append_nil] at alike
  exact (alike.toOption_eq fun fault failed ranOut => stops ⟨fault, failed, ranOut⟩).symm

/-- A comment: to the end of its line, or in a block. -/
inductive Comment where
  | line (text : List UInt8) (oneLine : newline ∉ text)
  | block (text : List UInt8) (noEnd : ¬ [star, slash] <:+: text)

/-- The bytes of a comment. -/
def Comment.bytes : Comment → List UInt8
  | line text _ => lineComment text
  | block text _ => blockComment text

/-- The end of a comment is seen, or what is passed over with it up to the end of a later
comment is not meaningful. -/
def Comment.Seen (after : List UInt8) : Comment → Prop
  | line _ _ => True
  | block text _ => Even (starsAtEnd text) ∨ skip (skipBlock after) = skip after

/-- A comment begins with a slash, so a number ends before it. -/
theorem Comment.endsNumber (comment : Comment) (rest : List UInt8) :
    EndsNumber (comment.bytes ++ rest) := by
  cases comment with
  | line text oneLine => exact endsNumber_cons _ (by decide)
  | block text noEnd => exact endsNumber_cons _ (by decide)

/-- A comment whose end is seen is passed over. -/
theorem Comment.Seen.skip_eq {comment : Comment} {after : List UInt8}
    (seen : comment.Seen after) : skip (comment.bytes ++ after) = skip after := by
  cases comment with
  | line text oneLine => exact skip_lineComment oneLine after
  | block text noEnd =>
    rw [Comment.bytes, skip_blockComment noEnd]
    split
    · rfl
    · next odd => exact seen.resolve_left odd

/-- A comment between pieces and a text does no harm: the parser passes over it, as over the
comments in front, or it stops in the pieces in front of it. -/
inductive Harmless (laxMode : Bool) (before : List Piece) (comment : Comment)
    (after : List UInt8) : Prop where
  | passed (closed : ∀ piece ∈ before, piece.Closed) (seen : comment.Seen after)
  | unreached (start more : List Piece) (split : before = start ++ more)
      (closed : ∀ piece ∈ start, piece.Closed) (apart : Apart (textOf start) (textOf more ++ after))
      (stops : ¬ RunsOut laxMode (textOf start))

/-- A number that does not go on in a text does not go on with a comment put into the text. -/
theorem Apart.comment {before middle after : List UInt8} (apart : Apart before (middle ++ after))
    (comment : Comment) : Apart before (middle ++ (comment.bytes ++ after)) := by
  intro last found inside
  cases middle with
  | nil => exact comment.endsNumber after
  | cons byte rest => exact endsNumber_cons _ (apart last found inside byte _ rfl)

/-- A list begins with its bracket. -/
theorem parse_openBracket (rest : List UInt8) :
    Json.parse (openBracket :: rest) false = (do
      let (items, _) ← contents (parseList false false [] ⟨rest, 1, none⟩)
      .ok (.list items)) := by
  have bracketRead : nextMeaningfulChar (JsonParser.new (openBracket :: rest)) =
      .ok (openBracket, ⟨rest, 1, none⟩) :=
    nextMeaningfulChar_meaningful (meaningful_of_mark (by decide)) rfl
  rw [Json.parse, parse_eq, bracketRead, Outcome.ok_bind]
  dsimp only
  rw [if_neg (by decide), if_pos rfl]
  cases contents (parseList false false [] ⟨rest, 1, none⟩) <;> rfl

/-- The empty list is read. -/
theorem parse_emptyList :
    (Json.parse [openBracket, closeBracket] false).toOption = some (.list []) := by
  have bracketRead : nextMeaningfulChar ⟨[closeBracket], 1, none⟩ =
      .ok (closeBracket, ⟨[], 1, none⟩) :=
    nextMeaningfulChar_meaningful (meaningful_of_mark (by decide)) rfl
  rw [parse_openBracket, parseList_eq, bracketRead]
  rfl

/-- An end of a list is not found if nothing meaningful is left. -/
theorem parse_unclosed {rest : List UInt8} (nothing : Json.skip rest = []) :
    (Json.parse (openBracket :: rest) false).toOption = none := by
  have missing := (skip_eq ⟨rest, 1, none⟩).symm.trans nothing
  rw [parse_openBracket, parseList_eq]
  cases read : nextMeaningfulChar ⟨rest, 1, none⟩ with
  | ok found =>
    rw [read] at missing
    cases missing
  | err fault => rfl
  | panicked => rfl

/-- After an odd number of stars a comment takes the end of the list with it. -/
theorem skip_swallowed {text : List UInt8} (noEnd : ¬ [star, slash] <:+: text)
    (odd : ¬ Even (starsAtEnd text)) : Json.skip (blockComment text ++ [closeBracket]) = [] := by
  rw [skip_blockComment noEnd, if_neg odd, skipBlock, Json.skip]
  intro byte following rest
  simp

/-- A comment at a place of a configuration changes nothing if the parser sees its end, and the
ends of those in front, or does not come to it.

Proof: both texts are scanned alike up to the comment. Where the parser comes to it and sees its
end, what follows is the same again; where it stops before, the rest does not matter. -/
theorem comments_transparent (laxMode : Bool) (before : List Piece) (comment : Comment)
    (after : List UInt8) (between : Apart (textOf before) after)
    (harmless : Harmless laxMode before comment after) :
    (Json.parse (textOf before ++ comment.bytes ++ after) laxMode).toOption =
      (Json.parse (textOf before ++ after) laxMode).toOption := by
  rw [List.append_assoc]
  cases harmless with
  | passed closed seen =>
    exact parse_passedOver laxMode closed seen.skip_eq (fun _ _ _ => comment.endsNumber after)
      between
  | unreached start more split closed apart stops =>
    have whole (rest : List UInt8) :
        textOf before ++ rest = textOf start ++ (textOf more ++ rest) := by
      rw [split, textOf, List.flatMap_append, List.append_assoc]
      rfl
    rw [whole, whole, parse_stopped closed stops apart,
      parse_stopped closed stops (apart.comment comment)]

/-- Behind a list that is complete the comment of three stars is not looked at. -/
theorem stars_behind_list :
    (Json.parse ([openBracket, closeBracket] ++ blockComment [star]) false).toOption =
      (Json.parse [openBracket, closeBracket] false).toOption := by
  let before : List Piece := [.mark openBracket (by decide), .mark closeBracket (by decide)]
  let comment : Comment := .block [star] (by decide)
  have stops : ¬ RunsOut false (textOf before) := by
    rintro ⟨fault, failed, -⟩
    have found := parse_emptyList
    rw [show [openBracket, closeBracket] = textOf before from rfl, failed] at found
    cases found
  have closed : ∀ piece ∈ before, piece.Closed := by simp [before, Piece.Closed]
  have ends : Apart (textOf before) [] := fun _ _ _ => endsNumber_nil
  have unreached : Harmless false before comment [] := .unreached before [] rfl closed ends stops
  exact comments_transparent false before comment [] ends unreached

/-- A block comment with an odd number of stars at its end takes the text with it up to the
end of a later comment, as if a blank stood for all of it. -/
theorem odd_stars_swallow (laxMode : Bool) {before : List Piece} {c : List UInt8}
    (noEnd : ¬ [star, slash] <:+: c) (odd : ¬ Even (starsAtEnd c)) (after : List UInt8)
    (closed : ∀ piece ∈ before, piece.Closed) :
    (Json.parse (textOf before ++ (blockComment c ++ after)) laxMode).toOption =
      (Json.parse (textOf before ++ (space :: skipBlock after)) laxMode).toOption := by
  have blank : skip (space :: skipBlock after) = skip (skipBlock after) := by
    rw [skip, if_neg (by decide), if_pos (by decide)]
  apply parse_passedOver laxMode closed
  · rw [skip_blockComment noEnd, if_neg odd, blank]
  · exact fun _ _ _ => endsNumber_cons _ (by decide)
  · exact fun _ _ _ => endsNumber_cons _ (by decide)

/-- The comment of three stars between two slashes, in an empty list. -/
theorem star_swallows :
    ¬ [star, slash] <:+: [star] ∧
      (Json.parse [openBracket, closeBracket] false).toOption = some (.list []) ∧
      (Json.parse (openBracket :: (blockComment [star] ++ [closeBracket])) false).toOption =
        none := by
  have noEnd : ¬ [star, slash] <:+: [star] := by decide
  exact ⟨noEnd, parse_emptyList, parse_unclosed (skip_swallowed noEnd (by decide))⟩

end RouteServer.Bencode.Json
