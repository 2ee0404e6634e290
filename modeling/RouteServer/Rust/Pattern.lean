import Mathlib.Data.List.Basic
import RouteServer.Rust.Utf8

/-!
# Patterns of a fixed length

A regular expression without alternatives and with fixed counts only is a class of
characters for each place. Anchored at both ends it matches texts of its own length;
without anchors it is searched for in the text. Two patterns in a row match the parts of
one text.
-/

namespace Rust

/-- A class of characters for each place. -/
abbrev Pattern := List (Char → Bool)

namespace Pattern

/-- The pattern between `^` and `$`. -/
def isMatch : Pattern → Text → Bool
  | [], [] => true
  | accepts :: pattern, c :: text => accepts c && isMatch pattern text
  | _, _ => false

/-- The pattern without anchors: it matches some part of the text. -/
def isFound (pattern : Pattern) : Text → Bool
  | [] => isMatch pattern []
  | c :: text => isMatch pattern ((c :: text).take pattern.length) || isFound pattern text

/-- The empty pattern matches the empty text. -/
theorem isMatch_nil_iff (text : Text) : isMatch [] text = true ↔ text = [] := by
  cases text <;> simp [isMatch]

/-- A pattern takes one character and the rest takes the others. -/
theorem isMatch_cons_iff (accepts : Char → Bool) (pattern : Pattern) (text : Text) :
    isMatch (accepts :: pattern) text = true ↔
      ∃ c rest, text = c :: rest ∧ accepts c = true ∧ isMatch pattern rest = true := by
  cases text with
  | nil => simp [isMatch]
  | cons c rest =>
    rw [isMatch, Bool.and_eq_true]
    constructor
    · rintro ⟨accepted, matched⟩
      exact ⟨c, rest, rfl, accepted, matched⟩
    · rintro ⟨_, _, same, accepted, matched⟩
      cases same
      exact ⟨accepted, matched⟩

/-- A pattern takes one character for each of its places, by induction on it. -/
theorem length_of_isMatch {pattern : Pattern} {text : Text}
    (matched : isMatch pattern text = true) :
    text.length = pattern.length := by
  induction pattern generalizing text with
  | nil => exact congrArg List.length ((isMatch_nil_iff text).mp matched)
  | cons accepts pattern inductionHypothesis =>
    obtain ⟨c, rest, rfl, _, others⟩ := (isMatch_cons_iff ..).mp matched
    rw [List.length_cons, List.length_cons, inductionHypothesis others]

/-- Two patterns in a row match two parts of a text. -/
theorem isMatch_append_iff (first second : Pattern) (text : Text) :
    isMatch (first ++ second) text = true ↔ ∃ front behind, text = front ++ behind ∧
      isMatch first front = true ∧ isMatch second behind = true := by
  induction first generalizing text with
  | nil =>
    constructor
    · intro matched
      exact ⟨[], text, rfl, rfl, matched⟩
    · rintro ⟨front, behind, rfl, nothing, matched⟩
      rw [(isMatch_nil_iff front).mp nothing]
      exact matched
  | cons accepts first inductionHypothesis =>
    rw [List.cons_append, isMatch_cons_iff]
    constructor
    · rintro ⟨c, rest, rfl, accepted, matched⟩
      obtain ⟨front, behind, rfl, inFront, after⟩ := (inductionHypothesis rest).mp matched
      refine ⟨c :: front, behind, rfl, ?_, after⟩
      exact (isMatch_cons_iff ..).mpr ⟨c, front, rfl, accepted, inFront⟩
    · rintro ⟨front, behind, rfl, inFront, after⟩
      obtain ⟨c, rest, rfl, accepted, others⟩ := (isMatch_cons_iff ..).mp inFront
      refine ⟨c, rest ++ behind, rfl, accepted, ?_⟩
      exact (inductionHypothesis _).mpr ⟨rest, behind, rfl, others, after⟩

/-- One class at every place. -/
theorem isMatch_replicate_iff (count : Nat) (accepts : Char → Bool) (text : Text) :
    isMatch (List.replicate count accepts) text = true ↔
      text.length = count ∧ ∀ c ∈ text, accepts c = true := by
  induction count generalizing text with
  | zero =>
    rw [List.replicate_zero, isMatch_nil_iff, List.length_eq_zero_iff]
    constructor
    · rintro rfl
      exact ⟨rfl, fun c listed => absurd listed List.not_mem_nil⟩
    · exact fun both => both.1
  | succ count inductionHypothesis =>
    rw [List.replicate_succ, isMatch_cons_iff]
    constructor
    · rintro ⟨c, rest, rfl, accepted, matched⟩
      obtain ⟨sized, others⟩ := (inductionHypothesis rest).mp matched
      exact ⟨congrArg (· + 1) sized, List.forall_mem_cons.mpr ⟨accepted, others⟩⟩
    · rintro ⟨sized, accepted⟩
      cases text with
      | nil => cases sized
      | cons c rest =>
        obtain ⟨first, others⟩ := List.forall_mem_cons.mp accepted
        exact ⟨c, rest, rfl, first,
          (inductionHypothesis rest).mpr ⟨Nat.succ.inj sized, others⟩⟩

/-- One character that stands for itself. -/
theorem isMatch_literal_iff (mark : Char) (text : Text) :
    isMatch [(· == mark)] text = true ↔ text = [mark] := by
  rw [isMatch_cons_iff]
  constructor
  · rintro ⟨c, rest, rfl, accepted, nothing⟩
    rw [(isMatch_nil_iff rest).mp nothing, eq_of_beq accepted]
  · rintro rfl
    exact ⟨mark, [], rfl, beq_self_eq_true mark, rfl⟩

/-- A pattern in front of others, with a mark between them. -/
theorem isMatch_separated_iff (piece : Pattern) (mark : Char) (others : Pattern) (text : Text) :
    isMatch (piece ++ [(· == mark)] ++ others) text = true ↔ ∃ part behind,
      text = part ++ [mark] ++ behind ∧ isMatch piece part = true ∧
        isMatch others behind = true := by
  rw [isMatch_append_iff]
  constructor
  · rintro ⟨front, behind, rfl, marked, after⟩
    obtain ⟨part, separator, rfl, first, dot⟩ := (isMatch_append_iff ..).mp marked
    rw [(isMatch_literal_iff mark separator).mp dot]
    exact ⟨part, behind, rfl, first, after⟩
  · rintro ⟨part, behind, rfl, first, after⟩
    refine ⟨part ++ [mark], behind, rfl, ?_, after⟩
    exact (isMatch_append_iff ..).mpr
      ⟨part, [mark], rfl, first, (isMatch_literal_iff mark [mark]).mpr rfl⟩

/-- A pattern repeated with a mark between matches the parts it matches, with the mark
between them.

Proof: induction on the number of repetitions. One repetition is the part in front with its
mark, and the others match what is behind. -/
theorem isMatch_intercalate_iff (piece : Pattern) (mark : Char) (count : Nat) (text : Text) :
    isMatch ([(· == mark)].intercalate (List.replicate count piece)) text = true ↔
      ∃ parts : List Text, parts.length = count ∧ (∀ part ∈ parts, isMatch piece part = true) ∧
        text = [mark].intercalate parts := by
  induction count generalizing text with
  | zero =>
    rw [List.replicate_zero, List.intercalate_nil, isMatch_nil_iff]
    constructor
    · rintro rfl
      exact ⟨[], rfl, fun part listed => absurd listed List.not_mem_nil, rfl⟩
    · rintro ⟨parts, sized, _, rfl⟩
      rw [List.eq_nil_of_length_eq_zero sized]
      rfl
  | succ count inductionHypothesis =>
    cases count with
    | zero =>
      rw [List.replicate_one, List.intercalate_singleton]
      constructor
      · intro matched
        refine ⟨[text], rfl, ?_, List.intercalate_singleton.symm⟩
        intro part listed
        rwa [List.mem_singleton.mp listed]
      · rintro ⟨parts, sized, matched, rfl⟩
        obtain ⟨part, rfl⟩ := List.length_eq_one_iff.mp sized
        rw [List.intercalate_singleton]
        exact matched part (List.mem_singleton_self part)
    | succ count =>
      rw [List.replicate_succ (n := count + 1), List.replicate_succ (n := count),
        List.intercalate_cons_cons, ← List.replicate_succ, isMatch_separated_iff]
      constructor
      · rintro ⟨part, behind, rfl, first, after⟩
        obtain ⟨parts, sized, matched, rfl⟩ := (inductionHypothesis behind).mp after
        cases parts with
        | nil => cases sized
        | cons next parts =>
          refine ⟨part :: next :: parts, congrArg (· + 1) sized, ?_, ?_⟩
          · exact List.forall_mem_cons.mpr ⟨first, matched⟩
          · rw [List.intercalate_cons_cons]
      · rintro ⟨parts, sized, matched, rfl⟩
        cases parts with
        | nil => cases sized
        | cons part parts =>
          obtain ⟨first, others⟩ := List.forall_mem_cons.mp matched
          have shorter := Nat.succ.inj sized
          cases parts with
          | nil => cases shorter
          | cons next parts =>
            refine ⟨part, _, List.intercalate_cons_cons, first, ?_⟩
            exact (inductionHypothesis _).mpr ⟨next :: parts, shorter, others, rfl⟩

/-- A search finds a part of the text that the pattern matches. -/
theorem isFound_iff (pattern : Pattern) (text : Text) :
    isFound pattern text = true ↔ ∃ before part after,
      text = before ++ (part ++ after) ∧ isMatch pattern part = true := by
  induction text with
  | nil =>
    rw [isFound]
    constructor
    · intro matched
      exact ⟨[], [], [], rfl, matched⟩
    · rintro ⟨before, part, after, whole, matched⟩
      obtain ⟨_, inner⟩ := List.append_eq_nil_iff.mp whole.symm
      obtain ⟨rfl, _⟩ := List.append_eq_nil_iff.mp inner
      exact matched
  | cons c text inductionHypothesis =>
    rw [isFound, Bool.or_eq_true, inductionHypothesis]
    constructor
    · rintro (here | ⟨before, part, after, rfl, matched⟩)
      · exact ⟨[], _, _, (List.take_append_drop pattern.length (c :: text)).symm, here⟩
      · exact ⟨c :: before, part, after, rfl, matched⟩
    · rintro ⟨before, part, after, whole, matched⟩
      cases before with
      | nil =>
        rw [whole, List.nil_append, ← length_of_isMatch matched, List.take_left]
        exact .inl matched
      | cons _ before =>
        obtain ⟨_, rfl⟩ := List.cons.inj whole
        exact .inr ⟨before, part, after, rfl, matched⟩

end Pattern

end Rust
