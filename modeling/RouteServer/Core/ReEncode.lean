import Mathlib.Data.List.MinMax
import RouteServer.Core.LabelSplice

/-!
# Re-encoding the first director of a label

A director can be written in another form of its scheme, which changes the width of the
label. One well-known scheme numbers the directors of its first form differently from
those of the others, so a director is adjusted when it leaves that form or enters it.

Words are natural numbers below the width. Whether a director fits the form is not
checked, only whether the form fits the label.
-/

namespace RouteServer.Splice

open Rust Encoding Labels

variable {width : Nat}

/-- The forms with the given widths, lengths of prefixes and prefixes. -/
def formsOf (fields : List (Nat × Nat × Nat)) : List EncodingSchemeForm :=
  fields.filterMap fun (bitCount, prefixLen, prefixBits) =>
    (EncodingSchemeForm.tryNew bitCount prefixLen prefixBits).toOption

/-- The forms of `schemes::V358`. -/
def v358Forms : List EncodingSchemeForm := formsOf [(3, 1, 1), (5, 2, 2), (8, 2, 0)]

/-- `schemes::V358`. -/
def v358 : EncodingScheme := ⟨v358Forms, by decide⟩

/-- `get_director`. -/
def getDirector (label : RoutingLabel width) (form : EncodingSchemeForm) :
    Outcome SpliceError Nat := do
  let aboveForm ← Outcome.checkedSub width form.bitCount
  let padding ← Outcome.checkedSub aboveForm form.prefixLen
  let shifted ← Outcome.checkedShl width label.bits padding
  Outcome.checkedShr width shifted (padding + form.prefixLen)

/-- `director_bit_length`. -/
def directorBitLength (dir : Nat) : Nat := (highestSetBit dir).getD 0 + 1

/-- `find_shortest_form`. -/
def findShortestForm (dir : Nat) (scheme : EncodingScheme) :
    Outcome SpliceError EncodingSchemeForm :=
  let wideEnough := scheme.forms.filter (fun form => directorBitLength dir ≤ form.bitCount)
  match wideEnough.argmin EncodingSchemeForm.bitCount with
  | some form => .ok form
  | none => .err .cannotFindForm

/-- The form that `re_encode` writes. -/
def desiredForm (dir : Nat) (scheme : EncodingScheme) :
    Option Nat → Outcome SpliceError EncodingSchemeForm
  | some num =>
    match scheme.forms[num]? with
    | some form => .ok form
    | none => .err .badArgument
  | none => findShortestForm dir scheme

/-- `is_358_zero_form`. -/
def is358ZeroForm (form : EncodingSchemeForm) : Bool := v358Forms[0]? = some form

/-- The special case of `re_encode` for `V358`. The form that replaces the first one for
the director `0b111` decides on the adjustment alone, as it is written all the same. -/
def adjustDirector (width : Nat) (scheme : EncodingScheme) (form desired : EncodingSchemeForm)
    (dir : Nat) : Outcome SpliceError Nat :=
  if scheme = v358 then do
    let toZeroForm := is358ZeroForm desired && dir != 0b111
    let dir ←
      if is358ZeroForm form then
        if dir = 0 then .err .cannotReencode else Outcome.checkedSub dir 1
      else .ok dir
    if toZeroForm then Outcome.checkedAdd width dir 1 else .ok dir
  else .ok dir

/-- The bits before the director, the director and the prefix of a form, put together. -/
def writeDirector (width : Nat) (desired : EncodingSchemeForm) (dir above : Nat) :
    Outcome SpliceError Nat := do
  let shifted ← Outcome.checkedShl width above desired.bitCount
  let shifted ← Outcome.checkedShl width (shifted ||| dir) desired.prefixLen
  return shifted ||| desired.prefixBits

/-- `rest_bitlen` of the bits before the director. -/
def restBitlen (above : Nat) : Nat :=
  match highestSetBit above with
  | none => 0
  | some len => len + 1

/-- `re_encode`. -/
def reEncode (label : RoutingLabel width) (scheme : EncodingScheme)
    (desiredFormNum : Option Nat) : Outcome SpliceError (RoutingLabel width) := do
  let (form, _) ← getEncodingForm label scheme
  let dir ← getDirector label form
  let desired ← desiredForm dir scheme desiredFormNum
  let dir ← adjustDirector width scheme form desired dir
  let above ← Outcome.checkedShr width label.bits (form.bitCount + form.prefixLen)
  if restBitlen above + desired.bitCount + desired.prefixLen > maxPayloadBits width then
    .err .labelTooLong
  else do
    let resultBits ← writeDirector width desired dir above
    match labelOfWord width resultBits with
    | some label => .ok label
    | none => .err (.routingLabelTryNewFailed resultBits)

example : reEncode (⟨0x15, by decide, by decide⟩ : RoutingLabel 64) v358 (some 2) =
    .ok ⟨0x404, by decide, by decide⟩ := by decide

end RouteServer.Splice
