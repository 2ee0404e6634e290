import Mathlib.Data.Nat.Size
import RouteServer.Core.BuildLabel
import RouteServer.Core.OneHop
import RouteServer.Rust.Checked

/-!
# Label arithmetic without overflow

The functions on labels once more, with every check that their arithmetic makes: sums of
`u8`, `u32` and `usize`, shifts by less than the word, indices, assertions. Forms take at
most 59 bits, and a highest set bit is below the width, so that all amounts of shifts stay
below 64 and all sums are small. None of the checks fails for labels of 64 or 128 bits.
-/

namespace RouteServer.Splice

open Rust Rust.Outcome Encoding Labels

variable {width : Nat}

/-- `leading_zeros`. -/
def leadingZeros (width bits : Nat) : Nat := width - Nat.size bits

/-- `highest_set_bit`. -/
def highestSetBitChecked (width bits : Nat) : Outcome SpliceError (Option Nat) :=
  if bits = 0 then .ok none
  else do
    let top ← checkedSub width 1
    let index ← checkedSub top (leadingZeros width bits)
    return some index

/-- `label_highest_set_bit`. -/
def labelHighestSetBitChecked (label : RoutingLabel width) : Outcome SpliceError Nat := do
  match ← highestSetBitChecked width label.bits with
  | some index => .ok index
  | none => .panicked

/-- The loop of `get_encoding_form`. -/
def findFormChecked (bits : Nat) :
    Nat → List EncodingSchemeForm → Outcome SpliceError (EncodingSchemeForm × Nat)
  | _, [] => .err .cannotFindForm
  | index, form :: rest =>
    if form.prefixLen = 0 then .ok (form, index)
    else do
      Outcome.assert (decide (form.prefixLen < 32))
      let bit ← checkedShl 32 1 form.prefixLen
      let mask ← checkedSub bit 1
      if bits &&& mask = form.prefixBits then return (form, index)
      else findFormChecked bits (index + 1) rest

/-- `get_encoding_form`. -/
def getEncodingFormChecked (label : RoutingLabel width) (scheme : EncodingScheme) :
    Outcome SpliceError (EncodingSchemeForm × Nat) := do
  Outcome.assert (decide (scheme.forms.length < 256))
  findFormChecked label.bits 0 scheme.forms

/-- `get_director`. -/
def getDirectorChecked (label : RoutingLabel width) (form : EncodingSchemeForm) :
    Outcome SpliceError Nat := do
  let aboveForm ← checkedSub width form.bitCount
  let padding ← checkedSub aboveForm form.prefixLen
  let shifted ← checkedShl width label.bits padding
  let count ← checkedAdd 32 padding form.prefixLen
  checkedShr width shifted count

/-- `director_bit_length`. -/
def directorBitLengthChecked (width dir : Nat) : Outcome SpliceError Nat := do
  let highest ← highestSetBitChecked width dir
  checkedAdd 32 (highest.getD 0) 1

/-- `find_shortest_form`. -/
def findShortestFormChecked (width dir : Nat) (scheme : EncodingScheme) :
    Outcome SpliceError EncodingSchemeForm := do
  let dirBits ← directorBitLengthChecked width dir
  match (scheme.forms.filter (fun form => dirBits ≤ form.bitCount)).argmin
      EncodingSchemeForm.bitCount with
  | some form => .ok form
  | none => .err .cannotFindForm

/-- The form that `re_encode` writes. -/
def desiredFormChecked (width dir : Nat) (scheme : EncodingScheme) :
    Option Nat → Outcome SpliceError EncodingSchemeForm
  | some num =>
    match scheme.forms[num]? with
    | some form => .ok form
    | none => .err .badArgument
  | none => findShortestFormChecked width dir scheme

/-- `rest_bitlen` of the bits before the director. -/
def restBitlenChecked (width above : Nat) : Outcome SpliceError Nat := do
  match ← highestSetBitChecked width above with
  | none => .ok 0
  | some len => checkedAdd 32 len 1

/-- `re_encode`. -/
def reEncodeChecked (label : RoutingLabel width) (scheme : EncodingScheme)
    (desiredFormNum : Option Nat) : Outcome SpliceError (RoutingLabel width) := do
  let (form, _) ← getEncodingFormChecked label scheme
  let dir ← getDirectorChecked label form
  let desired ← desiredFormChecked width dir scheme desiredFormNum
  let dir ← adjustDirector width scheme form desired dir
  let formBits ← checkedAdd 32 form.bitCount form.prefixLen
  let above ← checkedShr width label.bits formBits
  let restBitlen ← restBitlenChecked width above
  let withDirector ← checkedAdd 32 restBitlen desired.bitCount
  let usedBits ← checkedAdd 32 withDirector desired.prefixLen
  if usedBits > maxPayloadBits width then .err .labelTooLong
  else do
    let resultBits ← writeDirector width desired dir above
    match labelOfWord width resultBits with
    | some label => .ok label
    | none => .err (.routingLabelTryNewFailed resultBits)

/-- `is_one_hop`. -/
def isOneHopChecked (label : RoutingLabel width) (scheme : EncodingScheme) :
    Outcome SpliceError Bool := do
  let (labelForm, _) ← getEncodingFormChecked label scheme
  let formBits ← checkedAdd 8 labelForm.bitCount labelForm.prefixLen
  let highest ← labelHighestSetBitChecked label
  return highest = formBits

/-- The loop of `splice`. -/
def spliceLoopChecked (resultBits : Nat) :
    List (RoutingLabel width) → Outcome SpliceError Nat
  | [] => .ok resultBits
  | addon :: labels => do
    let addonBitlen ← labelHighestSetBitChecked addon
    match ← highestSetBitChecked width resultBits with
    | none => .panicked
    | some resultHsb => do
      let total ← checkedAdd 32 resultHsb addonBitlen
      let most ← checkedSub (maxPayloadBits width) 1
      if total > most then .err .labelTooLong
      else do
        let shifted ← checkedShl width (resultBits ^^^ 1) addonBitlen
        spliceLoopChecked (shifted ^^^ addon.bits) labels

/-- `splice`. -/
def spliceChecked (labels : List (RoutingLabel width)) :
    Outcome SpliceError (RoutingLabel width) :=
  match labels with
  | first :: second :: rest => do
    let resultBits ← spliceLoopChecked first.bits (second :: rest)
    match labelOfWord width resultBits with
    | some label => .ok label
    | none => .err (.routingLabelTryNewFailed resultBits)
  | _ => .err .notEnoughArguments

/-- `routes_through`. -/
def routesThroughChecked (destination midPath : RoutingLabel width) :
    Outcome SpliceError Bool := do
  let destHighestSetBit ← labelHighestSetBitChecked destination
  let midPathHighestSetBit ← labelHighestSetBitChecked midPath
  if destHighestSetBit < midPathHighestSetBit then return false
  else do
    let bit ← checkedShl width 1 midPathHighestSetBit
    let mask ← checkedSub bit 1
    return destination.bits &&& mask == midPath.bits &&& mask

/-- `unsplice`. -/
def unspliceChecked (destination midPath : RoutingLabel width) :
    Outcome SpliceError (RoutingLabel width) := do
  let routes ← routesThroughChecked destination midPath
  if routes = false then .err .routesThroughFailed
  else do
    let midPathHighestSetBit ← labelHighestSetBitChecked midPath
    let bits ← checkedShr width destination.bits midPathHighestSetBit
    match labelOfWord width bits with
    | some label => .ok label
    | none => .err .highestSetBitIsBroken

/-- The label that `build_label_impl` uses for a hop between the first and the last. -/
def midLabelChecked (hop : PathHop width) : Outcome SpliceError (RoutingLabel width) :=
  match hop.labelP, hop.labelN with
  | some labelP, some labelN => do
    let (formLabelP, formIdx) ← getEncodingFormChecked labelP hop.encodingScheme
    let (formLabelN, _) ← getEncodingFormChecked labelN hop.encodingScheme
    let sizeP ← checkedAdd 8 formLabelP.bitCount formLabelP.prefixLen
    let sizeN ← checkedAdd 8 formLabelN.bitCount formLabelN.prefixLen
    if sizeP > sizeN then reEncodeChecked labelN hop.encodingScheme (some formIdx)
    else .ok labelN
  | _, _ => .err .badArgument

/-- The loop of `build_label_impl`. -/
def midLabelsChecked : List (PathHop width) → Outcome SpliceError (List (RoutingLabel width))
  | [] => .ok []
  | hop :: midHops => do
    let label ← midLabelChecked hop
    let labels ← midLabelsChecked midHops
    return label :: labels

/-- `build_label_impl`. The capacity of the path is a `usize`. -/
def buildLabelImplChecked (usize : Nat) (firstHop : PathHop width)
    (midHops : List (PathHop width)) (lastHop : PathHop width) :
    Outcome SpliceError (RoutingLabel width × List (RoutingLabel width)) :=
  match firstHop.labelN, lastHop.labelP, firstHop.labelP, lastHop.labelN with
  | some firstHopLabelN, some _, none, none => do
    let _capacity ← checkedAdd usize midHops.length 1
    let labels ← midLabelsChecked midHops
    let retPath := firstHopLabelN :: labels
    let retLabel ←
      (if retPath.length > 1 then spliceChecked retPath.reverse else .ok firstHopLabelN)
    return (retLabel, retPath)
  | _, _, _, _ => .err .badArgument

/-- A slice, whose length is a `usize`. -/
structure Slice (usize : Nat) (α : Type) where
  items : List α
  sized : items.length < 2 ^ usize

/-- `build_label`. -/
def buildLabelChecked {usize : Nat} (pathHops : Slice usize (PathHop width)) :
    Outcome SpliceError (RoutingLabel width × List (RoutingLabel width)) :=
  if pathHops.items.length < 2 then .err .notEnoughArguments
  else match pathHops.items.head?, pathHops.items.getLast? with
    | some firstHop, some lastHop => do
      Outcome.assert (decide (pathHops.items.length ≥ 2))
      let last ← checkedSub pathHops.items.length 1
      Outcome.assert (decide (1 ≤ last ∧ last ≤ pathHops.items.length))
      buildLabelImplChecked usize firstHop ((pathHops.items.take last).drop 1) lastHop
    | _, _ => .panicked

/-- None of the functions on labels of a width fails a check, or does anything else than
the one without the checks. Directors are written in the forms of the scheme. -/
structure NeverOverflows (width : Nat) : Prop where
  getEncodingForm (label : RoutingLabel width) (scheme : EncodingScheme) :
    Passes (getEncodingFormChecked label scheme) (getEncodingForm label scheme)
  getDirector (label : RoutingLabel width) (scheme : EncodingScheme) (form : EncodingSchemeForm) :
    form ∈ scheme.forms → Passes (getDirectorChecked label form) (getDirector label form)
  findShortestForm (dir : Nat) (scheme : EncodingScheme) :
    dir < 2 ^ width →
      Passes (findShortestFormChecked width dir scheme) (findShortestForm dir scheme)
  reEncode (label : RoutingLabel width) (scheme : EncodingScheme) (desiredFormNum : Option Nat) :
    Passes (reEncodeChecked label scheme desiredFormNum) (reEncode label scheme desiredFormNum)
  isOneHop (label : RoutingLabel width) (scheme : EncodingScheme) :
    Passes (isOneHopChecked label scheme) (isOneHop label scheme)
  splice (labels : List (RoutingLabel width)) : Passes (spliceChecked labels) (splice labels)
  routesThrough (destination midPath : RoutingLabel width) :
    routesThroughChecked destination midPath = .ok (routesThrough destination midPath)
  unsplice (destination midPath : RoutingLabel width) :
    Passes (unspliceChecked destination midPath) (unsplice destination midPath)
  buildLabel (usize : Nat) (pathHops : Slice usize (PathHop width)) :
    Passes (buildLabelChecked pathHops) (buildLabel pathHops.items)

/-- The highest set bit of a word is found. -/
theorem highestSetBitChecked_eq {bits : Nat} (bounded : bits < 2 ^ width) :
    highestSetBitChecked width bits = .ok (highestSetBit bits) := by
  rw [highestSetBitChecked, highestSetBit]
  split_ifs with zero
  · rfl
  · have size : Nat.size bits = bits.log2 + 1 :=
      Nat.le_antisymm (Nat.size_le.mpr Nat.lt_log2_self)
        (Nat.lt_size.mpr (Nat.log2_self_le zero))
    have inside : Nat.size bits ≤ width := Nat.size_le.mpr bounded
    rw [checkedSub_of_le (by omega), ok_bind, checkedSub_of_le (by rw [leadingZeros]; omega),
      ok_bind, leadingZeros, size, show width - 1 - (width - (bits.log2 + 1)) = bits.log2 by omega]
    rfl

/-- The highest bit of a label is found without an overflow, since a label is not zero. -/
theorem labelHighestSetBitChecked_eq (label : RoutingLabel width) :
    labelHighestSetBitChecked label = .ok (labelHighestSetBit label) := by
  rw [labelHighestSetBitChecked, highestSetBitChecked_eq label.bounded, ok_bind,
    labelHighestSetBit_eq, highestSetBit, if_neg label.nonzero]

/-- The highest bit is one of the label. -/
theorem labelHighestSetBit_lt (label : RoutingLabel width) : labelHighestSetBit label < width := by
  rw [labelHighestSetBit_eq]
  exact (Nat.log2_lt label.nonzero).mpr label.bounded

/-- The loop over the forms computes nothing that overflows, by induction on them. -/
theorem findForm_passes (bits index : Nat) (forms : List EncodingSchemeForm) :
    Passes (findFormChecked bits index forms) (findForm bits index forms) := by
  induction forms generalizing index with
  | nil => exact Passes.err _
  | cons form rest inductionHypothesis =>
    have length : form.prefixLen < 32 := Nat.lt_succ_of_le form.prefixLen_le
    have bit : (1 <<< form.prefixLen) % 2 ^ 32 = 1 <<< form.prefixLen := by
      rw [Nat.one_shiftLeft]
      exact Nat.mod_eq_of_lt (Nat.pow_lt_pow_right (by decide) length)
    have positive : 1 ≤ 1 <<< form.prefixLen := by
      rw [Nat.one_shiftLeft]
      exact Nat.one_le_two_pow
    rw [findFormChecked, findForm]
    split_ifs with empty
    · exact Passes.ok _
    · rw [assert_of length, ok_bind, ok_bind]
      apply Passes.check (checkedShl_ok length)
      rw [bit]
      apply Passes.check (checkedSub_of_le positive)
      dsimp only
      split_ifs
      · exact Passes.ok _
      · exact inductionHypothesis (index + 1)

/-- A form is recognized without an overflow. -/
theorem getEncodingForm_passes (label : RoutingLabel width) (scheme : EncodingScheme) :
    Passes (getEncodingFormChecked label scheme) (getEncodingForm label scheme) := by
  have few : scheme.forms.length < 256 :=
    Nat.lt_of_le_of_lt scheme.length_bounds.2 (by decide)
  exact Passes.check (assert_of few) (findForm_passes _ _ _)

/-- A label is recognized as a form of the scheme. -/
theorem mem_of_recognized {label : RoutingLabel width} {scheme : EncodingScheme}
    {form : EncodingSchemeForm} {num : Nat}
    (recognized : getEncodingForm label scheme = .ok (form, num)) : form ∈ scheme.forms :=
  List.mem_of_getElem? ((getEncodingForm_ok_iff _ _ _ _).mp recognized).1

section

variable {scheme : EncodingScheme} {form : EncodingSchemeForm}

/-- The bits of a form and its prefix are counted without an overflow and are less than a label has.
-/
theorem sizeBits_lt (member : form ∈ scheme.forms) (wide : 64 ≤ width) :
    form.bitCount + form.prefixLen < width := by
  have room : form.bitCount + form.prefixLen ≤ 59 := scheme.sizeBits_le member
  omega

/-- A director is read without an overflow. -/
theorem getDirector_passes (wide : 64 ≤ width) (narrow : width ≤ 128)
    (member : form ∈ scheme.forms) (label : RoutingLabel width) :
    Passes (getDirectorChecked label form) (getDirector label form) := by
  have room := sizeBits_lt member wide
  have positive : 0 < form.bitCount := form.bitCount_pos
  rw [getDirectorChecked, getDirector, checkedSub_of_le (by omega), ok_bind, ok_bind,
    checkedSub_of_le (by omega), ok_bind, ok_bind, checkedShl_ok (by omega), ok_bind, ok_bind]
  apply Passes.check (checkedAdd_of_lt (by omega))
  exact Passes.of_ok (checkedShr_ok (by omega))

/-- The shortest form is found without an overflow. -/
theorem findShortestForm_passes (narrow : width ≤ 128) {dir : Nat} (bounded : dir < 2 ^ width)
    (scheme : EncodingScheme) :
    Passes (findShortestFormChecked width dir scheme) (findShortestForm dir scheme) := by
  have low : (highestSetBit dir).getD 0 ≤ 128 := by
    rw [highestSetBit]
    split_ifs with zero
    · exact Nat.zero_le _
    · exact ((Nat.log2_lt zero).mpr bounded).le.trans narrow
  have length : directorBitLengthChecked width dir = .ok (directorBitLength dir) := by
    rw [directorBitLengthChecked, highestSetBitChecked_eq bounded, ok_bind,
      checkedAdd_of_lt (by omega)]
    rfl
  apply Passes.check length
  rw [findShortestForm]
  cases (scheme.forms.filter (fun form => directorBitLength dir ≤ form.bitCount)).argmin
    EncodingSchemeForm.bitCount with
  | some form => exact Passes.ok _
  | none => exact Passes.err _

/-- The form to write is chosen without an overflow. -/
theorem desiredForm_passes (narrow : width ≤ 128) {dir : Nat} (bounded : dir < 2 ^ width)
    (scheme : EncodingScheme) (num : Option Nat) :
    Passes (desiredFormChecked width dir scheme num) (desiredForm dir scheme num) := by
  cases num with
  | some num =>
    rw [desiredFormChecked, desiredForm]
    cases scheme.forms[num]? with
    | some form => exact Passes.ok _
    | none => exact Passes.err _
  | none => exact findShortestForm_passes narrow bounded scheme

/-- A director is small, so one can be added to it.

Proof: a director is at most thirty-one bits long, so one more fits into every width; the cases
are those of the function. -/
theorem adjustDirector_passes (wide : 64 ≤ width) {dir : Nat} (small : dir < 2 ^ 31)
    (scheme : EncodingScheme) (form desired : EncodingSchemeForm) :
    Passes (adjustDirector width scheme form desired dir)
      (adjustDirector width scheme form desired dir) := by
  have room : 2 ^ 31 + 1 ≤ 2 ^ width :=
    Nat.le_trans (by decide) (Nat.pow_le_pow_right (by decide) wide)
  have raised : ∀ least ≤ dir,
      Passes (if is358ZeroForm desired && dir != 0b111 then checkedAdd width least 1
          else .ok least : Outcome SpliceError Nat)
        (if is358ZeroForm desired && dir != 0b111 then checkedAdd width least 1
          else .ok least) := by
    intro least low
    split_ifs
    · exact Passes.of_ok (checkedAdd_of_lt (by omega))
    · exact Passes.ok _
  rw [adjustDirector]
  by_cases legacy : scheme = v358
  · rw [if_pos legacy]
    dsimp only
    by_cases zeroForm : is358ZeroForm form = true
    · rw [if_pos zeroForm]
      by_cases zero : dir = 0
      · rw [if_pos zero]
        exact Passes.err _
      · rw [if_neg zero, checkedSub_of_le (Nat.one_le_iff_ne_zero.mpr zero), ok_bind]
        exact raised _ (Nat.sub_le _ _)
    · rw [if_neg zeroForm, ok_bind]
      exact raised _ le_rfl
  · rw [if_neg legacy]
    exact Passes.ok _

/-- The bits above a director are counted without an overflow, and there is a bound for them. -/
theorem restBitlenChecked_eq (narrow : width ≤ 128) {above : Nat} (bounded : above < 2 ^ width) :
    restBitlenChecked width above = .ok (restBitlen above) ∧ restBitlen above ≤ 129 := by
  rw [restBitlenChecked, highestSetBitChecked_eq bounded, restBitlen, highestSetBit]
  split_ifs with zero
  · exact ⟨rfl, Nat.zero_le _⟩
  · have low : above.log2 < width := (Nat.log2_lt zero).mpr bounded
    exact ⟨checkedAdd_of_lt (by omega), by dsimp only; omega⟩

/-- A director is written without an overflow: no form has more than 62 bits, so both shifts are by
less than the width. -/
theorem writeDirector_passes (wide : 64 ≤ width) (desired : EncodingSchemeForm)
    (dir above : Nat) :
    Passes (writeDirector width desired dir above) (writeDirector width desired dir above) := by
  have count : desired.bitCount ≤ 31 := desired.bitCount_le
  have length : desired.prefixLen ≤ 31 := desired.prefixLen_le
  rw [writeDirector, checkedShl_ok (by omega), ok_bind, checkedShl_ok (by omega), ok_bind]
  exact Passes.ok _

/-- A label is written in another form without an overflow, from the passing of its parts.

Proof: the sizes of both forms are small, so every sum and shift stays within the width; then
the checked calls are the plain ones, one after the other. -/
theorem reEncode_passes (wide : 64 ≤ width) (narrow : width ≤ 128) (label : RoutingLabel width)
    (scheme : EncodingScheme) (num : Option Nat) :
    Passes (reEncodeChecked label scheme num) (reEncode label scheme num) := by
  apply (getEncodingForm_passes label scheme).bind
  rintro ⟨form, index⟩ recognized
  have member := mem_of_recognized recognized
  have room := sizeBits_lt member wide
  have count : form.bitCount ≤ 31 := form.bitCount_le
  apply (getDirector_passes wide narrow member label).bind
  intro dir got
  have small : dir < 2 ^ 31 := by
    rw [getDirector_ok got]
    exact (Nat.mod_lt _ (Nat.two_pow_pos _)).trans_le (Nat.pow_le_pow_right (by decide) count)
  have bounded : dir < 2 ^ width :=
    small.trans_le (Nat.pow_le_pow_right (by decide) (by omega))
  apply (desiredForm_passes narrow bounded scheme num).bind
  intro desired _
  apply (adjustDirector_passes wide small scheme form desired).bind
  intro adjusted _
  apply Passes.check (checkedAdd_of_lt (by omega))
  apply (Passes.of_ok (checkedShr_ok room)).bind
  intro above shifted
  have inWord : above < 2 ^ width := by
    rw [← ((checkedShr_ok_iff _ _ _ _).mp shifted).2]
    exact (Nat.shiftRight_le _ _).trans_lt label.bounded
  obtain ⟨rest, restLow⟩ := restBitlenChecked_eq narrow inWord
  have desiredCount : desired.bitCount ≤ 31 := desired.bitCount_le
  have desiredLength : desired.prefixLen ≤ 31 := desired.prefixLen_le
  apply Passes.check rest
  apply Passes.check (checkedAdd_of_lt (by omega))
  apply Passes.check (checkedAdd_of_lt (by omega))
  split_ifs
  · exact Passes.err _
  · apply (writeDirector_passes wide desired adjusted above).bind
    intro bits _
    cases labelOfWord width bits with
    | some label => exact Passes.ok _
    | none => exact Passes.err _

/-- Whether a label is one hop is found without an overflow. -/
theorem isOneHop_passes (label : RoutingLabel width) (scheme : EncodingScheme) :
    Passes (isOneHopChecked label scheme) (isOneHop label scheme) := by
  apply (getEncodingForm_passes label scheme).bind
  rintro ⟨form, index⟩ _
  have count : form.bitCount ≤ 31 := form.bitCount_le
  have length : form.prefixLen ≤ 31 := form.prefixLen_le
  apply (Passes.of_ok (checkedAdd_of_lt (by omega))).bind
  intro formBits _
  apply Passes.check (labelHighestSetBitChecked_eq label)
  exact Passes.ok _

end

/-- What the loop has joined so far is a word that is not zero, since its length is checked
before the next label is added. -/
theorem spliceLoop_passes (wide : 64 ≤ width) (narrow : width ≤ 128) {resultBits : Nat}
    (nonzero : resultBits ≠ 0) (bounded : resultBits < 2 ^ width)
    (labels : List (RoutingLabel width)) :
    Passes (spliceLoopChecked resultBits labels) (spliceLoop resultBits labels) := by
  induction labels generalizing resultBits with
  | nil => exact Passes.ok _
  | cons addon labels inductionHypothesis =>
    have inWord := labelHighestSetBit_lt addon
    have high : resultBits.log2 < width := (Nat.log2_lt nonzero).mpr bounded
    have most : maxPayloadBits width = width - 4 := rfl
    apply Passes.check (labelHighestSetBitChecked_eq addon)
    rw [highestSetBitChecked_eq bounded, ok_bind, spliceLoop, highestSetBit, if_neg nonzero]
    dsimp only
    apply Passes.check (checkedAdd_of_lt (by omega))
    apply Passes.check (checkedSub_of_le (by omega))
    split_ifs with long
    · exact Passes.err _
    · have room : resultBits.log2 + labelHighestSetBit addon < width := by omega
      rw [checkedShl_front room, ok_bind, ok_bind, labelHighestSetBit_eq,
        MarkerBit.join_eq nonzero addon.nonzero]
      apply inductionHypothesis (MarkerBit.encode_ne_zero _)
      rw [MarkerBit.encode_lt_iff, List.length_append, MarkerBit.length_payload,
        MarkerBit.length_payload, ← labelHighestSetBit_eq]
      exact room

/-- Labels are spliced without an overflow, from the passing of the loop. -/
theorem splice_passes (wide : 64 ≤ width) (narrow : width ≤ 128)
    (labels : List (RoutingLabel width)) : Passes (spliceChecked labels) (splice labels) := by
  match labels with
  | [] => exact Passes.err _
  | [_] => exact Passes.err _
  | first :: second :: rest =>
    apply (spliceLoop_passes wide narrow first.nonzero first.bounded (second :: rest)).bind
    intro bits _
    cases labelOfWord width bits with
    | some label => exact Passes.ok _
    | none => exact Passes.err _

/-- Whether a label routes through another is found without an overflow. -/
theorem routesThroughChecked_eq (destination midPath : RoutingLabel width) :
    routesThroughChecked destination midPath = .ok (routesThrough destination midPath) := by
  have inWord := labelHighestSetBit_lt midPath
  have bit : (1 <<< labelHighestSetBit midPath) % 2 ^ width = 1 <<< labelHighestSetBit midPath := by
    rw [Nat.one_shiftLeft]
    exact Nat.mod_eq_of_lt (Nat.pow_lt_pow_right (by decide) inWord)
  have positive : 1 ≤ 1 <<< labelHighestSetBit midPath := by
    rw [Nat.one_shiftLeft]
    exact Nat.one_le_two_pow
  rw [routesThroughChecked, labelHighestSetBitChecked_eq, ok_bind, labelHighestSetBitChecked_eq,
    ok_bind, routesThrough]
  split_ifs
  · rfl
  · rw [checkedShl_ok inWord, ok_bind, bit, checkedSub_of_le positive]
    rfl

/-- A label is taken off without an overflow. -/
theorem unsplice_passes (destination midPath : RoutingLabel width) :
    Passes (unspliceChecked destination midPath) (unsplice destination midPath) := by
  apply Passes.check (routesThroughChecked_eq destination midPath)
  rw [unsplice]
  split_ifs
  · exact Passes.err _
  · apply Passes.check (labelHighestSetBitChecked_eq midPath)
    apply Passes.check (checkedShr_ok (labelHighestSetBit_lt midPath))
    cases labelOfWord width (destination.bits >>> labelHighestSetBit midPath) with
    | some label => exact Passes.ok _
    | none => exact Passes.err _

/-- The label of a hop is chosen without an overflow. -/
theorem midLabel_passes (wide : 64 ≤ width) (narrow : width ≤ 128) (hop : PathHop width) :
    Passes (midLabelChecked hop) (midLabel hop) := by
  obtain ⟨labelP, labelN, scheme⟩ := hop
  cases labelP with
  | none => exact Passes.err _
  | some labelP =>
    cases labelN with
    | none => exact Passes.err _
    | some labelN =>
      apply (getEncodingForm_passes labelP scheme).bind
      rintro ⟨formP, formIdx⟩ _
      apply (getEncodingForm_passes labelN scheme).bind
      rintro ⟨formN, _⟩ _
      have countP : formP.bitCount ≤ 31 := formP.bitCount_le
      have lengthP : formP.prefixLen ≤ 31 := formP.prefixLen_le
      have countN : formN.bitCount ≤ 31 := formN.bitCount_le
      have lengthN : formN.prefixLen ≤ 31 := formN.prefixLen_le
      apply Passes.check (checkedAdd_of_lt (by omega))
      apply Passes.check (checkedAdd_of_lt (by omega))
      dsimp only
      split_ifs
      · exact reEncode_passes wide narrow labelN scheme (some formIdx)
      · exact Passes.ok _

/-- The labels of all hops are chosen without an overflow, by induction on them. -/
theorem midLabels_passes (wide : 64 ≤ width) (narrow : width ≤ 128)
    (midHops : List (PathHop width)) :
    Passes (midLabelsChecked midHops) (midLabels midHops) := by
  induction midHops with
  | nil => exact Passes.ok _
  | cons hop midHops inductionHypothesis =>
    apply (midLabel_passes wide narrow hop).bind
    intro label _
    apply inductionHypothesis.bind
    intro labels _
    exact Passes.ok _

/-- A path is built without an overflow where its hops can be counted. -/
theorem buildLabelImpl_passes (wide : 64 ≤ width) (narrow : width ≤ 128) {usize : Nat}
    (firstHop lastHop : PathHop width) {midHops : List (PathHop width)}
    (sized : midHops.length + 1 < 2 ^ usize) :
    Passes (buildLabelImplChecked usize firstHop midHops lastHop)
      (buildLabelImpl firstHop midHops lastHop) := by
  obtain ⟨firstP, firstN, firstScheme⟩ := firstHop
  obtain ⟨lastP, lastN, lastScheme⟩ := lastHop
  cases firstN <;> cases lastP <;> cases firstP <;> cases lastN <;> try exact Passes.err _
  next firstLabelN lastLabelP =>
    apply Passes.check (checkedAdd_of_lt sized)
    apply (midLabels_passes wide narrow midHops).bind
    intro labels _
    have label : Passes
        (if (firstLabelN :: labels).length > 1 then spliceChecked (firstLabelN :: labels).reverse
          else .ok firstLabelN)
        (if (firstLabelN :: labels).length > 1 then splice (firstLabelN :: labels).reverse
          else .ok firstLabelN) := by
      split_ifs
      · exact splice_passes wide narrow _
      · exact Passes.ok _
    apply label.bind
    intro retLabel _
    exact Passes.ok _

/-- A path is built without an overflow, since a slice is as long as can be counted. -/
theorem buildLabel_passes (wide : 64 ≤ width) (narrow : width ≤ 128) {usize : Nat}
    (pathHops : Slice usize (PathHop width)) :
    Passes (buildLabelChecked pathHops) (buildLabel pathHops.items) := by
  obtain ⟨items, sized⟩ := pathHops
  rw [buildLabelChecked, buildLabel]
  dsimp only
  split_ifs with few
  · exact Passes.err _
  · have between : (items.take (items.length - 1)).drop 1 = items.tail.dropLast := by
      rw [← List.dropLast_eq_take, List.drop_one, List.tail_dropLast]
    have shorter : items.tail.dropLast.length + 1 < 2 ^ usize := by
      rw [List.length_dropLast, List.length_tail]
      omega
    have nonempty : items ≠ [] := List.length_pos_iff.mp (by omega)
    rw [List.head?_eq_some_head nonempty, List.getLast?_eq_some_getLast nonempty]
    apply Passes.check (assert_of (Nat.not_lt.mp few))
    apply Passes.check (checkedSub_of_le (by omega))
    apply Passes.check (assert_of (by omega))
    rw [between]
    exact buildLabelImpl_passes wide narrow _ _ shorter

/-- Labels of 64 and of 128 bits.

Proof: each function with checked arithmetic computes what the plain one does, from the functions
that it calls. -/
theorem splicing_never_overflows : NeverOverflows 64 ∧ NeverOverflows 128 := by
  have never : ∀ width, 64 ≤ width → width ≤ 128 → NeverOverflows width := by
    intro width wide narrow
    exact {
      getEncodingForm := getEncodingForm_passes
      getDirector := fun label _ _ member => getDirector_passes wide narrow member label
      findShortestForm := fun _ scheme bounded => findShortestForm_passes narrow bounded scheme
      reEncode := reEncode_passes wide narrow
      isOneHop := isOneHop_passes
      splice := splice_passes wide narrow
      routesThrough := routesThroughChecked_eq
      unsplice := unsplice_passes
      buildLabel := fun _ pathHops => buildLabel_passes wide narrow pathHops }
  exact ⟨never 64 le_rfl (by decide), never 128 (by decide) le_rfl⟩

end RouteServer.Splice
