import RouteServer.Core.Splice
import RouteServer.Words.MarkerBit

/-!
# Splicing labels

A label is a bit string under a marker bit, its payload. Splicing labels appends their
payloads, the first hop lowest, and fails as soon as the result would be longer than a
payload may be. A label that routes through another has the payload of the other as a
suffix, and unsplicing takes it off.
-/

namespace RouteServer.Splice

open Rust Labels

variable {width : Nat}

/-- `MAX_PAYLOAD_BITS`. -/
def maxPayloadBits (width : Nat) : Nat := width - 4

/-- `highest_set_bit`. -/
def highestSetBit (bits : Nat) : Option Nat := if bits = 0 then none else some bits.log2

/-- `label_highest_set_bit`. A label is not zero. -/
def labelHighestSetBit (label : RoutingLabel width) : Nat :=
  (highestSetBit label.bits).get (by simp [highestSetBit, label.nonzero])

/-- The loop of `splice`. -/
def spliceLoop (resultBits : Nat) : List (RoutingLabel width) → Outcome SpliceError Nat
  | [] => .ok resultBits
  | addon :: labels =>
    let addonBitlen := labelHighestSetBit addon
    match highestSetBit resultBits with
    | none => .panicked
    | some resultHsb =>
      if resultHsb + addonBitlen > maxPayloadBits width - 1 then .err .labelTooLong
      else do
        let shifted ← Outcome.checkedShl width (resultBits ^^^ 1) addonBitlen
        spliceLoop (shifted ^^^ addon.bits) labels

/-- `RoutingLabel::try_new` on a word of the width. -/
def labelOfWord (width bits : Nat) : Option (RoutingLabel width) :=
  RoutingLabel.tryNew (bits % 2 ^ width) (Nat.mod_lt _ (Nat.two_pow_pos width))

/-- `splice`. -/
def splice (labels : List (RoutingLabel width)) : Outcome SpliceError (RoutingLabel width) :=
  match labels with
  | first :: second :: rest => do
    let resultBits ← spliceLoop first.bits (second :: rest)
    match labelOfWord width resultBits with
    | some label => .ok label
    | none => .err (.routingLabelTryNewFailed resultBits)
  | _ => .err .notEnoughArguments

/-- `routes_through`. -/
def routesThrough (destination midPath : RoutingLabel width) : Bool :=
  if labelHighestSetBit destination < labelHighestSetBit midPath then false
  else
    let mask := (1 <<< labelHighestSetBit midPath) - 1
    destination.bits &&& mask == midPath.bits &&& mask

/-- `unsplice`. -/
def unsplice (destination midPath : RoutingLabel width) :
    Outcome SpliceError (RoutingLabel width) :=
  if routesThrough destination midPath = false then .err .routesThroughFailed
  else match labelOfWord width (destination.bits >>> labelHighestSetBit midPath) with
    | some label => .ok label
    | none => .err .highestSetBitIsBroken

/-- `RoutingLabel::self_reference`. -/
def selfReference [NeZero width] : RoutingLabel width :=
  ⟨1, Nat.one_ne_zero, Nat.one_lt_two_pow (NeZero.ne width)⟩

/-- The bits of a label below its highest set bit, most significant first. -/
def payload (label : RoutingLabel width) : List Bool := MarkerBit.payload label.bits

/-- The highest bit that is set is the logarithm. -/
theorem labelHighestSetBit_eq (label : RoutingLabel width) :
    labelHighestSetBit label = label.bits.log2 := by
  simp [labelHighestSetBit, highestSetBit, label.nonzero]

/-- A payload is as long as the label has bits below its marker. -/
@[simp] theorem length_payload (label : RoutingLabel width) :
    (payload label).length = labelHighestSetBit label := by
  rw [payload, MarkerBit.length_payload, labelHighestSetBit_eq]

/-- The reference to oneself has no payload. -/
@[simp] theorem payload_selfReference [NeZero width] :
    payload (selfReference : RoutingLabel width) = [] := rfl

/-- Labels with one payload are equal. -/
theorem payload_injective {first second : RoutingLabel width}
    (same : payload first = payload second) : first = second := by
  apply RoutingLabel.ext
  rw [← MarkerBit.encode_payload first.nonzero, ← MarkerBit.encode_payload second.nonzero]
  exact congrArg MarkerBit.encode same

/-- A payload is shorter than the word that holds it. -/
theorem payload_length_lt (label : RoutingLabel width) : (payload label).length < width := by
  rw [← MarkerBit.encode_lt_iff, payload, MarkerBit.encode_payload label.nonzero]
  exact label.bounded

/-- Every bit string shorter than the word is a payload. -/
theorem exists_label {bits : List Bool} (short : bits.length < width) :
    ∃ label, labelOfWord width (MarkerBit.encode bits) = some label ∧ payload label = bits := by
  have fits := (MarkerBit.encode_lt_iff bits width).mpr short
  refine ⟨⟨MarkerBit.encode bits, MarkerBit.encode_ne_zero bits, fits⟩, ?_,
    MarkerBit.payload_encode bits⟩
  simp [labelOfWord, RoutingLabel.tryNew, Nat.mod_eq_of_lt fits, MarkerBit.encode_ne_zero]

/-- A label that is built has the bits of its word. -/
theorem labelOfWord_bits {bits : Nat} {label : RoutingLabel width}
    (built : labelOfWord width bits = some label) : label.bits = bits % 2 ^ width := by
  rw [labelOfWord, RoutingLabel.tryNew] at built
  split at built
  · cases built
    rfl
  · cases built

/-- The payload of a list of labels, one after the other. -/
def payloads (labels : List (RoutingLabel width)) : List Bool := labels.flatMap payload

/-- A payload no longer than the limit fits the word, as do all words with labels. -/
theorem lt_width_of_le {length : Nat} (label : RoutingLabel width)
    (short : length ≤ maxPayloadBits width - 1) : length < width := by
  have room := payload_length_lt label
  rw [maxPayloadBits] at short
  omega

/-- Bits are shifted out of the way of a label without any being lost. -/
theorem checkedShl_front {resultBits count : Nat} (room : resultBits.log2 + count < width) :
    (Outcome.checkedShl width (resultBits ^^^ 1) count : Outcome SpliceError Nat) =
      .ok ((resultBits ^^^ 1) <<< count) := by
  refine Outcome.checkedShl_of_lt (by omega) ?_
  have small : resultBits ^^^ 1 < 2 ^ (resultBits.log2 + 1) :=
    Nat.xor_lt_two_pow Nat.lt_log2_self (Nat.one_lt_two_pow (Nat.succ_ne_zero _))
  rw [Nat.shiftLeft_eq]
  calc (resultBits ^^^ 1) * 2 ^ count
      < 2 ^ (resultBits.log2 + 1) * 2 ^ count :=
        Nat.mul_lt_mul_of_pos_right small (Nat.two_pow_pos _)
    _ = 2 ^ (resultBits.log2 + 1 + count) := (Nat.pow_add ..).symm
    _ ≤ 2 ^ width := Nat.pow_le_pow_right (by decide) (by omega)

/-- The loop of `splice` appends payloads, unless the result gets too long.

Proof: induction on the labels. Joining two words under their markers appends their payloads,
and a result that is too long only gets longer. -/
theorem spliceLoop_eq {resultBits : Nat} (nonzero : resultBits ≠ 0)
    (labels : List (RoutingLabel width)) (some_label : labels ≠ []) :
    spliceLoop resultBits labels =
      if (MarkerBit.payload resultBits ++ payloads labels).length ≤ maxPayloadBits width - 1 then
        .ok (MarkerBit.encode (MarkerBit.payload resultBits ++ payloads labels))
      else .err .labelTooLong := by
  induction labels generalizing resultBits with
  | nil => exact absurd rfl some_label
  | cons addon labels inductionHypothesis =>
    have total : (MarkerBit.payload resultBits ++ payloads (addon :: labels)).length =
        resultBits.log2 + addon.bits.log2 + (payloads labels).length := by
      simp [payloads, labelHighestSetBit_eq, Nat.add_assoc]
    rw [spliceLoop, labelHighestSetBit_eq, highestSetBit, if_neg nonzero, total]
    dsimp only
    by_cases long : resultBits.log2 + addon.bits.log2 > maxPayloadBits width - 1
    · rw [if_pos long, if_neg (by omega)]
    · have joined := MarkerBit.join_eq nonzero addon.nonzero
      have length : (MarkerBit.payload resultBits ++ MarkerBit.payload addon.bits).length =
          resultBits.log2 + addon.bits.log2 := by simp
      have room := lt_width_of_le addon (Nat.not_lt.mp long)
      rw [if_neg long, checkedShl_front room, Outcome.ok_bind, joined]
      cases labels with
      | nil =>
        rw [spliceLoop, if_pos (by simpa [payloads] using long)]
        simp [payloads, payload]
      | cons next labels =>
        rw [inductionHypothesis (MarkerBit.encode_ne_zero _) (List.cons_ne_nil _ _),
          MarkerBit.payload_encode, List.append_assoc, List.length_append, ← List.length_append,
          ← total]
        rfl

/-- Labels are spliced to the label of all their payloads if that is no longer than a
payload may be, and otherwise the result is too long. -/
theorem splice_cases (labels : List (RoutingLabel width)) (several : 2 ≤ labels.length) :
    ((payloads labels).length ≤ maxPayloadBits width - 1 ∧
        ∃ label, splice labels = .ok label ∧ payload label = payloads labels) ∨
      (maxPayloadBits width - 1 < (payloads labels).length ∧
        splice labels = .err .labelTooLong) := by
  match labels, several with
  | first :: second :: rest, _ =>
    have spliced := spliceLoop_eq first.nonzero (second :: rest) (List.cons_ne_nil _ _)
    have whole : MarkerBit.payload first.bits ++ payloads (second :: rest) =
        payloads (first :: second :: rest) := rfl
    rw [whole] at spliced
    rw [splice, spliced]
    split
    · next short =>
      obtain ⟨label, built, bits⟩ := exists_label (lt_width_of_le first short)
      refine Or.inl ⟨short, label, ?_, bits⟩
      rw [Outcome.ok_bind, built]
    · next long => exact Or.inr ⟨Nat.not_le.mp long, rfl⟩

/-- The splice depends on the payloads only. -/
theorem splice_congr {first second : List (RoutingLabel width)} (firstSeveral : 2 ≤ first.length)
    (secondSeveral : 2 ≤ second.length) (same : payloads first = payloads second) :
    splice first = splice second := by
  rcases splice_cases first firstSeveral with ⟨short, label, ok, bits⟩ | ⟨long, err⟩
  · rcases splice_cases second secondSeveral with ⟨-, other, otherOk, otherBits⟩ | ⟨otherLong, -⟩
    · rw [ok, otherOk, payload_injective (bits.trans (same.trans otherBits.symm))]
    · rw [same] at short
      omega
  · rcases splice_cases second secondSeveral with ⟨otherShort, -⟩ | ⟨-, otherErr⟩
    · rw [same] at long
      omega
    · rw [err, otherErr]

/-- A label routes through another exactly when the payload of the other is a suffix of
its own. -/
theorem routesThrough_iff (destination midPath : RoutingLabel width) :
    routesThrough destination midPath = true ↔ payload midPath <:+ payload destination := by
  rw [payload, payload, MarkerBit.suffix_iff destination.nonzero midPath.nonzero, routesThrough,
    labelHighestSetBit_eq, labelHighestSetBit_eq]
  simp only [Nat.one_shiftLeft, Nat.and_two_pow_sub_one_eq_mod]
  split
  · next shorter => simp [Nat.not_le.mpr shorter]
  · next enough => simp [Nat.not_lt.mp enough]

/-- Unsplicing takes a suffix off the payload. -/
theorem unsplice_of_append {destination midPath : RoutingLabel width} {front : List Bool}
    (split : payload destination = front ++ payload midPath) :
    ∃ label, unsplice destination midPath = .ok label ∧ payload label = front := by
  have through : ¬routesThrough destination midPath = false := by
    rw [Bool.not_eq_false, routesThrough_iff]
    exact ⟨front, split.symm⟩
  have whole : destination.bits = MarkerBit.encode (front ++ payload midPath) := by
    rw [← split, payload, MarkerBit.encode_payload destination.nonzero]
  have shifted : destination.bits >>> labelHighestSetBit midPath = MarkerBit.encode front := by
    rw [whole, ← length_payload, MarkerBit.shiftRight_encode_append]
  have short : front.length < width := by
    have lengths := congrArg List.length split
    have bound := payload_length_lt destination
    rw [List.length_append] at lengths
    omega
  obtain ⟨label, built, bits⟩ := exists_label short
  refine ⟨label, ?_, bits⟩
  rw [unsplice, if_neg through, shifted, built]

/-- A group of labels spliced, where one label stands for itself. -/
def spliceGroup : List (RoutingLabel width) → Outcome SpliceError (RoutingLabel width)
  | [label] => .ok label
  | group => splice group

/-- Groups of labels spliced one after the other. -/
def spliceGroups : List (List (RoutingLabel width)) →
    Outcome SpliceError (List (RoutingLabel width))
  | [] => .ok []
  | group :: groups => do
    let label ← spliceGroup group
    let labels ← spliceGroups groups
    return label :: labels

/-- More than one label is spliced. -/
theorem spliceGroup_of_several {group : List (RoutingLabel width)} (several : 2 ≤ group.length) :
    spliceGroup group = splice group := by
  match group, several with
  | _ :: _ :: _, _ => rfl

/-- The payloads of labels in a row are put together. -/
theorem payloads_append (first second : List (RoutingLabel width)) :
    payloads (first ++ second) = payloads first ++ payloads second := List.flatMap_append

/-- Payloads in a row are as long as all of them together. -/
theorem length_payloads (labels : List (RoutingLabel width)) :
    (payloads labels).length = (labels.map labelHighestSetBit).sum := by
  simp [payloads, List.length_flatMap]

/-- A group is spliced to the label of its payloads, or is too long. -/
theorem spliceGroup_cases (group : List (RoutingLabel width)) (nonempty : group ≠ []) :
    (∃ label, spliceGroup group = .ok label ∧ payload label = payloads group) ∨
      (maxPayloadBits width - 1 < (payloads group).length ∧
        spliceGroup group = .err .labelTooLong) := by
  match group, nonempty with
  | [label], _ => exact Or.inl ⟨label, rfl, by simp [payloads]⟩
  | first :: second :: rest, _ =>
    rcases splice_cases (first :: second :: rest) (by simp) with ⟨-, spliced⟩ | tooLong
    · exact Or.inl spliced
    · exact Or.inr tooLong

/-- Groups are spliced to as many labels with the same payloads, or are too long. -/
theorem spliceGroups_cases (groups : List (List (RoutingLabel width)))
    (nonempty : ∀ group ∈ groups, group ≠ []) :
    (∃ labels, spliceGroups groups = .ok labels ∧ labels.length = groups.length ∧
        payloads labels = payloads groups.flatten) ∨
      (maxPayloadBits width - 1 < (payloads groups.flatten).length ∧
        spliceGroups groups = .err .labelTooLong) := by
  induction groups with
  | nil => exact Or.inl ⟨[], rfl, rfl, rfl⟩
  | cons group groups inductionHypothesis =>
    rw [List.flatten_cons, payloads_append, List.length_append, spliceGroups]
    rcases spliceGroup_cases group (nonempty group List.mem_cons_self) with
      ⟨label, spliced, bits⟩ | ⟨long, spliced⟩
    · rw [spliced, Outcome.ok_bind]
      rcases inductionHypothesis fun other member =>
        nonempty other (List.mem_cons_of_mem group member) with
        ⟨labels, rest, lengths, restBits⟩ | ⟨long, rest⟩
      · refine Or.inl ⟨label :: labels, by rw [rest]; rfl, by simp [lengths], ?_⟩
        rw [← restBits, ← bits]
        rfl
      · exact Or.inr ⟨by omega, by rw [rest]; rfl⟩
    · exact Or.inr ⟨by omega, by rw [spliced]; rfl⟩

/-- Splicing groups first gives the same as splicing all labels. -/
theorem spliceGroups_splice (groups : List (List (RoutingLabel width)))
    (nonempty : ∀ group ∈ groups, group ≠ []) (several : 2 ≤ groups.length) :
    (spliceGroups groups >>= splice) = splice groups.flatten := by
  have manyLabels : 2 ≤ groups.flatten.length := by
    match groups, several with
    | first :: second :: rest, _ =>
      have one := List.length_pos_iff.mpr (nonempty first (by simp))
      have two := List.length_pos_iff.mpr (nonempty second (by simp))
      simp only [List.flatten_cons, List.length_append]
      omega
  rcases spliceGroups_cases groups nonempty with ⟨labels, spliced, lengths, bits⟩ | ⟨long, spliced⟩
  · rw [spliced, Outcome.ok_bind, splice_congr (lengths ▸ several) manyLabels bits]
  · rcases splice_cases groups.flatten manyLabels with ⟨short, -⟩ | ⟨-, wholeErr⟩
    · omega
    · rw [spliced, wholeErr]
      rfl

/-- The self-reference changes no label within the limit, from either side. -/
theorem splice_selfReference [NeZero width] (label : RoutingLabel width)
    (short : labelHighestSetBit label ≤ maxPayloadBits width - 1) :
    splice [selfReference, label] = .ok label ∧ splice [label, selfReference] = .ok label := by
  have unchanged (labels : List (RoutingLabel width)) (several : 2 ≤ labels.length)
      (same : payloads labels = payload label) : splice labels = .ok label := by
    rcases splice_cases labels several with ⟨-, spliced, ok, bits⟩ | ⟨long, -⟩
    · rw [ok, payload_injective (bits.trans same)]
    · rw [same, length_payload] at long
      omega
  exact ⟨unchanged _ (by simp) (by simp [payloads]), unchanged _ (by simp) (by simp [payloads])⟩

/-- The self-reference in front of labels changes nothing. -/
theorem splice_selfReference_cons [NeZero width] {labels : List (RoutingLabel width)}
    (nonempty : labels ≠ [])
    (short : ∀ label, labels = [label] → labelHighestSetBit label ≤ maxPayloadBits width - 1) :
    splice (selfReference :: labels) = spliceGroup labels := by
  match labels, nonempty with
  | [label], _ => exact (splice_selfReference label (short label rfl)).1
  | first :: second :: rest, _ =>
    rw [spliceGroup_of_several (by simp)]
    exact splice_congr (by simp) (by simp) (by simp [payloads])

/-- **Splicing is a monoid on payloads, up to a limit.** Two or more labels have a splice
exactly when their payloads together are no longer than a payload may be; no other error
occurs. Its payload is that of the labels one after the other, the self-reference changes
nothing, and labels may be grouped before.

Proof: the loop of the splice either has room for all payloads or stops with the one error, and
the payload that it builds is the concatenation, which is associative. -/
theorem splice_monoid [NeZero width] (labels : List (RoutingLabel width))
    (several : 2 ≤ labels.length) :
    ((∃ label, splice labels = .ok label) ↔
        (labels.map labelHighestSetBit).sum ≤ maxPayloadBits width - 1) ∧
      ((∃ label, splice labels = .ok label) ∨ splice labels = .err .labelTooLong) ∧
      (∀ label, splice labels = .ok label →
        labelHighestSetBit label = (labels.map labelHighestSetBit).sum ∧
          payload label = labels.flatMap payload) ∧
      (∀ label : RoutingLabel width, labelHighestSetBit label ≤ maxPayloadBits width - 1 →
        splice [selfReference, label] = .ok label ∧ splice [label, selfReference] = .ok label) ∧
      ∀ groups : List (List (RoutingLabel width)), groups.flatten = labels →
        (∀ group ∈ groups, group ≠ []) → 2 ≤ groups.length →
        (spliceGroups groups >>= splice) = splice labels := by
  rw [← length_payloads]
  refine ⟨?_, ?_, ?_, splice_selfReference, ?_⟩
  · rcases splice_cases labels several with ⟨short, label, ok, -⟩ | ⟨long, err⟩
    · exact iff_of_true ⟨label, ok⟩ short
    · refine iff_of_false ?_ (Nat.not_le.mpr long)
      rintro ⟨label, ok⟩
      rw [err] at ok
      cases ok
  · rcases splice_cases labels several with ⟨-, label, ok, -⟩ | ⟨-, err⟩
    · exact Or.inl ⟨label, ok⟩
    · exact Or.inr err
  · intro label spliced
    rcases splice_cases labels several with ⟨-, other, ok, bits⟩ | ⟨-, err⟩
    · cases ok.symm.trans spliced
      rw [← length_payload, bits]
      exact ⟨rfl, rfl⟩
    · rw [err] at spliced
      cases spliced
  · rintro groups rfl nonempty manyGroups
    exact spliceGroups_splice groups nonempty manyGroups

/-- A label and the first hop before it. -/
def twoHops : List (RoutingLabel 64) := [⟨0x14, by decide, by decide⟩, ⟨0x12, by decide, by decide⟩]

/-- Four bits each are spliced to eight. -/
theorem two_hops_spliced :
    ∃ label : RoutingLabel 64, splice twoHops = .ok label ∧ label.bits = 0x142 ∧
      labelHighestSetBit label = (twoHops.map labelHighestSetBit).sum ∧
      payload label = twoHops.flatMap payload := by
  have spliced : splice twoHops = .ok ⟨0x142, by decide, by decide⟩ := by decide
  exact ⟨_, spliced, rfl, (splice_monoid twoHops (by decide)).2.2.1 _ spliced⟩

end RouteServer.Splice
