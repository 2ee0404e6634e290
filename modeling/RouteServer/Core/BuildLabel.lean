import Mathlib.Data.List.Forall2
import RouteServer.Core.ReEncode

/-!
# Building the label of a path

A path is a list of hops, each with the labels to the hops before and after it. The
label to the next hop must be at least as wide as the one back, so that the way back
fits into it, and is re-encoded otherwise. The label of the path is the splice of the
labels to the next hops. Every part of the path is a hop on its way, and unsplicing hop
by hop leads to the last one.
-/

namespace RouteServer.Splice

open Rust Encoding Labels

variable {width : Nat}

/-- `PathHop`. -/
structure PathHop (width : Nat) where
  labelP : Option (RoutingLabel width)
  labelN : Option (RoutingLabel width)
  encodingScheme : EncodingScheme

/-- The label that `build_label_impl` uses for a hop between the first and the last. -/
def midLabel (hop : PathHop width) : Outcome SpliceError (RoutingLabel width) :=
  match hop.labelP, hop.labelN with
  | some labelP, some labelN => do
    let (formLabelP, formIdx) ← getEncodingForm labelP hop.encodingScheme
    let (formLabelN, _) ← getEncodingForm labelN hop.encodingScheme
    if formLabelP.bitCount + formLabelP.prefixLen > formLabelN.bitCount + formLabelN.prefixLen then
      reEncode labelN hop.encodingScheme (some formIdx)
    else .ok labelN
  | _, _ => .err .badArgument

/-- The loop of `build_label_impl`. -/
def midLabels : List (PathHop width) → Outcome SpliceError (List (RoutingLabel width))
  | [] => .ok []
  | hop :: midHops => do
    let label ← midLabel hop
    let labels ← midLabels midHops
    return label :: labels

/-- `build_label_impl`. -/
def buildLabelImpl (firstHop : PathHop width) (midHops : List (PathHop width))
    (lastHop : PathHop width) :
    Outcome SpliceError (RoutingLabel width × List (RoutingLabel width)) :=
  match firstHop.labelN, lastHop.labelP, firstHop.labelP, lastHop.labelN with
  | some firstHopLabelN, some _, none, none => do
    let labels ← midLabels midHops
    let retPath := firstHopLabelN :: labels
    let retLabel ←
      (if retPath.length > 1 then splice retPath.reverse else .ok firstHopLabelN)
    return (retLabel, retPath)
  | _, _, _, _ => .err .badArgument

/-- `build_label`. -/
def buildLabel (pathHops : List (PathHop width)) :
    Outcome SpliceError (RoutingLabel width × List (RoutingLabel width)) :=
  if pathHops.length < 2 then .err .notEnoughArguments
  else match pathHops.head?, pathHops.getLast? with
    | some firstHop, some lastHop => buildLabelImpl firstHop pathHops.tail.dropLast lastHop
    | _, _ => .panicked

/-- A label used for a hop: the one to the next hop, or that label in the form of the
label to the hop before. -/
def UsedFor (hop : PathHop width) (label : RoutingLabel width) : Prop :=
  ∃ labelN, hop.labelN = some labelN ∧
    (label = labelN ∨ ∃ labelP form formIdx, hop.labelP = some labelP ∧
      getEncodingForm labelP hop.encodingScheme = .ok (form, formIdx) ∧
      reEncode labelN hop.encodingScheme (some formIdx) = .ok label)

/-- Unsplice the hops of a path one after the other. -/
def unspliceAll (label : RoutingLabel width) :
    List (RoutingLabel width) → Outcome SpliceError (RoutingLabel width)
  | [] => .ok label
  | hop :: path => do
    let rest ← unsplice label hop
    unspliceAll rest path

/-- The label that is used for a hop is the one to the next hop, as it is or in the form of the
label back. -/
theorem usedFor_of_midLabel {hop : PathHop width} {label : RoutingLabel width}
    (used : midLabel hop = .ok label) : UsedFor hop label := by
  rw [midLabel] at used
  split at used
  · next labelP labelN hasP hasN =>
    obtain ⟨⟨formP, formIdx⟩, recognized, afterP⟩ := (Outcome.bind_ok_iff _ _ _).mp used
    obtain ⟨⟨formN, index⟩, -, afterN⟩ := (Outcome.bind_ok_iff _ _ _).mp afterP
    refine ⟨labelN, hasN, ?_⟩
    dsimp only at afterN
    split at afterN
    · exact Or.inr ⟨labelP, formP, formIdx, hasP, recognized, afterN⟩
    · cases afterN
      exact Or.inl rfl
  · cases used

/-- The loop finds one label for each hop. -/
theorem midLabels_each {midHops : List (PathHop width)} {labels : List (RoutingLabel width)}
    (used : midLabels midHops = .ok labels) :
    List.Forall₂ (fun hop label => midLabel hop = .ok label) midHops labels := by
  induction midHops generalizing labels with
  | nil =>
    cases used
    exact .nil
  | cons hop midHops inductionHypothesis =>
    obtain ⟨label, first, afterFirst⟩ := (Outcome.bind_ok_iff _ _ _).mp used
    obtain ⟨rest, others, built⟩ := (Outcome.bind_ok_iff _ _ _).mp afterFirst
    cases built
    exact .cons first (inductionHypothesis others)

/-- The label of a path with labels as they should be at both ends. -/
theorem buildLabel_of_ends {firstHop lastHop : PathHop width} {firstLabel : RoutingLabel width}
    (hasNext : firstHop.labelN = some firstLabel) (hasPrev : lastHop.labelP.isSome)
    (noPrev : firstHop.labelP = none) (noNext : lastHop.labelN = none)
    (midHops : List (PathHop width)) :
    buildLabel (firstHop :: (midHops ++ [lastHop])) = (do
      let labels ← midLabels midHops
      let label ← spliceGroup (firstLabel :: labels).reverse
      return (label, firstLabel :: labels)) := by
  obtain ⟨lastLabel, isLast⟩ := Option.isSome_iff_exists.mp hasPrev
  have several : ¬(firstHop :: (midHops ++ [lastHop])).length < 2 := by simp
  have last : (firstHop :: (midHops ++ [lastHop])).getLast? = some lastHop :=
    List.getLast?_concat (l := firstHop :: midHops)
  rw [buildLabel, if_neg several, List.head?_cons, last, List.tail_cons, List.dropLast_concat]
  simp only [buildLabelImpl, hasNext, isLast, noPrev, noNext]
  congr
  funext labels
  cases labels with
  | nil => rfl
  | cons second labels =>
    rw [if_pos (by simp), spliceGroup_of_several (by simp)]

/-- What a built label is made of: hops with labels as at both ends of a path, labels
used for the hops between, and their splice with the label of the first one.

Proof: a path of at least two hops has a first hop, hops between and a last hop. The check of
the labels at both ends leaves one branch, and the two calls in it give the rest. -/
theorem buildLabel_ok {pathHops : List (PathHop width)} {label : RoutingLabel width}
    {path : List (RoutingLabel width)} (built : buildLabel pathHops = .ok (label, path)) :
    ∃ firstHop midHops lastHop firstLabel labels,
      pathHops = firstHop :: (midHops ++ [lastHop]) ∧ path = firstLabel :: labels ∧
        firstHop.labelN = some firstLabel ∧ midLabels midHops = .ok labels ∧
        spliceGroup path.reverse = .ok label := by
  have several : ¬pathHops.length < 2 := by
    intro few
    rw [buildLabel, if_pos few] at built
    cases built
  obtain ⟨firstHop, rest, rfl⟩ :=
    List.exists_cons_of_ne_nil (List.ne_nil_of_length_pos (by omega : 0 < pathHops.length))
  obtain ⟨midHops, lastHop, rfl⟩ : ∃ midHops lastHop, rest = midHops ++ [lastHop] := by
    rcases List.eq_nil_or_concat rest with rfl | ⟨midHops, lastHop, concat⟩
    · exact absurd Nat.one_lt_two several
    · exact ⟨midHops, lastHop, concat.trans List.concat_eq_append⟩
  have ends : ∃ firstLabel, firstHop.labelN = some firstLabel ∧ lastHop.labelP.isSome ∧
      firstHop.labelP = none ∧ lastHop.labelN = none := by
    have last : (firstHop :: (midHops ++ [lastHop])).getLast? = some lastHop :=
      List.getLast?_concat (l := firstHop :: midHops)
    rw [buildLabel, if_neg several, List.head?_cons, last] at built
    dsimp only [buildLabelImpl] at built
    split at built
    · next firstLabel _ hasNext hasPrev noPrev noNext =>
      exact ⟨firstLabel, hasNext, by rw [hasPrev]; rfl, noPrev, noNext⟩
    · cases built
  obtain ⟨firstLabel, hasNext, hasPrev, noPrev, noNext⟩ := ends
  rw [buildLabel_of_ends hasNext hasPrev noPrev noNext] at built
  obtain ⟨labels, used, afterLabels⟩ := (Outcome.bind_ok_iff _ _ _).mp built
  obtain ⟨retLabel, spliced, returned⟩ := (Outcome.bind_ok_iff _ _ _).mp afterLabels
  cases returned
  exact ⟨firstHop, midHops, lastHop, firstLabel, labels, rfl, rfl, hasNext, used, spliced⟩

/-- The path has the label found for each hop between the first and the last. -/
theorem buildLabel_hop {pathHops : List (PathHop width)} {label : RoutingLabel width}
    {path : List (RoutingLabel width)} (built : buildLabel pathHops = .ok (label, path))
    {index : Nat} {hop : PathHop width} (positive : 0 < index)
    (inside : index + 1 < pathHops.length) (placed : pathHops[index]? = some hop) :
    ∃ used, path[index]? = some used ∧ midLabel hop = .ok used := by
  obtain ⟨firstHop, midHops, lastHop, firstLabel, labels, rfl, rfl, -, used, -⟩ :=
    buildLabel_ok built
  have each := midLabels_each used
  obtain ⟨place, rfl⟩ : ∃ place, index = place + 1 := ⟨index - 1, by omega⟩
  have hopInside : place < midHops.length := by simpa using inside
  have labelInside : place < labels.length := each.length_eq ▸ hopInside
  rw [List.getElem?_cons_succ, List.getElem?_append_left hopInside] at placed
  obtain ⟨_, rfl⟩ := List.getElem?_eq_some_iff.mp placed
  refine ⟨labels[place], ?_, each.get hopInside labelInside⟩
  rw [List.getElem?_cons_succ, List.getElem?_eq_getElem labelInside]

/-- The label of a suffix of spliced labels exists as well. -/
theorem spliceGroup_suffix {front back : List (RoutingLabel width)} {label : RoutingLabel width}
    (nonempty : back ≠ []) (spliced : spliceGroup (front ++ back) = .ok label) :
    ∃ mid, spliceGroup back = .ok mid ∧ payload mid = payloads back := by
  rcases spliceGroup_cases back nonempty with found | ⟨long, failed⟩
  · exact found
  · have several : 2 ≤ (front ++ back).length := by
      match back, nonempty, failed with
      | first :: second :: rest, _, _ =>
        simp only [List.length_append, List.length_cons]
        omega
    rw [spliceGroup_of_several several] at spliced
    rcases splice_cases (front ++ back) several with ⟨short, -⟩ | ⟨-, tooLong⟩
    · rw [payloads_append, List.length_append] at short
      omega
    · rw [tooLong] at spliced
      cases spliced

/-- Unsplicing the hops of a path, the first one first, leaves nothing. -/
theorem unspliceAll_eq [NeZero width] {path : List (RoutingLabel width)}
    {label : RoutingLabel width} (bits : payload label = payloads path.reverse) :
    unspliceAll label path = .ok selfReference := by
  induction path generalizing label with
  | nil => exact congrArg Outcome.ok (payload_injective bits)
  | cons hop path inductionHypothesis =>
    have split : payload label = payloads path.reverse ++ payload hop := by
      rw [bits, List.reverse_cons, payloads_append]
      simp [payloads]
    obtain ⟨rest, unspliced, restBits⟩ := unsplice_of_append split
    rw [unspliceAll, unspliced, Outcome.ok_bind]
    exact inductionHypothesis restBits

/-- **A built label leads along its path.** The path has a label for each hop but the
last, that of the first hop as it is and the others as they are or re-encoded. The label
routes through the splice of every first part of the path, and unsplicing the path hop by
hop leaves the self-reference.

Proof: the payload of the built label is that of its labels from the last to the first. Every
first part of the path is a suffix of it, which is what routing through means and what unsplicing
takes off. -/
theorem buildLabel_leads_along [NeZero width] (pathHops : List (PathHop width))
    (label : RoutingLabel width) (path : List (RoutingLabel width))
    (built : buildLabel pathHops = .ok (label, path)) :
    path.length + 1 = pathHops.length ∧
      path.head? = pathHops.head?.bind PathHop.labelN ∧
      (∀ index hop used, 0 < index → pathHops[index]? = some hop → path[index]? = some used →
        UsedFor hop used) ∧
      (∀ count, 0 < count → count ≤ path.length →
        ∃ mid, spliceGroup (path.take count).reverse = .ok mid ∧
          routesThrough label mid = true) ∧
      unspliceAll label path = .ok selfReference := by
  obtain ⟨firstHop, midHops, lastHop, firstLabel, labels, rfl, rfl, hasFirst, used, spliced⟩ :=
    buildLabel_ok built
  have sameLength := (midLabels_each used).length_eq
  have bits : payload label = payloads (firstLabel :: labels).reverse := by
    have whole : spliceGroup ([] ++ (firstLabel :: labels).reverse) = .ok label := spliced
    have nonempty : (firstLabel :: labels).reverse ≠ [] := by simp
    obtain ⟨same, again, wholeBits⟩ := spliceGroup_suffix nonempty whole
    cases again.symm.trans spliced
    exact wholeBits
  refine ⟨by simp [sameLength], by simp [hasFirst], ?_, ?_, unspliceAll_eq bits⟩
  · intro index hop label positive hopAt labelAt
    have inside : index < (firstLabel :: labels).length :=
      (List.getElem?_eq_some_iff.mp labelAt).1
    obtain ⟨used, usedAt, chosen⟩ := buildLabel_hop built positive
      (by simpa [sameLength] using inside) hopAt
    cases labelAt.symm.trans usedAt
    exact usedFor_of_midLabel chosen
  · intro count positive inside
    have split : (firstLabel :: labels).reverse =
        ((firstLabel :: labels).drop count).reverse ++
          ((firstLabel :: labels).take count).reverse := by
      rw [← List.reverse_append, List.take_append_drop]
    have nonempty : ((firstLabel :: labels).take count).reverse ≠ [] := by
      simp
      omega
    rw [split] at spliced bits
    obtain ⟨mid, midSpliced, midBits⟩ := spliceGroup_suffix nonempty spliced
    refine ⟨mid, midSpliced, (routesThrough_iff label mid).mpr ?_⟩
    rw [bits, midBits, payloads_append]
    exact List.suffix_append _ _

/-- The label back from the last hop. -/
def labelBack : RoutingLabel 64 := ⟨0x13, by decide, by decide⟩

/-- A path in whose middle the label to the next hop is shorter than the one back. -/
def threeHops : List (PathHop 64) :=
  [⟨none, some ⟨0x15, by decide, by decide⟩, v358⟩,
    ⟨some ⟨0xee, by decide, by decide⟩, some ⟨0x1b, by decide, by decide⟩, v358⟩,
    ⟨some labelBack, none, v358⟩]

/-- The label in the middle is re-encoded. -/
theorem three_hops_lead_along :
    ∃ label path, buildLabel threeHops = .ok (label, path) ∧
      path.map RoutingLabel.bits = [0x15, 0x92] ∧ label.bits = 0x925 ∧
      path.length + 1 = threeHops.length ∧ unspliceAll label path = .ok selfReference := by
  have built : buildLabel threeHops = .ok (⟨0x925, by decide, by decide⟩,
      [⟨0x15, by decide, by decide⟩, ⟨0x92, by decide, by decide⟩]) := by decide
  obtain ⟨lengths, -, -, -, leads⟩ := buildLabel_leads_along threeHops _ _ built
  exact ⟨_, _, built, rfl, rfl, lengths, leads⟩

end RouteServer.Splice
