import RouteServer.Core.BuildLabel
import RouteServer.Core.Interfaces
import RouteServer.Core.OneHop

/-!
# Room for the way back

Switches replace the director to the next hop by the one to the hop before, so a label of a
path keeps its length only if each director to a next hop is as wide as the one back. Where
it is narrower it is re-encoded in the form of the label back. Forms are compared by all
their bits, but ordered by those of the director alone: a wider form may hold fewer
directors, and a director that does not fit it becomes another one.
-/

namespace RouteServer.Splice

open Rust Encoding Labels FormRecognition

variable {width : Nat}

/-- The interface that a director stands for in a form of a scheme. -/
def interfaceIn (scheme : EncodingScheme) (num dir : Nat) : Option Nat :=
  if scheme = v358 then interfaceOf num dir else some dir

/-- The interface of the first director of a label. -/
def interfaceAt (scheme : EncodingScheme) (label : RoutingLabel width) : Option Nat :=
  match getEncodingForm label scheme with
  | .ok (form, num) => (getDirector label form).toOption.bind (interfaceIn scheme num)
  | _ => none

/-- A label used for a hop leaves room for the way back, and leads to the next hop. -/
def Reserves (hop : PathHop width) (used : RoutingLabel width) : Prop :=
  ∃ labelP labelN formP numP form num, hop.labelP = some labelP ∧ hop.labelN = some labelN ∧
    getEncodingForm labelP hop.encodingScheme = .ok (formP, numP) ∧
    getEncodingForm used hop.encodingScheme = .ok (form, num) ∧
    formP.bitCount + formP.prefixLen ≤ form.bitCount + form.prefixLen ∧
    interfaceAt hop.encodingScheme used = interfaceAt hop.encodingScheme labelN

/-- If the form of the label back is the wider one, it has the bits for the director to the
next hop. -/
def HoldsNext (hop : PathHop width) : Prop :=
  ∀ labelP labelN formP numP formN numN dir, hop.labelP = some labelP →
    hop.labelN = some labelN →
    getEncodingForm labelP hop.encodingScheme = .ok (formP, numP) →
    getEncodingForm labelN hop.encodingScheme = .ok (formN, numN) →
    getDirector labelN formN = .ok dir →
    formN.bitCount + formN.prefixLen < formP.bitCount + formP.prefixLen →
    dir < 2 ^ formP.bitCount

/-- The labels of a hop are of one hop. -/
def OneHopLabels (hop : PathHop width) : Prop :=
  ∀ label ∈ hop.labelP.toList ++ hop.labelN.toList, isOneHop label hop.encodingScheme = .ok true

instance (hop : PathHop width) : Decidable (OneHopLabels hop) :=
  inferInstanceAs (Decidable (∀ label ∈ hop.labelP.toList ++ hop.labelN.toList,
    isOneHop label hop.encodingScheme = .ok true))

section

variable {scheme : EncodingScheme} {label result : RoutingLabel width} {num targetNum : Nat}
  {form target : EncodingSchemeForm} {dir above : Nat}

/-- The interface at the front of a label is that of its form and director. -/
theorem interfaceAt_of_director (recognized : getEncodingForm label scheme = .ok (form, num))
    (got : getDirector label form = .ok dir) :
    interfaceAt scheme label = interfaceIn scheme num dir := by
  rw [interfaceAt, recognized]
  dsimp only
  rw [got]
  rfl

/-- As much of a director as the form holds can be read. -/
theorem encodeDirector_director (form : EncodingSchemeForm) (dir above : Nat) :
    encodeDirector form dir above / 2 ^ form.prefixLen % 2 ^ form.bitCount =
      dir % 2 ^ form.bitCount := by
  rw [encodeDirector_spill, encodeDirector_eq _ _ _ (Nat.mod_lt _ (Nat.two_pow_pos _)),
    Nat.mul_add_div (Nat.two_pow_pos _), Nat.div_eq_of_lt form.prefixBits_lt, Nat.add_zero,
    Nat.mul_add_mod, Nat.mod_mod]

/-- A re-encoded label has the form asked for, and as much of the director as it holds.

Proof: the form asked for is recognized by its prefix, which the low bits of the result show,
and the director stands right above it. -/
theorem reEncode_director (separate : PrefixFree scheme)
    (placed : scheme.forms[targetNum]? = some target)
    (room : target.bitCount + target.prefixLen ≤ width)
    (written : WrittenIn scheme label num form dir above)
    (encoded : reEncode label scheme (some targetNum) = .ok result) :
    ∃ adjusted, adjustDirector width scheme form target dir = .ok adjusted ∧
      getEncodingForm result scheme = .ok (target, targetNum) ∧
      getDirector result target = .ok (adjusted % 2 ^ target.bitCount) := by
  obtain ⟨labelForm, index, desired, adjusted, bits, recognized, found, adjusts, writes, same⟩ :=
    reEncode_ok encoded
  cases (written.recognized separate).symm.trans recognized
  cases placed.symm.trans found
  rw [written.dir_eq] at adjusts
  generalize label.bits / 2 ^ (form.bitCount + form.prefixLen) = rest at writes
  -- the low bits of the result are those of the form
  have low : result.bits % 2 ^ (target.prefixLen + target.bitCount) =
      encodeDirector target adjusted rest % 2 ^ (target.prefixLen + target.bitCount) := by
    rw [same, Nat.mod_mod_of_dvd _ (Nat.pow_dvd_pow 2 (by omega)),
      writeDirector_mod (by omega) writes]
  have matched : Matches result.bits target := by
    have shorter := congrArg (· % 2 ^ target.prefixLen) low
    simp only [Nat.mod_mod_of_dvd _ (Nat.pow_dvd_pow 2 (Nat.le_add_right _ target.bitCount))]
      at shorter
    exact shorter.trans (encodeDirector_matches target adjusted _)
  have again : getEncodingForm result scheme = .ok (target, targetNum) :=
    (getEncodingForm_ok_iff _ _ _ _).mpr ⟨placed, matched,
      (noneBefore_iff_of_prefixFree separate placed matched targetNum).mpr le_rfl⟩
  have director : result.bits / 2 ^ target.prefixLen % 2 ^ target.bitCount =
      adjusted % 2 ^ target.bitCount := by
    rw [Nat.pow_add] at low
    rw [← Nat.mod_mul_right_div_self, low, Nat.mod_mul_right_div_self, encodeDirector_director]
  refine ⟨adjusted, adjusts, again, ?_⟩
  rw [(writtenIn_of_recognized again).getDirector_eq room, director]

/-- The wider forms of `V358` hold more directors, and number interfaces as they are. -/
theorem v358_wider (placed : v358.forms[num]? = some form)
    (targetPlaced : v358.forms[targetNum]? = some target)
    (wider : form.bitCount + form.prefixLen < target.bitCount + target.prefixLen) :
    targetNum ≠ 0 ∧ is358ZeroForm target = false ∧ form.bitCount < target.bitCount := by
  rcases v358_forms placed with ⟨rfl, ⟨count, length, -⟩, -⟩ | ⟨rfl, ⟨count, length, -⟩, -⟩ |
    ⟨rfl, ⟨count, length, -⟩, -⟩ <;>
    rcases v358_forms targetPlaced with ⟨rfl, ⟨targetCount, targetLength, -⟩, zero⟩ |
      ⟨rfl, ⟨targetCount, targetLength, -⟩, zero⟩ |
      ⟨rfl, ⟨targetCount, targetLength, -⟩, zero⟩ <;>
    first | omega | exact ⟨by decide, zero, by omega⟩

/-- A wider form of `V358` keeps the interface, if there is one.

Proof: the form asked for is wider than the one the label has, so it is not the first one, and
its number of the interface is the interface itself. -/
theorem interface_widened (wide : 32 ≤ width) (written : WrittenIn v358 label num form dir above)
    (targetPlaced : v358.forms[targetNum]? = some target)
    (wider : form.bitCount + form.prefixLen < target.bitCount + target.prefixLen)
    {adjusted : Nat} (adjusts : adjustDirector width v358 form target dir = .ok adjusted) :
    dir < 2 ^ target.bitCount ∧
      interfaceOf targetNum (adjusted % 2 ^ target.bitCount) = interfaceOf num dir := by
  obtain ⟨notFirst, notZeroForm, more⟩ := v358_wider written.placed targetPlaced wider
  have fits : dir < 2 ^ target.bitCount :=
    written.fits.trans (Nat.pow_lt_pow_right (by decide) more)
  refine ⟨fits, ?_⟩
  cases denotes : interfaceOf num dir with
  | none =>
    -- the director zero of the first form is refused
    have refused : adjustDirector width v358 form target dir = .err .cannotReencode := by
      rw [interfaceOf] at denotes
      split_ifs at denotes with first zero
      rcases v358_forms written.placed with ⟨-, -, zeroForm⟩ | ⟨rfl, -⟩ | ⟨rfl, -⟩
      · rw [adjustDirector, if_pos rfl, zero]
        dsimp only
        rw [if_pos zeroForm]
        rfl
      · cases first
      · cases first
    cases refused.symm.trans adjusts
  | some interface =>
    have kept : adjusted = interface := by
      rw [adjustDirector_v358 wide written denotes, renumbered, notZeroForm, Bool.false_and,
        if_neg Bool.false_ne_true] at adjusts
      exact (Outcome.ok.inj adjusts).symm
    have low : interface ≤ dir := by
      rw [interfaceOf_iff] at denotes
      split_ifs at denotes <;> omega
    rw [kept, Nat.mod_eq_of_lt (low.trans_lt fits), interfaceOf, if_neg notFirst]

end

section

variable {hop : PathHop width} {used labelP labelN : RoutingLabel width} {numP numN : Nat}
  {formP formN : EncodingSchemeForm} {dirN : Nat}

/-- With both forms and the director at hand only the widths are left to compare. -/
theorem holdsNext_iff (hasP : hop.labelP = some labelP) (hasN : hop.labelN = some labelN)
    (recognizedP : getEncodingForm labelP hop.encodingScheme = .ok (formP, numP))
    (recognizedN : getEncodingForm labelN hop.encodingScheme = .ok (formN, numN))
    (got : getDirector labelN formN = .ok dirN) :
    HoldsNext hop ↔
      (formN.bitCount + formN.prefixLen < formP.bitCount + formP.prefixLen →
        dirN < 2 ^ formP.bitCount) := by
  constructor
  · intro holds wider
    exact holds labelP labelN formP numP formN numN dirN hasP hasN recognizedP recognizedN got
      wider
  · intro holds _ _ _ _ _ _ _ isP isN againP againN gotAgain wider
    cases hasP.symm.trans isP
    cases hasN.symm.trans isN
    cases recognizedP.symm.trans againP
    cases recognizedN.symm.trans againN
    cases got.symm.trans gotAgain
    exact holds wider

/-- A label in a form that is wide enough leaves the room, so only the interface is in question. -/
theorem reserves_iff (hasP : hop.labelP = some labelP) (hasN : hop.labelN = some labelN)
    (recognizedP : getEncodingForm labelP hop.encodingScheme = .ok (formP, numP))
    {form : EncodingSchemeForm} {num : Nat}
    (recognized : getEncodingForm used hop.encodingScheme = .ok (form, num))
    (wider : formP.bitCount + formP.prefixLen ≤ form.bitCount + form.prefixLen) :
    Reserves hop used ↔
      interfaceAt hop.encodingScheme used = interfaceAt hop.encodingScheme labelN := by
  constructor
  · rintro ⟨_, _, _, _, _, _, _, isN, -, -, -, same⟩
    cases hasN.symm.trans isN
    exact same
  · intro same
    exact ⟨labelP, labelN, formP, numP, form, num, hasP, hasN, recognizedP, recognized, wider,
      same⟩

/-- The label used for a hop reserves the way back exactly if the form of the label back
holds the director, should it be the wider one.

Proof: by whether the label back has the wider form. If it does not, the label is used as it is;
if it does, it is re-encoded, and the director keeps or loses its bits by its size. -/
theorem midLabel_reserves_iff (wide : 32 ≤ width) (separate : PrefixFree hop.encodingScheme)
    (oneHop : OneHopLabels hop) (chosen : midLabel hop = .ok used) :
    Reserves hop used ↔ HoldsNext hop := by
  rw [midLabel] at chosen
  split at chosen
  · next labelP labelN hasP hasN =>
    obtain ⟨numP, formP, dirP, writtenP⟩ :=
      (isOneHop_iff separate labelP).mp (oneHop labelP (by simp [hasP]))
    obtain ⟨numN, formN, dirN, writtenN⟩ :=
      (isOneHop_iff separate labelN).mp (oneHop labelN (by simp [hasN]))
    have recognizedP := writtenP.recognized separate
    have recognizedN := writtenN.recognized separate
    have roomP := (writtenP.room Nat.one_ne_zero).le
    have got := writtenN.getDirector_eq (writtenN.room Nat.one_ne_zero).le
    rw [recognizedP, Outcome.ok_bind] at chosen
    dsimp only at chosen
    rw [recognizedN, Outcome.ok_bind] at chosen
    dsimp only at chosen
    rw [holdsNext_iff hasP hasN recognizedP recognizedN got]
    split at chosen
    · next wider =>
      obtain ⟨adjusted, adjusts, recognized, gotUsed⟩ :=
        reEncode_director separate writtenP.placed roomP writtenN chosen
      rw [reserves_iff hasP hasN recognizedP recognized le_rfl,
        interfaceAt_of_director recognized gotUsed, interfaceAt_of_director recognizedN got]
      by_cases special : hop.encodingScheme = v358
      · rw [special] at writtenN writtenP adjusts
        obtain ⟨fits, same⟩ := interface_widened wide writtenN writtenP.placed wider adjusts
        simp only [interfaceIn, if_pos special]
        exact iff_of_true same fun _ => fits
      · have plain : adjusted = dirN := by
          rw [adjustDirector, if_neg special] at adjusts
          exact (Outcome.ok.inj adjusts).symm
        simp only [interfaceIn, if_neg special, plain, Option.some.injEq]
        rw [Nat.mod_eq_iff_lt (Nat.two_pow_pos _).ne']
        exact ⟨fun fits _ => fits, fun fits => fits wider⟩
    · next narrow =>
      cases chosen
      rw [reserves_iff hasP hasN recognizedP recognizedN (Nat.not_lt.mp narrow)]
      exact iff_of_true rfl fun wider => absurd wider narrow
  · cases chosen

end

/-- In a path whose schemes have separate prefixes and whose labels are of one hop each, the
built path reserves the way back at every hop between the first and the last, and leads to
the same interfaces, if and only if no such hop has a director that the wider form of the
label back does not hold.

Proof: each label between the ends is the one to the next hop, in its own form or in the wider one
of the label back. In the wider form it keeps its interface exactly if its director fits. -/
theorem reverse_path_reserved_iff (wide : 32 ≤ width) {pathHops : List (PathHop width)}
    (separate : ∀ hop ∈ pathHops, PrefixFree hop.encodingScheme)
    (oneHop : ∀ hop ∈ pathHops, OneHopLabels hop) {label : RoutingLabel width}
    {path : List (RoutingLabel width)} (built : buildLabel pathHops = .ok (label, path)) :
    (∀ index hop, 0 < index → index + 1 < pathHops.length → pathHops[index]? = some hop →
        ∃ used, path[index]? = some used ∧ Reserves hop used) ↔
      ∀ index hop, 0 < index → index + 1 < pathHops.length → pathHops[index]? = some hop →
        HoldsNext hop := by
  have each : ∀ index hop, 0 < index → index + 1 < pathHops.length →
      pathHops[index]? = some hop →
      ∃ used, path[index]? = some used ∧ (Reserves hop used ↔ HoldsNext hop) := by
    intro index hop positive inside placed
    obtain ⟨used, usedAt, chosen⟩ := buildLabel_hop built positive inside placed
    have member := List.mem_of_getElem? placed
    exact ⟨used, usedAt,
      midLabel_reserves_iff wide (separate hop member) (oneHop hop member) chosen⟩
  constructor
  · intro reserved index hop positive inside placed
    obtain ⟨used, usedAt, both⟩ := each index hop positive inside placed
    obtain ⟨again, againAt, reserves⟩ := reserved index hop positive inside placed
    cases usedAt.symm.trans againAt
    exact both.mp reserves
  · intro holds index hop positive inside placed
    obtain ⟨used, usedAt, both⟩ := each index hop positive inside placed
    exact ⟨used, usedAt, both.mpr (holds index hop positive inside placed)⟩

/-- The hop in the middle has a label to the next hop that is narrower than the one back. -/
theorem three_hops_reserved :
    (∀ index hop, 0 < index → index + 1 < threeHops.length → threeHops[index]? = some hop →
        ∃ used, ([⟨0x15, by decide, by decide⟩, ⟨0x92, by decide, by decide⟩] :
          List (RoutingLabel 64))[index]? = some used ∧ Reserves hop used) ∧
      ∀ index hop, 0 < index → index + 1 < threeHops.length → threeHops[index]? = some hop →
        HoldsNext hop := by
  have separate : ∀ hop ∈ threeHops, PrefixFree hop.encodingScheme := by
    have schemes : ∀ hop ∈ threeHops, hop.encodingScheme = v358 := by decide
    intro hop member
    rw [schemes hop member]
    exact v358_prefixFree
  have built : buildLabel threeHops = .ok (⟨0x925, by decide, by decide⟩,
      [⟨0x15, by decide, by decide⟩, ⟨0x92, by decide, by decide⟩]) := by decide
  have reserved : ∀ index hop, 0 < index → index + 1 < threeHops.length →
      threeHops[index]? = some hop →
      ∃ used, ([⟨0x15, by decide, by decide⟩, ⟨0x92, by decide, by decide⟩] :
        List (RoutingLabel 64))[index]? = some used ∧ Reserves hop used := by
    intro index hop positive inside placed
    have three : threeHops.length = 3 := rfl
    obtain rfl : index = 1 := by omega
    cases placed
    exact ⟨_, rfl, _, _, ⟨5, 2, 2, by decide, by decide, by decide, by decide⟩, 1,
      ⟨5, 2, 2, by decide, by decide, by decide, by decide⟩, 1, rfl, rfl, by decide, by decide,
      le_rfl, by decide⟩
  exact ⟨reserved, (reverse_path_reserved_iff (by decide) separate (by decide) built).mp reserved⟩

/-- A scheme whose wider form is the one with the smaller directors. -/
def unevenForms : EncodingScheme := ⟨formsOf [(3, 9, 1), (8, 1, 0)], by decide⟩

/-- A path in whose middle the label to the next hop has the director 9 in the narrower form,
which the form of the label back does not hold. -/
def unevenHops : List (PathHop 64) :=
  [⟨none, some ⟨0xaa, by decide, by decide⟩, v358⟩,
    ⟨some ⟨0x1a01, by decide, by decide⟩, some ⟨0x212, by decide, by decide⟩, unevenForms⟩,
    ⟨some labelBack, none, v358⟩]

/-- The director 9 has become 1. -/
theorem nine_leads_to_one :
    ¬∀ (pathHops : List (PathHop 64)) (label : RoutingLabel 64) (path : List (RoutingLabel 64)),
      (∀ hop ∈ pathHops, PrefixFree hop.encodingScheme) →
      (∀ hop ∈ pathHops, OneHopLabels hop) → buildLabel pathHops = .ok (label, path) →
      ∀ index hop, 0 < index → index + 1 < pathHops.length → pathHops[index]? = some hop →
        ∃ used, path[index]? = some used ∧ Reserves hop used := by
  intro claimed
  have separate : ∀ hop ∈ unevenHops, PrefixFree hop.encodingScheme := by
    have schemes : ∀ hop ∈ unevenHops,
        hop.encodingScheme = v358 ∨ hop.encodingScheme = unevenForms := by decide
    intro hop member
    rcases schemes hop member with same | same
    · rw [same]
      exact v358_prefixFree
    · rw [same]
      exact prefixFree_of_pairwise (by decide)
  have built : buildLabel unevenHops = .ok (⟨0x900aa, by decide, by decide⟩,
      [⟨0xaa, by decide, by decide⟩, ⟨0x1201, by decide, by decide⟩]) := by decide
  obtain ⟨used, usedAt, labelP, labelN, _, _, _, _, -, isNext, -, -, -, same⟩ :=
    claimed unevenHops _ _ separate (by decide) built 1 _ (by decide) (by decide) rfl
  cases usedAt
  cases isNext
  revert same
  decide

end RouteServer.Splice
