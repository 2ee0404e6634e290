import RouteServer.Core.Interfaces

/-!
# Which interfaces re-encoding keeps

Re-encoding under `V358` keeps the interface of the first director, and what is above it,
for all directors but those that do not fit the form asked for and the director `0b111` in
the first form. Between forms that can hold the interface, only the director `0b111` of the
first form is not given back, when it is re-encoded into the form it has.
-/

namespace RouteServer.Splice

open Rust Encoding Labels FormRecognition

variable {width : Nat}

/-- The interface of the first director of a label. -/
def firstInterface (label : RoutingLabel width) : Option Nat :=
  match getEncodingForm label v358 with
  | .ok (form, num) => (getDirector label form).toOption.bind (interfaceOf num)
  | _ => none

/-- The bits above the first director of a label. -/
def aboveFirst (label : RoutingLabel width) : Option Nat :=
  match getEncodingForm label v358 with
  | .ok (form, _) => some (label.bits >>> (form.bitCount + form.prefixLen))
  | _ => none

/-- A form can hold an interface. -/
def Holds (num interface : Nat) : Prop :=
  ∃ form dir, v358.forms[num]? = some form ∧ dir < 2 ^ form.bitCount ∧
    interfaceOf num dir = some interface

/-- A director, and the interface it stands for, that re-encoding keeps for a form asked
for. -/
def Kept (dir interface : Nat) : Option Nat → Prop
  | none => dir ≠ 0b111
  | some 0 => dir < 0b111
  | some 1 => interface < 32
  | some _ => True

section

variable {label result : RoutingLabel width} {num targetNum : Nat}
  {form target : EncodingSchemeForm} {dir above interface : Nat} {desired : Option Nat}

/-- The interface of a written label is that of its form and director. -/
theorem WrittenIn.firstInterface_eq (written : WrittenIn v358 label num form dir above)
    (wide : 32 ≤ width) : firstInterface label = interfaceOf num dir := by
  rw [firstInterface, written.recognized v358_prefixFree]
  dsimp only
  rw [written.getDirector wide]
  rfl

/-- What is above the first director of a written label is what was written there. -/
theorem WrittenIn.aboveFirst_eq (written : WrittenIn v358 label num form dir above) :
    aboveFirst label = some above := by
  rw [aboveFirst, written.recognized v358_prefixFree]
  dsimp only
  rw [written.above_eq]

/-- The shortest form counts its interfaces from one, the others from zero. -/
theorem WrittenIn.numbering (written : WrittenIn v358 label num form dir above)
    (denotes : interfaceOf num dir = some interface) :
    (num = 0 ∧ dir = interface + 1 ∧ dir < 8) ∨ (num ≠ 0 ∧ dir = interface ∧ dir < 256) := by
  have small : dir < 256 := (written.small denotes).1
  have fits : dir < 2 ^ form.bitCount := written.fits
  rw [interfaceOf_iff] at denotes
  split_ifs at denotes with first
  · rcases v358_forms written.placed with ⟨-, ⟨count, -⟩, -⟩ | ⟨rfl, -⟩ | ⟨rfl, -⟩
    · rw [count] at fits
      exact Or.inl ⟨first, denotes, fits⟩
    · cases first
    · cases first
  · exact Or.inr ⟨first, denotes, small⟩

set_option maxRecDepth 4000 in
/-- The shortest form for a director. -/
theorem findShortestForm_v358 : ∀ dir < 256, (findShortestForm dir v358).toOption =
    v358.forms[if dir < 8 then 0 else if dir < 32 then 1 else 2]? := by
  decide +kernel

/-- No form of `V358` has two numbers. -/
theorem v358_num_unique {otherNum : Nat} (placed : v358.forms[num]? = some form)
    (again : v358.forms[otherNum]? = some form) : num = otherNum := by
  rcases v358_forms placed with ⟨rfl, ⟨count, -⟩, -⟩ | ⟨rfl, ⟨count, -⟩, -⟩ |
    ⟨rfl, ⟨count, -⟩, -⟩ <;>
    rcases v358_forms again with ⟨rfl, ⟨other, -⟩, -⟩ | ⟨rfl, ⟨other, -⟩, -⟩ |
      ⟨rfl, ⟨other, -⟩, -⟩ <;>
    omega

/-- What is kept, by the number of the form that is written. -/
theorem kept_iff_of_chosen (written : WrittenIn v358 label num form dir above)
    (denotes : interfaceOf num dir = some interface)
    (chosen : desiredForm dir v358 desired = .ok target)
    (placed : v358.forms[targetNum]? = some target) :
    Kept dir interface desired ↔
      (targetNum = 0 → dir < 7) ∧ (targetNum = 1 → interface < 32) := by
  obtain ⟨otherNum, again, asked⟩ := desiredForm_placed chosen
  cases v358_num_unique placed again
  have numbering := written.numbering denotes
  cases desired with
  | some wanted =>
    cases asked wanted rfl
    match targetNum with
    | 0 => simp [Kept]
    | 1 => simp [Kept]
    | _ + 2 => simp [Kept]
  | none =>
    have small : dir < 256 := by omega
    have shortest := findShortestForm_v358 dir small
    rw [desiredForm] at chosen
    rw [chosen] at shortest
    have same := v358_num_unique placed shortest.symm
    rw [Kept]
    split_ifs at same <;> omega

/-- The interface is kept, and nothing spills, exactly for those directors.

Proof: one case for each of the three forms that is asked for. A number that fits spills
nothing, and the number seven collides with the mark of the first form. -/
theorem renumbered_kept_iff (written : WrittenIn v358 label num form dir above)
    (denotes : interfaceOf num dir = some interface)
    (chosen : desiredForm dir v358 desired = .ok target)
    (placed : v358.forms[targetNum]? = some target) :
    (interfaceOf targetNum (renumbered target dir interface % 2 ^ target.bitCount) =
          some interface ∧
        above ||| renumbered target dir interface >>> target.bitCount = above) ↔
      Kept dir interface desired := by
  have numbering := written.numbering denotes
  rw [kept_iff_of_chosen written denotes chosen placed, renumbered]
  rcases v358_forms placed with ⟨rfl, ⟨count, -⟩, zero⟩ | ⟨rfl, ⟨count, -⟩, other⟩ |
    ⟨rfl, ⟨count, -⟩, other⟩
  · rw [count, zero, interfaceOf_iff, if_pos rfl, Bool.true_and]
    by_cases collides : dir = 7
    · rw [if_neg (by simp [collides])]
      omega
    · rw [if_pos (by simp [collides])]
      constructor
      · rintro ⟨same, -⟩
        omega
      · rintro ⟨fits, -⟩
        have noSpill : (interface + 1) >>> 3 = 0 := Nat.shiftRight_eq_zero _ _ (by omega)
        rw [noSpill, Nat.or_zero]
        omega
  · rw [count, other, Bool.false_and, if_neg Bool.false_ne_true, interfaceOf_iff,
      if_neg (by decide)]
    constructor
    · rintro ⟨same, -⟩
      omega
    · rintro ⟨-, fits⟩
      have noSpill : interface >>> 5 = 0 := Nat.shiftRight_eq_zero _ _ (by omega)
      rw [noSpill, Nat.or_zero]
      omega
  · rw [count, other, Bool.false_and, if_neg Bool.false_ne_true, interfaceOf_iff,
      if_neg (by decide)]
    have noSpill : interface >>> 8 = 0 := Nat.shiftRight_eq_zero _ _ (by omega)
    rw [noSpill, Nat.or_zero]
    omega

/-- Re-encoding a label into the form that it had gives it back, unless it is too long. -/
theorem reEncode_back (wide : 32 ≤ width) (written : WrittenIn v358 label num form dir above)
    {backDir : Nat}
    (rewritten : WrittenIn v358 result targetNum target backDir above)
    (same : interfaceOf targetNum backDir = some interface)
    (numbered : renumbered form backDir interface = dir) :
    reEncode result v358 (some num) =
      if restBitlen above + form.bitCount + form.prefixLen > maxPayloadBits width then
        .err .labelTooLong
      else .ok label := by
  have chosen : desiredForm backDir v358 (some num) = .ok form := by
    rw [desiredForm, written.placed]
  have built : labelOfWord width (encodeDirector form dir above) = some label := by
    rw [← written.bits, labelOfWord, RoutingLabel.tryNew, dif_pos]
    · exact congrArg some (RoutingLabel.ext (Nat.mod_eq_of_lt label.bounded))
    · rw [Nat.mod_eq_of_lt label.bounded]
      exact label.nonzero
  rw [reEncode_v358 wide rewritten same chosen, numbered, built, Option.elim_some]

/-- The director that gives back the one of the label, if it is kept. -/
theorem renumbered_back (written : WrittenIn v358 label num form dir above)
    (denotes : interfaceOf num dir = some interface) {backDir : Nat}
    (same : interfaceOf targetNum backDir = some interface)
    (kept : targetNum = 0 → dir < 7) : renumbered form backDir interface = dir := by
  have numbering := written.numbering denotes
  rw [interfaceOf_iff] at same
  rw [renumbered]
  rcases v358_forms written.placed with ⟨rfl, -, zero⟩ | ⟨rfl, -, other⟩ | ⟨rfl, -, other⟩
  · have apart : backDir ≠ 7 := by split_ifs at same <;> omega
    rw [zero, if_pos (by simpa using apart)]
    omega
  · rw [other, Bool.false_and, if_neg Bool.false_ne_true]
    omega
  · rw [other, Bool.false_and, if_neg Bool.false_ne_true]
    omega

/-- The only interface that a form can hold and that is not kept is the last one of the first
form, for a label that has this form. -/
theorem collision (written : WrittenIn v358 label num form dir above)
    (denotes : interfaceOf num dir = some interface)
    (placed : v358.forms[targetNum]? = some target) (holds : Holds targetNum interface)
    (lost : ¬((targetNum = 0 → dir < 7) ∧ (targetNum = 1 → interface < 32))) :
    num = 0 ∧ targetNum = 0 ∧ dir = 7 ∧ interface = 6 := by
  have numbering := written.numbering denotes
  obtain ⟨holder, held, holderPlaced, fits, same⟩ := holds
  rw [interfaceOf_iff] at same
  rcases v358_forms holderPlaced with ⟨rfl, ⟨count, -⟩, -⟩ | ⟨rfl, ⟨count, -⟩, -⟩ |
    ⟨rfl, ⟨count, -⟩, -⟩ <;>
    rw [count] at fits <;> split_ifs at same <;> omega

/-- The label that the last director of the first form is re-encoded to in that form is
another one, and is not changed any more. -/
theorem collided_back (wide : 32 ≤ width) (written : WrittenIn v358 label 0 form 7 above)
    (rewritten : WrittenIn v358 result 0 form 6 above)
    (short : restBitlen above + form.bitCount + form.prefixLen ≤ maxPayloadBits width) :
    reEncode result v358 (some 0) = .ok result ∧ result ≠ label := by
  have denotes : interfaceOf 0 6 = some 5 := by decide
  have back := reEncode_back wide rewritten rewritten denotes
    (renumbered_back rewritten denotes denotes fun _ => by decide)
  rw [if_neg (Nat.not_lt.mpr short)] at back
  refine ⟨back, ?_⟩
  rintro rfl
  have same := rewritten.dir_eq.symm.trans written.dir_eq
  cases same

/-- Re-encoding keeps the interface of a label and the bits above exactly for the directors
described, and gives back the label from a form that can hold the interface exactly for
them, unless the label itself is longer than a payload may be.

Proof: the label is written in a form with a director and the bits above. Re-encoding renumbers
the director, so the interface is kept unless a director has no number in the new form or spills
into the bits above, and the way back is the same with the forms exchanged. -/
theorem interface_kept_iff (wide : 32 ≤ width)
    (recognized : getEncodingForm label v358 = .ok (form, num))
    (got : getDirector label form = .ok dir) (denotes : interfaceOf num dir = some interface)
    (encoded : reEncode label v358 desired = .ok result) :
    ((firstInterface result = some interface ∧ aboveFirst result = aboveFirst label) ↔
        Kept dir interface desired) ∧
      ∀ targetNum, desired = some targetNum → Holds targetNum interface →
        ((∀ back, reEncode result v358 (some num) = .ok back → back = label) ↔
            Kept dir interface desired) ∧
          (reEncode result v358 (some num) = .ok label ↔
            Kept dir interface desired ∧
              restBitlen (label.bits >>> (form.bitCount + form.prefixLen)) + form.bitCount +
                form.prefixLen ≤ maxPayloadBits width) := by
  obtain ⟨above, written⟩ : ∃ above, WrittenIn v358 label num form dir above := by
    cases getDirector_ok got
    exact ⟨_, writtenIn_of_recognized recognized⟩
  obtain ⟨writtenNum, target, chosen, asked, short, rewritten⟩ :=
    written.reEncoded wide denotes encoded
  have keptIff := renumbered_kept_iff written denotes chosen rewritten.placed
  rw [rewritten.firstInterface_eq wide, rewritten.aboveFirst_eq, written.aboveFirst_eq,
    Option.some.injEq]
  refine ⟨keptIff, ?_⟩
  intro targetNum wanted holds
  cases asked targetNum wanted
  by_cases kept : Kept dir interface desired
  · obtain ⟨same, noSpill⟩ := keptIff.mpr kept
    rw [noSpill] at rewritten
    have first := ((kept_iff_of_chosen written denotes chosen rewritten.placed).mp kept).1
    have back := reEncode_back wide written rewritten same
      (renumbered_back written denotes same first)
    rw [back, written.above_eq]
    split_ifs with long
    · exact ⟨⟨fun _ => kept, fun _ => nofun⟩, ⟨nofun, fun ⟨_, fits⟩ => absurd long fits.not_gt⟩⟩
    · refine ⟨⟨fun _ => kept, ?_⟩, ⟨fun _ => ⟨kept, Nat.not_lt.mp long⟩, fun _ => rfl⟩⟩
      rintro _ _ ⟨⟩
      rfl
  · have lost := mt (kept_iff_of_chosen written denotes chosen rewritten.placed).mpr kept
    obtain ⟨rfl, rfl, rfl, rfl⟩ := collision written denotes rewritten.placed holds lost
    cases written.placed.symm.trans rewritten.placed
    have last : renumbered form 7 6 = 6 := by simp [renumbered]
    have count : form.bitCount = 3 := by
      cases written.placed
      rfl
    rw [last, count] at rewritten
    have collided : WrittenIn v358 result 0 form 6 above := by simpa using rewritten
    obtain ⟨back, other⟩ := collided_back wide written collided short
    rw [back]
    refine ⟨⟨fun given => absurd (given result rfl) other, fun kept' => absurd kept' kept⟩, ?_⟩
    exact ⟨fun given => absurd (Outcome.ok.inj given) other, fun both => absurd both.1 kept⟩

end

/-- A hop above the director of interface 6, in the second form and in the first one, where
it is the last director. The director before it stands for interface 5. -/
def sixInSecond : RoutingLabel 64 := ⟨0x9a, by decide, by decide⟩
def sixInFirst : RoutingLabel 64 := ⟨0x1f, by decide, by decide⟩
def fiveInFirst : RoutingLabel 64 := ⟨0x1d, by decide, by decide⟩

/-- Interface six is kept as its label is written in the second form. -/
theorem six_kept :
    firstInterface sixInFirst = some 6 ∧ aboveFirst sixInFirst = aboveFirst sixInSecond ∧
      reEncode sixInFirst v358 (some 1) = .ok sixInSecond := by
  have encoded : reEncode sixInSecond v358 (some 0) = .ok sixInFirst := by decide
  have recognized : getEncodingForm sixInSecond v358 = .ok (⟨5, 2, 2, by decide, by decide,
      by decide, by decide⟩, 1) := by decide
  have got : getDirector sixInSecond ⟨5, 2, 2, by decide, by decide, by decide, by decide⟩ =
      .ok 6 := by decide
  have holds : Holds 0 6 := ⟨⟨3, 1, 1, by decide, by decide, by decide, by decide⟩, 7, by decide⟩
  have kept : Kept 6 6 (some 0) := by
    show 6 < 7
    decide
  have denotes : interfaceOf 1 6 = some 6 := by decide
  have both := interface_kept_iff (by decide) recognized got denotes encoded
  obtain ⟨first, above⟩ := both.1.mpr kept
  exact ⟨first, above, (both.2 0 rfl holds).2.mpr ⟨kept, by decide⟩⟩

/-- An interface need not be kept: six in the first form becomes five. -/
theorem six_becomes_five :
    ¬∀ (label result : RoutingLabel 64) (desired : Option Nat) (interface above : Nat),
      aboveFirst label = some above → above ≠ 0 → firstInterface label = some interface →
      reEncode label v358 desired = .ok result →
      firstInterface result = some interface ∧ aboveFirst result = some above := by
  intro claimed
  have six := claimed sixInFirst fiveInFirst none 6 1 (by decide) (by decide) (by decide)
    (by decide)
  revert six
  decide

end RouteServer.Splice
