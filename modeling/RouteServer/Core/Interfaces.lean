import RouteServer.Core.WrittenLabel

/-!
# Switch interfaces under `V358`

The first director of a label stands for an interface of the switch. The first form of
`V358` counts interfaces from one, the others from zero. Re-encoding writes the director for
the interface in the form asked for, and what does not fit spills into the bits above. The
form that is meant to replace the first one for the director `0b111` only keeps it from
being counted up, as its width has been read before.
-/

namespace RouteServer.Splice

open Rust Encoding Labels FormRecognition

variable {width : Nat}

/-- The interface that a director stands for in a form of `V358`. -/
def interfaceOf (num dir : Nat) : Option Nat :=
  if num = 0 then if dir = 0 then none else some (dir - 1) else some dir

/-- The first form counts from one. -/
theorem interfaceOf_iff {num dir interface : Nat} :
    interfaceOf num dir = some interface ↔ dir = if num = 0 then interface + 1 else interface := by
  rw [interfaceOf]
  split_ifs with first zero
  · exact ⟨nofun, fun same => by omega⟩
  · rw [Option.some.injEq]
    omega
  · rw [Option.some.injEq]

/-- The three forms. -/
def v358Form (bitCount prefixLen prefixBits : Nat) (form : EncodingSchemeForm) : Prop :=
  form.bitCount = bitCount ∧ form.prefixLen = prefixLen ∧ form.prefixBits = prefixBits

/-- The three forms of the scheme, of which the first alone is the one with a zero. -/
theorem v358_forms {num : Nat} {form : EncodingSchemeForm}
    (placed : v358.forms[num]? = some form) :
    (num = 0 ∧ v358Form 3 1 1 form ∧ is358ZeroForm form = true) ∨
      (num = 1 ∧ v358Form 5 2 2 form ∧ is358ZeroForm form = false) ∨
      (num = 2 ∧ v358Form 8 2 0 form ∧ is358ZeroForm form = false) := by
  match num with
  | 0 =>
    cases placed
    exact Or.inl ⟨rfl, ⟨rfl, rfl, rfl⟩, by decide⟩
  | 1 =>
    cases placed
    exact Or.inr (Or.inl ⟨rfl, ⟨rfl, rfl, rfl⟩, by decide⟩)
  | 2 =>
    cases placed
    exact Or.inr (Or.inr ⟨rfl, ⟨rfl, rfl, rfl⟩, by decide⟩)
  | _ + 3 => cases placed

/-- No form of the scheme has more than eight bits and a prefix of two. -/
theorem v358_sizes {num : Nat} {form : EncodingSchemeForm}
    (placed : v358.forms[num]? = some form) : form.bitCount ≤ 8 ∧ form.prefixLen ≤ 2 := by
  rcases v358_forms placed with ⟨-, ⟨count, length, -⟩, -⟩ | ⟨-, ⟨count, length, -⟩, -⟩ |
    ⟨-, ⟨count, length, -⟩, -⟩ <;> omega

/-- The director for an interface in the form asked for, as `re_encode` computes it from the
director in the form that the label had. -/
def renumbered (desired : EncodingSchemeForm) (dir interface : Nat) : Nat :=
  if is358ZeroForm desired && dir != 0b111 then interface + 1 else interface

section

variable {label result : RoutingLabel width} {num : Nat} {form desired : EncodingSchemeForm}
  {dir above interface : Nat}

/-- A director and its interface take up to eight bits. -/
theorem WrittenIn.small (written : WrittenIn v358 label num form dir above)
    (denotes : interfaceOf num dir = some interface) : dir < 256 ∧ interface < 256 := by
  have dirSmall : dir < 2 ^ 8 :=
    written.fits.trans_le (Nat.pow_le_pow_right (by decide) (v358_sizes written.placed).1)
  refine ⟨dirSmall, ?_⟩
  rw [interfaceOf_iff] at denotes
  split_ifs at denotes <;> omega

/-- So does the director for the interface in another form, but for one that does not fit. -/
theorem WrittenIn.renumbered_le (written : WrittenIn v358 label num form dir above)
    (denotes : interfaceOf num dir = some interface) (desired : EncodingSchemeForm) :
    renumbered desired dir interface ≤ 256 := by
  obtain ⟨-, small⟩ := written.small denotes
  rw [renumbered]
  split_ifs <;> omega

/-- What the special case does to a director that stands for an interface. -/
theorem adjustDirector_v358 (wide : 32 ≤ width)
    (written : WrittenIn v358 label num form dir above)
    (denotes : interfaceOf num dir = some interface) :
    adjustDirector width v358 form desired dir = .ok (renumbered desired dir interface) := by
  obtain ⟨-, small⟩ := written.small denotes
  have room : 2 ^ 32 ≤ 2 ^ width := Nat.pow_le_pow_right (by decide) wide
  have raised : (if is358ZeroForm desired && dir != 0b111 then
      Outcome.checkedAdd width interface 1 else .ok interface : Outcome SpliceError Nat) =
      .ok (renumbered desired dir interface) := by
    have fits : interface + 1 < 2 ^ width := by omega
    rw [renumbered]
    split_ifs
    · exact if_pos fits
    · rfl
  rw [adjustDirector, if_pos rfl]
  dsimp only
  rw [interfaceOf] at denotes
  rcases v358_forms written.placed with ⟨rfl, -, zero⟩ | ⟨rfl, -, other⟩ | ⟨rfl, -, other⟩
  · rw [if_pos rfl] at denotes
    split_ifs at denotes with none
    cases denotes
    rw [if_pos zero, if_neg none, Outcome.checkedSub_of_le (Nat.one_le_iff_ne_zero.mpr none)]
    exact raised
  all_goals
    cases denotes
    rw [other]
    exact raised

/-- The director of a label is what it is written with. -/
theorem WrittenIn.getDirector (written : WrittenIn v358 label num form dir above)
    (wide : 32 ≤ width) : Splice.getDirector label form = .ok dir := by
  obtain ⟨countSmall, lengthSmall⟩ := v358_sizes written.placed
  exact written.getDirector_eq (by omega)

end

/-- Nothing is lost when a director is written into a label that is short enough. -/
theorem writeDirector_short {num : Nat} {desired : EncodingSchemeForm} {dir above : Nat}
    (wide : 32 ≤ width) (placed : v358.forms[num]? = some desired)
    (short : restBitlen above + desired.bitCount + desired.prefixLen ≤ maxPayloadBits width)
    (small : dir ≤ 256) :
    writeDirector width desired dir above = .ok (encodeDirector desired dir above) ∧
      encodeDirector desired dir above < 2 ^ width := by
  obtain ⟨countSmall, lengthSmall⟩ := v358_sizes placed
  have dirSmall : dir < 2 ^ (width - desired.prefixLen) :=
    (Nat.lt_succ_of_le small).trans_le
      ((show 257 ≤ 2 ^ 9 by decide).trans (Nat.pow_le_pow_right (by decide) (by omega)))
  exact writeDirector_small short dirSmall

section

variable {label result : RoutingLabel width} {num targetNum : Nat}
  {form target : EncodingSchemeForm} {dir above interface : Nat} {desired : Option Nat}

/-- The form that is written is one of the scheme, and the one that was asked for. -/
theorem desiredForm_placed (chosen : desiredForm dir v358 desired = .ok target) :
    ∃ targetNum, v358.forms[targetNum]? = some target ∧
      ∀ asked, desired = some asked → targetNum = asked := by
  cases desired with
  | some asked =>
    rw [desiredForm] at chosen
    cases placed : v358.forms[asked]? with
    | none =>
      rw [placed] at chosen
      cases chosen
    | some form =>
      rw [placed] at chosen
      cases chosen
      exact ⟨asked, placed, fun _ same => Option.some.inj same⟩
  | none =>
    rw [desiredForm, findShortestForm] at chosen
    split at chosen
    · next form shortest =>
      cases chosen
      have member := List.mem_of_mem_filter (List.argmin_mem shortest)
      obtain ⟨targetNum, placed⟩ := List.mem_iff_getElem?.mp member
      refine ⟨targetNum, placed, ?_⟩
      intro asked none
      cases none
    · cases chosen

/-- Re-encoding writes the director for the interface of the label into the form asked for,
unless the label becomes too long. -/
theorem reEncode_v358 (wide : 32 ≤ width) (written : WrittenIn v358 label num form dir above)
    (denotes : interfaceOf num dir = some interface)
    (chosen : desiredForm dir v358 desired = .ok target) :
    reEncode label v358 desired =
      if restBitlen above + target.bitCount + target.prefixLen > maxPayloadBits width then
        .err .labelTooLong
      else
        (labelOfWord width (encodeDirector target (renumbered target dir interface) above)).elim
          (.err (.routingLabelTryNewFailed
            (encodeDirector target (renumbered target dir interface) above))) .ok := by
  obtain ⟨targetNum, placed, -⟩ := desiredForm_placed chosen
  have sizes : form.bitCount + form.prefixLen < width := by
    obtain ⟨countSmall, lengthSmall⟩ := v358_sizes written.placed
    omega
  rw [reEncode_eq (written.recognized v358_prefixFree) written sizes chosen
    (adjustDirector_v358 wide written denotes)]
  split_ifs with long
  · rfl
  · have room := written.renumbered_le denotes target
    rw [(writeDirector_short wide placed (Nat.not_lt.mp long) room).1, Outcome.ok_bind]

/-- A re-encoded label is written in the form asked for, with what did not fit spilled into
the bits above.

Proof: the equation of re-encoding for an interface of `V358`: the form is chosen, the length is
checked, and the word written is the renumbered director with the spill above it. -/
theorem WrittenIn.reEncoded (wide : 32 ≤ width)
    (written : WrittenIn v358 label num form dir above)
    (denotes : interfaceOf num dir = some interface)
    (encoded : reEncode label v358 desired = .ok result) :
    ∃ targetNum target, desiredForm dir v358 desired = .ok target ∧
      (∀ asked, desired = some asked → targetNum = asked) ∧
      restBitlen above + target.bitCount + target.prefixLen ≤ maxPayloadBits width ∧
      WrittenIn v358 result targetNum target
        (renumbered target dir interface % 2 ^ target.bitCount)
        (above ||| renumbered target dir interface >>> target.bitCount) := by
  have asked : ∃ target, desiredForm dir v358 desired = .ok target := by
    rw [reEncode, written.recognized v358_prefixFree, Outcome.ok_bind] at encoded
    dsimp only at encoded
    rw [written.getDirector wide, Outcome.ok_bind] at encoded
    obtain ⟨target, chosen, -⟩ := (Outcome.bind_ok_iff _ _ _).mp encoded
    exact ⟨target, chosen⟩
  obtain ⟨target, chosen⟩ := asked
  obtain ⟨targetNum, placed, asked⟩ := desiredForm_placed chosen
  rw [reEncode_v358 wide written denotes chosen] at encoded
  split_ifs at encoded with long
  have short := Nat.not_lt.mp long
  obtain ⟨-, inWord⟩ :=
    writeDirector_short wide placed short (written.renumbered_le denotes target)
  refine ⟨targetNum, target, chosen, asked, short, placed, Nat.mod_lt _ (Nat.two_pow_pos _), ?_⟩
  cases built : labelOfWord width
    (encodeDirector target (renumbered target dir interface) above) with
  | some label =>
    rw [built] at encoded
    cases encoded
    rw [labelOfWord_bits built, Nat.mod_eq_of_lt inWord]
    exact encodeDirector_spill _ _ _
  | none =>
    rw [built] at encoded
    cases encoded

end

end RouteServer.Splice
