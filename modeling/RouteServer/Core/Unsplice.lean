import RouteServer.Core.LabelSplice

/-!
# Unsplicing labels

Unsplicing takes the payload of one label off the low end of another, which is possible
exactly when the first routes through the second. It undoes a splice, and splicing what
is left gives the destination back unless that is longer than a spliced label may be.
Where the destination does not route through the label, the source documents and tests
the error `CannotUnsplice`, and returns another one.
-/

namespace RouteServer.Splice

open Rust Labels

variable {width : Nat}

/-- A label lies on top of another one in a third: its payload above that of the other is
that of the third. -/
def OnTop (destination midPath label : RoutingLabel width) : Prop :=
  payload label ++ payload midPath = payload destination

/-- What is documented and tested of `routes_through` and `unsplice`. -/
structure Contract (destination midPath : RoutingLabel width) : Prop where
  through : routesThrough destination midPath = true ↔ ∃ label, OnTop destination midPath label
  ok : (∃ label, unsplice destination midPath = .ok label) ↔
    ∃ label, OnTop destination midPath label
  error : unsplice destination midPath = .err .cannotUnsplice ↔
    ¬∃ label, OnTop destination midPath label

section Suffix

variable (destination midPath : RoutingLabel width)

/-- A label is on top of another exactly when the payload of the other is a suffix. -/
theorem exists_onTop_iff :
    (∃ label, OnTop destination midPath label) ↔ payload midPath <:+ payload destination := by
  constructor
  · rintro ⟨label, whole⟩
    exact ⟨payload label, whole⟩
  · rintro ⟨front, whole⟩
    obtain ⟨label, -, rfl⟩ := unsplice_of_append whole.symm
    exact ⟨label, whole⟩

/-- What is on top is what unsplicing returns. -/
theorem unsplice_ok_iff (label : RoutingLabel width) :
    unsplice destination midPath = .ok label ↔ OnTop destination midPath label := by
  constructor
  · intro taken
    have through : routesThrough destination midPath = true := by
      rw [unsplice] at taken
      split at taken
      · cases taken
      · next through => exact Bool.not_eq_false _ ▸ through
    obtain ⟨front, whole⟩ := (routesThrough_iff destination midPath).mp through
    obtain ⟨other, returned, rfl⟩ := unsplice_of_append whole.symm
    rw [taken] at returned
    cases returned
    exact whole
  · intro whole
    obtain ⟨other, returned, same⟩ := unsplice_of_append whole.symm
    rw [returned, payload_injective same]

/-- Without a suffix the error says that the label is not routed through. -/
theorem unsplice_of_not_suffix (apart : ¬payload midPath <:+ payload destination) :
    unsplice destination midPath = .err .routesThroughFailed := by
  have notThrough : routesThrough destination midPath = false :=
    Bool.eq_false_iff.mpr (mt (routesThrough_iff destination midPath).mp apart)
  rw [unsplice, if_pos notThrough]

/-- Unsplicing never returns the error it is documented with. -/
theorem unsplice_ne_cannotUnsplice : unsplice destination midPath ≠ .err .cannotUnsplice := by
  intro failed
  by_cases suffix : payload midPath <:+ payload destination
  · obtain ⟨label, onTop⟩ := (exists_onTop_iff destination midPath).mpr suffix
    rw [(unsplice_ok_iff destination midPath label).mpr onTop] at failed
    cases failed
  · rw [unsplice_of_not_suffix destination midPath suffix] at failed
    cases failed

end Suffix

/-- The payloads of two labels spliced. -/
theorem payloads_pair (first second : RoutingLabel width) :
    payloads [first, second] = payload first ++ payload second := by
  simp [payloads]

/-- Two labels are spliced to the label that has the first on top of the second. -/
theorem onTop_of_splice {first second spliced : RoutingLabel width}
    (joined : splice [first, second] = .ok spliced) : OnTop spliced second first := by
  rcases splice_cases [first, second] (Nat.le_refl 2) with ⟨-, label, ok, bits⟩ | ⟨-, err⟩
  · cases ok.symm.trans joined
    rw [payloads_pair] at bits
    exact bits.symm
  · rw [err] at joined
    cases joined

/-- What is on top is spliced back, if the destination is not too long for a splice. -/
theorem splice_of_onTop {destination midPath label : RoutingLabel width}
    (onTop : OnTop destination midPath label) :
    splice [label, midPath] =
      if labelHighestSetBit destination ≤ maxPayloadBits width - 1 then .ok destination
      else .err .labelTooLong := by
  have whole : payloads [label, midPath] = payload destination :=
    (payloads_pair label midPath).trans onTop
  rw [← length_payload, ← whole]
  rcases splice_cases [label, midPath] (Nat.le_refl 2) with
    ⟨short, other, ok, bits⟩ | ⟨long, err⟩
  · rw [if_pos short, ok, payload_injective (bits.trans whole)]
  · rw [if_neg (Nat.not_le.mpr long), err]

/-- **Unsplicing and splicing undo each other.** What is spliced is unspliced to the
first label. A label routed through is unspliced, and splicing the result with it gives
the destination, or is too long when the destination is longer than a splice may be.

Proof: on payloads a splice puts one behind the other and unsplicing takes a suffix off. -/
theorem unsplice_inverts_splice (width : Nat) :
    (∀ first second spliced : RoutingLabel width,
      splice [first, second] = .ok spliced → unsplice spliced second = .ok first) ∧
    ∀ destination midPath : RoutingLabel width, routesThrough destination midPath = true →
      ∃ label, unsplice destination midPath = .ok label ∧
        splice [label, midPath] =
          if labelHighestSetBit destination ≤ maxPayloadBits width - 1 then .ok destination
          else .err .labelTooLong := by
  constructor
  · intro first second spliced joined
    exact (unsplice_ok_iff spliced second first).mpr (onTop_of_splice joined)
  · intro destination midPath through
    have suffix := (routesThrough_iff destination midPath).mp through
    obtain ⟨label, onTop⟩ := (exists_onTop_iff destination midPath).mpr suffix
    exact ⟨label, (unsplice_ok_iff destination midPath label).mpr onTop, splice_of_onTop onTop⟩

/-- A label at the limit of the word is unspliced, and not spliced back. -/
example :
    let destination : RoutingLabel 64 := ⟨0xffffffffffffffff, by decide, by decide⟩
    let midPath : RoutingLabel 64 := ⟨0x3, by decide, by decide⟩
    let label : RoutingLabel 64 := ⟨0x7fffffffffffffff, by decide, by decide⟩
    unsplice destination midPath = .ok label ∧
      splice [label, midPath] = .err .labelTooLong := by decide +kernel

/-- **The contract of unsplicing is met exactly where there is something to take off.**
Which labels are routed through and when unsplicing succeeds is always as documented. The
error is not: the contract holds if and only if it is not returned, the payload of one
label being a suffix of that of the other.

Proof: where there is something to take off no error is returned. Elsewhere one is, but never the
documented one. -/
theorem contract_iff (destination midPath : RoutingLabel width) :
    (routesThrough destination midPath = true ↔ ∃ label, OnTop destination midPath label) ∧
      ((∃ label, unsplice destination midPath = .ok label) ↔
        ∃ label, OnTop destination midPath label) ∧
      (Contract destination midPath ↔ payload midPath <:+ payload destination) := by
  have through : routesThrough destination midPath = true ↔
      ∃ label, OnTop destination midPath label := by rw [routesThrough_iff, exists_onTop_iff]
  have ok := exists_congr (unsplice_ok_iff destination midPath)
  refine ⟨through, ok, ?_⟩
  rw [← exists_onTop_iff]
  have undocumented := unsplice_ne_cannotUnsplice destination midPath
  constructor
  · intro contract
    by_contra apart
    exact undocumented (contract.error.mpr apart)
  · intro onTop
    exact ⟨through, ok, iff_of_false undocumented (not_not.mpr onTop)⟩

/-- Two labels of the tests of `unsplice`, of which neither continues the other. -/
theorem apart_labels_break_contract :
    ¬Contract (⟨0x101, by decide, by decide⟩ : RoutingLabel 64)
      ⟨0x110, by decide, by decide⟩ := by
  intro contract
  have apart : ¬∃ label, OnTop (⟨0x101, by decide, by decide⟩ : RoutingLabel 64)
      ⟨0x110, by decide, by decide⟩ label := by
    rintro ⟨label, whole⟩
    have suffix : payload (⟨0x110, by decide, by decide⟩ : RoutingLabel 64) <:+
        payload (⟨0x101, by decide, by decide⟩ : RoutingLabel 64) := ⟨payload label, whole⟩
    revert suffix
    decide +kernel
  have failed := contract.error.mpr apart
  revert failed
  decide +kernel

end RouteServer.Splice
