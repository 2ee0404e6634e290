import RouteServer.Rust.Outcome

/-!
# Outcomes that agree

Two calls agree under a relation if both return, with related values, or neither does. An
error then agrees with every other error and with a panic, whatever they report. Some errors
of the left call may end the comparison: it then agrees with everything. Sequences of
agreeing calls agree, which relates two runs of one program from different states.
-/

namespace Rust.Outcome

universe u v
variable {ε : Type u} {α β γ δ : Type v} {lost : ε → Prop}

/-- Both return, with related values, or neither does, unless the left call is lost. -/
def Agree (lost : ε → Prop) (related : α → β → Prop) (left : Outcome ε α)
    (right : Outcome ε β) : Prop :=
  (∃ fault, lost fault ∧ left = err fault) ∨ Option.Rel related left.toOption right.toOption

/-- Two values agree if they are related. -/
theorem agree_ok {related : α → β → Prop} {left : α} {right : β} (holds : related left right) :
    Agree lost related (ok left : Outcome ε α) (ok right) := Or.inr (.some holds)

/-- Two outcomes without a value agree. -/
theorem agree_none {related : α → β → Prop} {left : Outcome ε α} {right : Outcome ε β}
    (noLeft : left.toOption = none) (noRight : right.toOption = none) :
    Agree lost related left right := by
  right
  rw [noLeft, noRight]
  exact .none

/-- A call that is lost agrees with every other one. -/
theorem agree_lost {related : α → β → Prop} {left : Outcome ε α} {fault : ε}
    (isLost : lost fault) (failed : left = err fault) (right : Outcome ε β) :
    Agree lost related left right := Or.inl ⟨fault, isLost, failed⟩

/-- An outcome agrees with itself. -/
theorem agree_self (outcome : Outcome ε α) : Agree lost Eq outcome outcome := by
  cases outcome with
  | ok value => exact agree_ok rfl
  | err fault => exact agree_none rfl rfl
  | panicked => exact agree_none rfl rfl

/-- Agreement may be said more weakly. -/
theorem Agree.mono {related weaker : α → β → Prop} {left : Outcome ε α} {right : Outcome ε β}
    (agree : Agree lost related left right)
    (implied : ∀ first second, related first second → weaker first second) :
    Agree lost weaker left right := by
  apply agree.imp_right
  generalize left.toOption = first
  generalize right.toOption = second
  intro both
  cases both with
  | some holds => exact .some (implied _ _ holds)
  | none => exact .none

/-- Calls that agree, continued by calls that agree on related values. -/
theorem Agree.bind {related : α → β → Prop} {result : γ → δ → Prop} {left : Outcome ε α}
    {right : Outcome ε β} {leftNext : α → Outcome ε γ} {rightNext : β → Outcome ε δ}
    (first : Agree lost related left right)
    (rest : ∀ leftValue rightValue, left = ok leftValue → right = ok rightValue →
      related leftValue rightValue →
        Agree lost result (leftNext leftValue) (rightNext rightValue)) :
    Agree lost result (left >>= leftNext) (right >>= rightNext) := by
  rcases first with ⟨fault, isLost, rfl⟩ | first
  · exact agree_lost isLost rfl _
  · cases left with
    | ok leftValue =>
      cases right with
      | ok rightValue =>
        cases first with
        | some holds => exact rest leftValue rightValue rfl rfl holds
      | err fault => cases first
      | panicked => cases first
    | err fault =>
      cases right with
      | ok rightValue => cases first
      | err fault => exact agree_none rfl rfl
      | panicked => exact agree_none rfl rfl
    | panicked =>
      cases right with
      | ok rightValue => cases first
      | err fault => exact agree_none rfl rfl
      | panicked => exact agree_none rfl rfl

/-- Calls that agree on equal values return the same, unless the left one is lost. -/
theorem Agree.toOption_eq {left right : Outcome ε α} (agree : Agree lost Eq left right)
    (kept : ∀ fault, left = err fault → ¬ lost fault) : left.toOption = right.toOption := by
  rcases agree with ⟨fault, isLost, failed⟩ | both
  · exact absurd isLost (kept fault failed)
  · generalize left.toOption = first at both ⊢
    generalize right.toOption = second at both ⊢
    cases both with
    | some same => rw [same]
    | none => rfl

end Rust.Outcome
