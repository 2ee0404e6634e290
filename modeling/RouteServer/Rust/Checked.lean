import RouteServer.Rust.Outcome

/-!
# Calls whose checks pass

A model of a function may leave out the checks that its arithmetic makes. It is then
compared with a second one that makes all of them: the two agree, and neither panics, if
every check passes. A sequence of calls agrees with the one without checks when each of
its calls does, and a check that passes can be left out anywhere.
-/

namespace Rust.Outcome

universe u v
variable {ε : Type u} {α β : Type v}

/-- A call with checks ends as the one without them does, which is not in a panic. -/
def Passes (checked plain : Outcome ε α) : Prop := checked = plain ∧ plain ≠ panicked

/-- A value is what it is. -/
theorem Passes.ok (value : α) : Passes (.ok value : Outcome ε α) (.ok value) :=
  ⟨rfl, fun same => by cases same⟩

/-- An error is what it is. -/
theorem Passes.err (fault : ε) : Passes (.err fault : Outcome ε α) (.err fault) :=
  ⟨rfl, fun same => by cases same⟩

/-- Calls that pass can be made one after the other. -/
theorem Passes.bind {checked plain : Outcome ε α} {next plainNext : α → Outcome ε β}
    (first : Passes checked plain)
    (rest : ∀ value, plain = .ok value → Passes (next value) (plainNext value)) :
    Passes (checked >>= next) (plain >>= plainNext) := by
  obtain ⟨rfl, noPanic⟩ := first
  cases checked with
  | ok value => exact rest value rfl
  | err fault => exact Passes.err fault
  | panicked => exact absurd rfl noPanic

/-- A check that returns has no effect but its value. -/
theorem Passes.check {check : Outcome ε α} {value : α} {next : α → Outcome ε β}
    {plain : Outcome ε β} (returns : check = .ok value) (rest : Passes (next value) plain) :
    Passes (check >>= next) plain := by
  rw [returns]
  exact rest

/-- What returns does not panic. -/
theorem Passes.of_ok {checked : Outcome ε α} {value : α} (returns : checked = .ok value) :
    Passes checked checked := by
  rw [returns]
  exact Passes.ok value

/-- An assertion that holds passes. -/
theorem assert_of {holds : Prop} [Decidable holds] (proof : holds) :
    (assert (decide holds) : Outcome ε Unit) = .ok () := by
  rw [decide_eq_true proof]
  rfl

/-- A sum that fits is the sum. -/
theorem checkedAdd_of_lt {width left right : Nat} (fits : left + right < 2 ^ width) :
    (checkedAdd width left right : Outcome ε Nat) = .ok (left + right) := if_pos fits

/-- A shift by less than the width drops what is shifted out. -/
theorem checkedShl_ok {width value count : Nat} (small : count < width) :
    (checkedShl width value count : Outcome ε Nat) = .ok ((value <<< count) % 2 ^ width) :=
  if_pos small

/-- A shift by less than the width is the shift. -/
theorem checkedShr_ok {width value count : Nat} (small : count < width) :
    (checkedShr width value count : Outcome ε Nat) = .ok (value >>> count) := if_pos small

end Rust.Outcome
