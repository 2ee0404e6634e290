import Mathlib.Algebra.Group.Nat.Defs

/-!
# Outcomes of checked calls

A call that returns a `Result` ends in one of three ways: it returns a value, it
returns an error, or it panics. A panic is a third outcome and never an error:
no caller can handle it with `?`, `map_err` or `ok`. Sequencing therefore stops
at the first error and at the first panic, and keeps the two apart.

Arithmetic is checked: a subtraction below zero, a sum or a product beyond its
width and a failed assertion are panics. Where it wraps instead, as in a release
build, the definition says so. The laws here say when a sequence of
calls returns and when it is free of panics; they mention no particular program.
-/

namespace Rust

universe u v w
variable {ε : Type u} {φ : Type u} {α : Type v} {β : Type v}

/-- The three ways a call with error type `ε` and value type `α` can end. -/
inductive Outcome (ε : Type u) (α : Type v) where
  | ok (value : α)
  | err (fault : ε)
  | panicked
deriving DecidableEq

/-- The cast `as u32`. -/
def asU32 (value : Nat) : Nat := value % 2 ^ 32

/-- A truncated number is no larger. -/
theorem asU32_le (value : Nat) : asU32 value ≤ value := Nat.mod_le _ _

namespace Outcome

/-- Continue after a returned value. Errors and panics end the sequence. -/
def andThen : Outcome ε α → (α → Outcome ε β) → Outcome ε β
  | ok value, next => next value
  | err fault, _ => err fault
  | panicked, _ => panicked

instance : Monad (Outcome ε) where
  pure := ok
  bind := andThen

/-- What is returned is a value. -/
@[simp] theorem pure_def (value : α) : (pure value : Outcome ε α) = ok value := rfl

/-- After a value comes what is next. -/
@[simp] theorem ok_bind (value : α) (next : α → Outcome ε β) :
    (ok value >>= next) = next value := rfl

/-- After an error nothing is next. -/
@[simp] theorem err_bind (fault : ε) (next : α → Outcome ε β) :
    ((err fault : Outcome ε α) >>= next) = err fault := rfl

/-- After a panic nothing is next. -/
@[simp] theorem panicked_bind (next : α → Outcome ε β) :
    ((panicked : Outcome ε α) >>= next) = panicked := rfl

/-- A sequence returns a value exactly when its first call returns one from
which the rest returns that value. -/
theorem bind_ok_iff (first : Outcome ε α) (next : α → Outcome ε β) (result : β) :
    (first >>= next) = ok result ↔ ∃ value, first = ok value ∧ next value = ok result := by
  cases first <;> simp

/-- A sequence returns an error exactly when its first call does, or a later one
after the first has returned a value. -/
theorem bind_err_iff (first : Outcome ε α) (next : α → Outcome ε β) (fault : ε) :
    (first >>= next) = err fault ↔
      first = err fault ∨ ∃ value, first = ok value ∧ next value = err fault := by
  cases first <;> simp

/-- A sequence panics exactly when its first call does, or a later one after the first
has returned a value. -/
theorem bind_panicked_iff (first : Outcome ε α) (next : α → Outcome ε β) :
    (first >>= next) = panicked ↔
      first = panicked ∨ ∃ value, first = ok value ∧ next value = panicked := by
  cases first <;> simp

/-- Mapping is returning what the function gives. -/
theorem map_def (wrap : α → β) (outcome : Outcome ε α) :
    wrap <$> outcome = (outcome >>= fun value => ok (wrap value)) := rfl

/-- `Result::map_err`: rename the error, keep values and panics. -/
def mapErr (rename : ε → φ) : Outcome ε α → Outcome φ α
  | ok value => ok value
  | err fault => err (rename fault)
  | panicked => panicked

/-- `Result::expect`: an error becomes a panic, so any error type may follow. -/
def expect : Outcome ε α → Outcome φ α
  | ok value => ok value
  | err _ => panicked
  | panicked => panicked

/-- `Result::ok`: the value returned, if any. -/
def toOption : Outcome ε α → Option α
  | ok value => some value
  | _ => none

/-- `assert!`: continue exactly when the condition holds. -/
def assert (holds : Bool) : Outcome ε Unit :=
  if holds then ok () else panicked

/-- Unsigned subtraction under overflow checks. -/
def checkedSub (left right : Nat) : Outcome ε Nat :=
  if right ≤ left then ok (left - right) else panicked

/-- Unsigned multiplication at a given bit width under overflow checks. -/
def checkedMul (width left right : Nat) : Outcome ε Nat :=
  if left * right < 2 ^ width then ok (left * right) else panicked

/-- Unsigned addition at a given bit width under overflow checks. -/
def checkedAdd (width left right : Nat) : Outcome ε Nat :=
  if left + right < 2 ^ width then ok (left + right) else panicked

/-- `<<` at a given bit width: bits beyond the width are lost, and a shift by the width
or more is an overflow. -/
def checkedShl (width value count : Nat) : Outcome ε Nat :=
  if count < width then ok ((value <<< count) % 2 ^ width) else panicked

/-- `>>` at a given bit width. -/
def checkedShr (width value count : Nat) : Outcome ε Nat :=
  if count < width then ok (value >>> count) else panicked

/-- Renaming errors keeps the values returned. -/
theorem mapErr_ok_iff (rename : ε → φ) (outcome : Outcome ε α) (value : α) :
    mapErr rename outcome = ok value ↔ outcome = ok value := by
  cases outcome <;> simp [mapErr]

/-- Renaming errors keeps panics. -/
theorem mapErr_panicked_iff (rename : ε → φ) (outcome : Outcome ε α) :
    mapErr rename outcome = panicked ↔ outcome = panicked := by
  cases outcome <;> simp [mapErr]

/-- A value that is expected is there. -/
@[simp] theorem expect_ok (value : α) :
    (expect (ok value : Outcome ε α) : Outcome φ α) = ok value := rfl

/-- `expect` returns exactly what the call returned. -/
theorem expect_ok_iff (outcome : Outcome ε α) (value : α) :
    (expect outcome : Outcome φ α) = ok value ↔ outcome = ok value := by
  cases outcome <;> simp [expect]

/-- A value that passes a test has been returned. -/
theorem exists_ok_of_any (outcome : Outcome ε α) (test : α → Bool)
    (passes : outcome.toOption.any test = true) :
    ∃ value, outcome = ok value ∧ test value = true := by
  cases outcome with
  | ok value => exact ⟨value, rfl, passes⟩
  | err fault => cases passes
  | panicked => cases passes

/-- What is true may be asserted. -/
@[simp] theorem assert_true : (assert true : Outcome ε Unit) = ok () := rfl

/-- What is false panics when it is asserted. -/
@[simp] theorem assert_false : (assert false : Outcome ε Unit) = panicked := rfl

/-- A difference that is not negative is the difference. -/
theorem checkedSub_of_le {left right : Nat} (enough : right ≤ left) :
    (checkedSub left right : Outcome ε Nat) = ok (left - right) := if_pos enough

/-- Exactly a difference that is not negative is returned. -/
theorem checkedSub_ok_iff (left right result : Nat) :
    (checkedSub left right : Outcome ε Nat) = ok result ↔
      right ≤ left ∧ left - right = result := by
  rw [checkedSub]
  split <;> simp [*]

/-- A product that fits is the product. -/
theorem checkedMul_of_lt {width left right : Nat} (fits : left * right < 2 ^ width) :
    (checkedMul width left right : Outcome ε Nat) = ok (left * right) := if_pos fits

/-- Exactly a shift to the left by less than the width is returned. -/
theorem checkedShl_ok_iff (width value count result : Nat) :
    (checkedShl width value count : Outcome ε Nat) = ok result ↔
      count < width ∧ (value <<< count) % 2 ^ width = result := by
  rw [checkedShl]
  split <;> simp [*]

/-- Exactly a shift to the right by less than the width is returned. -/
theorem checkedShr_ok_iff (width value count result : Nat) :
    (checkedShr width value count : Outcome ε Nat) = ok result ↔
      count < width ∧ value >>> count = result := by
  rw [checkedShr]
  split <;> simp [*]

/-- A shift to the left that loses nothing is the shift. -/
theorem checkedShl_of_lt {width value count : Nat} (small : count < width)
    (fits : value <<< count < 2 ^ width) :
    (checkedShl width value count : Outcome ε Nat) = ok (value <<< count) := by
  rw [checkedShl, if_pos small, Nat.mod_eq_of_lt fits]

/-- The call ends as another one does, unless it panics: it has less of something that it may
run out of. -/
def UnlessPanicked (outcome other : Outcome ε α) : Prop := outcome = panicked ∨ outcome = other

/-- An outcome is itself, unless it panicked and in that case too. -/
theorem UnlessPanicked.refl (outcome : Outcome ε α) : outcome.UnlessPanicked outcome := Or.inr rfl

/-- Sequences compare call by call: a panic of the first call ends both questions, and behind
a shared value the rest decides. -/
theorem UnlessPanicked.bind {first other : Outcome ε α} {next after : α → Outcome ε β}
    (starts : first.UnlessPanicked other)
    (continues : ∀ value, other = ok value → (next value).UnlessPanicked (after value)) :
    (first >>= next).UnlessPanicked (other >>= after) := by
  rcases starts with rfl | rfl
  · exact Or.inl rfl
  · cases first with
    | ok value => exact continues value rfl
    | err fault => exact Or.inr rfl
    | panicked => exact Or.inl rfl

/-- A value that this call returns is the value of the other one. -/
theorem UnlessPanicked.of_ok {other : Outcome ε α} {value : α}
    (compared : (ok value).UnlessPanicked other) : other = ok value :=
  compared.elim nofun Eq.symm

end Outcome

/-- A sequence of calls that do not panic returns a value exactly when its first call
returns one from which the rest returns that value. -/
theorem except_bind_ok_iff (first : Except ε α) (next : α → Except ε β) (result : β) :
    (first >>= next) = .ok result ↔ ∃ value, first = .ok value ∧ next value = .ok result := by
  cases first <;> simp [Bind.bind, Except.bind]

end Rust
