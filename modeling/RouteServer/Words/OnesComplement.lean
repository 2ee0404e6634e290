import Mathlib.Data.Nat.ModEq

/-!
# One's complement sums

Adding with an end-around carry takes numbers below a power of two to their sum modulo one
less than it, and never from a positive sum to zero: zero has two representations, and only
a sum of zeros has the lower one. So a sum can be taken in any order, folded at any time,
and in another byte order, where each number is multiplied by a power of two.
-/

namespace OnesComplement

/-- The highest number of a width, which stands for zero too. -/
def top (width : Nat) : Nat := 2 ^ width - 1

/-- Addition with an end-around carry. -/
def add (width first second : Nat) : Nat :=
  (first + second) % 2 ^ width + (first + second) / 2 ^ width

/-- The sum of numbers, from the first on. -/
def sum (width : Nat) (words : List Nat) : Nat := words.foldl (add width) 0

/-- What a number is folded to. -/
def fold (width number : Nat) : Nat :=
  if number = 0 then 0 else (number - 1) % top width + 1

variable {width : Nat}

/-- The largest word is positive. -/
theorem top_pos (positive : 0 < width) : 0 < top width := by
  have two : 2 ^ 1 ≤ 2 ^ width := Nat.pow_le_pow_right (by decide) positive
  rw [top]
  omega

/-- One more than the largest word is the power of two. -/
theorem two_pow_eq (width : Nat) : 2 ^ width = top width + 1 := by
  have positive := Nat.two_pow_pos width
  rw [top]
  omega

/-- A number is folded to the one that is congruent to it, below the power of two, and zero
only if it is zero itself.

Proof: the fold maps to a number between one and the top, where congruent numbers are equal. -/
theorem eq_fold_iff (positive : 0 < width) (result number : Nat) :
    result = fold width number ↔
      result ≤ top width ∧ result ≡ number [MOD top width] ∧ (result = 0 ↔ number = 0) := by
  have topPos := top_pos positive
  rw [fold]
  split_ifs with zero
  · subst zero
    constructor
    · rintro rfl
      exact ⟨Nat.zero_le _, rfl, Iff.rfl⟩
    · rintro ⟨-, -, same⟩
      exact same.mpr rfl
  · have below := Nat.mod_lt (number - 1) topPos
    have congruent : (number - 1) % top width + 1 ≡ number [MOD top width] := by
      calc (number - 1) % top width + 1 ≡ number - 1 + 1 [MOD top width] :=
            (Nat.mod_modEq _ _).add_right 1
        _ = number := by omega
    constructor
    · rintro rfl
      exact ⟨by omega, congruent, iff_of_false (by omega) zero⟩
    · rintro ⟨small, also, same⟩
      have nonzero : result ≠ 0 := fun none => zero (same.mp none)
      -- both lie between one and the top, where congruent numbers are equal
      have shifted : result - 1 ≡ number - 1 [MOD top width] := by
        refine Nat.ModEq.add_right_cancel' 1 ?_
        rwa [Nat.sub_add_cancel (by omega), Nat.sub_add_cancel (by omega)]
      have equal : (result - 1) % top width = (number - 1) % top width := shifted
      rw [Nat.mod_eq_of_lt (by omega)] at equal
      omega

/-- A folded number is a word. -/
theorem fold_le (positive : 0 < width) (number : Nat) : fold width number ≤ top width :=
  ((eq_fold_iff positive _ number).mp rfl).1

/-- Folding changes a number by multiples of the largest word. -/
theorem fold_modEq (positive : 0 < width) (number : Nat) :
    fold width number ≡ number [MOD top width] :=
  ((eq_fold_iff positive _ number).mp rfl).2.1

/-- Only zero is folded to zero. -/
theorem fold_eq_zero_iff (positive : 0 < width) (number : Nat) :
    fold width number = 0 ↔ number = 0 :=
  ((eq_fold_iff positive _ number).mp rfl).2.2

/-- Numbers that fit are not changed. -/
theorem fold_of_le (positive : 0 < width) {number : Nat} (small : number ≤ top width) :
    fold width number = number :=
  ((eq_fold_iff positive number number).mpr ⟨small, rfl, Iff.rfl⟩).symm

/-- The carry added to what it was carried from. -/
theorem fold_carry (positive : 0 < width) (number : Nat) :
    fold width (number / 2 ^ width + number % 2 ^ width) = fold width number := by
  refine (eq_fold_iff positive _ _).mpr ⟨fold_le positive _, ?_, ?_⟩
  · refine (fold_modEq positive _).trans ?_
    have one : 1 ≡ 2 ^ width [MOD top width] := by
      rw [two_pow_eq]
      exact Nat.right_modEq_add_iff.mpr (Nat.dvd_refl _)
    calc number / 2 ^ width + number % 2 ^ width
        = 1 * (number / 2 ^ width) + number % 2 ^ width := by rw [Nat.one_mul]
      _ ≡ 2 ^ width * (number / 2 ^ width) + number % 2 ^ width [MOD top width] :=
        (one.mul_right _).add_right _
      _ = number := Nat.div_add_mod _ _
  · rw [fold_eq_zero_iff positive]
    constructor
    · intro none
      obtain ⟨high, low⟩ := Nat.add_eq_zero_iff.mp none
      rw [← Nat.div_add_mod number (2 ^ width), high, low, Nat.mul_zero]
    · rintro rfl
      simp

/-- Two numbers that fit are added to the fold of their sum. -/
theorem add_eq_fold (positive : 0 < width) {first second : Nat} (firstFits : first ≤ top width)
    (secondFits : second ≤ top width) : add width first second = fold width (first + second) := by
  have power := two_pow_eq width
  have carried := fold_carry positive (first + second)
  have once : (first + second) / 2 ^ width ≤ 1 := by
    have bound : (first + second) / 2 ^ width < 2 :=
      (Nat.div_lt_iff_lt_mul (Nat.two_pow_pos width)).mpr (by omega)
    omega
  have split := Nat.div_add_mod (first + second) (2 ^ width)
  have low := Nat.mod_lt (first + second) (Nat.two_pow_pos width)
  have fits : (first + second) / 2 ^ width + (first + second) % 2 ^ width ≤ top width := by
    rcases Nat.le_one_iff_eq_zero_or_eq_one.mp once with zero | one
    · rw [zero]
      omega
    · rw [one] at split ⊢
      omega
  rw [add, Nat.add_comm, ← carried, fold_of_le positive fits]

/-- Folding before adding changes nothing. -/
theorem fold_add_fold (positive : 0 < width) (first second : Nat) :
    fold width (fold width first + second) = fold width (first + second) := by
  refine (eq_fold_iff positive _ _).mpr ⟨fold_le positive _, ?_, ?_⟩
  · exact (fold_modEq positive _).trans ((fold_modEq positive first).add_right second)
  · rw [fold_eq_zero_iff positive, Nat.add_eq_zero_iff, Nat.add_eq_zero_iff,
      fold_eq_zero_iff positive]

/-- The sum is the fold of the sum of numbers. -/
theorem sum_eq_fold (positive : 0 < width) {words : List Nat}
    (fit : ∀ word ∈ words, word ≤ top width) : sum width words = fold width words.sum := by
  have each (start : Nat) (fits : start ≤ top width) :
      words.foldl (add width) start = fold width (start + words.sum) := by
    induction words generalizing start with
    | nil => exact (fold_of_le positive fits).symm
    | cons word rest inductionHypothesis =>
      obtain ⟨first, others⟩ := List.forall_mem_cons.mp fit
      rw [List.foldl_cons, inductionHypothesis others _ ?_, add_eq_fold positive fits first,
        fold_add_fold positive, List.sum_cons, Nat.add_assoc]
      rw [add_eq_fold positive fits first]
      exact fold_le positive _
  rw [sum, each 0 (Nat.zero_le _), Nat.zero_add]

/-- Numbers with the complement of their sum add up to the top. -/
theorem fold_complement (positive : 0 < width) (number : Nat) :
    fold width (number + (top width - fold width number)) = top width := by
  have topPos := top_pos positive
  have small := fold_le positive number
  symm
  refine (eq_fold_iff positive _ _).mpr ⟨Nat.le_refl _, ?_, iff_of_false topPos.ne' ?_⟩
  · calc top width = fold width number + (top width - fold width number) := by omega
      _ ≡ number + (top width - fold width number) [MOD top width] :=
        (fold_modEq positive number).add_right _
  · have zero := fold_eq_zero_iff positive number
    omega

end OnesComplement
