import Mathlib.Data.List.Basic

/-!
# The first match in a vector

`iter_mut().find(..)` gives access to the first item that passes a test. What is assigned
through it replaces this one item; the items before it fail the test, and those after it
are not looked at.
-/

namespace Rust

universe u
variable {α : Type u}

/-- An assignment through `iter_mut().find(test)`, if it finds an item. -/
def updateFirst (test : α → Bool) (update : α → α) : List α → List α
  | [] => []
  | item :: rest =>
    if test item then update item :: rest else item :: updateFirst test update rest

variable {test : α → Bool} {update : α → α} {items : List α}

/-- The item found is replaced in its place. -/
theorem updateFirst_of_find (update : α → α) {found : α} (isFirst : items.find? test = some found) :
    test found = true ∧ ∃ before after, items = before ++ found :: after ∧
      (∀ item ∈ before, test item = false) ∧
      updateFirst test update items = before ++ update found :: after := by
  obtain ⟨passes, before, after, rfl, earlier⟩ := List.find?_eq_some_iff_append.mp isFirst
  have fails : ∀ item ∈ before, test item = false := by simpa using earlier
  refine ⟨passes, before, after, rfl, fails, ?_⟩
  clear isFirst earlier
  induction before with
  | nil => simp only [List.nil_append, updateFirst, passes, if_true]
  | cons item before inductionHypothesis =>
    obtain ⟨first, others⟩ := List.forall_mem_cons.mp fails
    simp only [List.cons_append, updateFirst, first, Bool.false_eq_true, if_false,
      inductionHypothesis others]

/-- Without a match nothing is replaced. -/
theorem updateFirst_of_find_none (noMatch : items.find? test = none) :
    updateFirst test update items = items := by
  induction items with
  | nil => rfl
  | cons item rest inductionHypothesis =>
    rw [List.find?_cons] at noMatch
    cases passes : test item with
    | true =>
      rw [passes] at noMatch
      cases noMatch
    | false =>
      rw [passes] at noMatch
      simp only [updateFirst, passes, Bool.false_eq_true, if_false,
        inductionHypothesis noMatch]

/-- What is kept by the assignment is kept item by item. -/
theorem map_updateFirst {β : Type u} {field : α → β}
    (kept : ∀ item, test item = true → field (update item) = field item) :
    (updateFirst test update items).map field = items.map field := by
  induction items with
  | nil => rfl
  | cons item rest inductionHypothesis =>
    rw [updateFirst]
    split
    · next passes => rw [List.map_cons, List.map_cons, kept item passes]
    · rw [List.map_cons, List.map_cons, inductionHypothesis]

/-- An item after the assignment was there before, or is the one that was replaced. -/
theorem mem_updateFirst {item : α} (member : item ∈ updateFirst test update items) :
    item ∈ items ∨ ∃ found, items.find? test = some found ∧ item = update found := by
  cases isFirst : items.find? test with
  | none =>
    rw [updateFirst_of_find_none isFirst] at member
    exact Or.inl member
  | some found =>
    obtain ⟨-, before, after, rfl, -, updated⟩ := updateFirst_of_find update isFirst
    rw [updated] at member
    rcases List.mem_append.mp member with early | late
    · exact Or.inl (List.mem_append_left _ early)
    · rcases List.mem_cons.mp late with rfl | rest
      · exact Or.inr ⟨found, rfl, rfl⟩
      · exact Or.inl (List.mem_append_right _ (List.mem_cons_of_mem _ rest))

end Rust
