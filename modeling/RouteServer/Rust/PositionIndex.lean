import Mathlib.Data.List.AList
import Mathlib.Data.List.InsertIdx
import RouteServer.Rust.HashMap

/-!
# An index of positions

A vector of different items may be kept together with a hash map that gives the
position of each item. An insertion into the vector moves the items behind it up
by one, and a removal moves them down, so the map is corrected each time. The laws
here say that the corrected map is again the index of the vector.
-/

namespace Rust.PositionIndex

universe u
variable {κ : Type u} [DecidableEq κ]

/-- The map gives the position of every item of the vector, and of nothing else. -/
def Indexes (index : AList (fun _ : κ => Nat)) (items : List κ) : Prop :=
  ∀ item position, index.lookup item = some position ↔ items[position]? = some item

/-- Move up by one the positions from a given one on. -/
def shiftUp (start : Nat) (index : AList (fun _ : κ => Nat)) : AList (fun _ : κ => Nat) :=
  HashMap.mapValues (fun _ old => if start ≤ old then old + 1 else old) index

/-- Move down by one the positions from a given one on. -/
def shiftDown (start : Nat) (index : AList (fun _ : κ => Nat)) : AList (fun _ : κ => Nat) :=
  HashMap.mapValues (fun _ old => if start ≤ old then old - 1 else old) index

section

variable {index : AList (fun _ : κ => Nat)} {items : List κ}

/-- The empty index is that of no items. -/
theorem indexes_nil : Indexes (∅ : AList (fun _ : κ => Nat)) [] := by
  intro item position
  simp

/-- An item is listed exactly when it has a position. -/
theorem Indexes.found_iff (indexes : Indexes index items) (item : κ) :
    item ∈ items ↔ ∃ position, index.lookup item = some position := by
  rw [List.mem_iff_getElem?]
  exact exists_congr (fun position => (indexes item position).symm)

/-- An item without a position is not listed. -/
theorem Indexes.missing_iff (indexes : Indexes index items) (item : κ) :
    index.lookup item = none ↔ item ∉ items := by
  rw [indexes.found_iff, Option.eq_none_iff_forall_ne_some, not_exists]

/-- Positions from the start on are one higher after an insertion. -/
theorem lookup_shiftUp (start : Nat) (index : AList (fun _ : κ => Nat)) (item : κ)
    (position : Nat) : (shiftUp start index).lookup item = some position ↔
      ∃ old, index.lookup item = some old ∧ (if start ≤ old then old + 1 else old) = position := by
  rw [shiftUp, HashMap.lookup_mapValues, Option.map_eq_some_iff]

/-- Positions from the start on are one lower after a removal. -/
theorem lookup_shiftDown (start : Nat) (index : AList (fun _ : κ => Nat)) (item : κ)
    (position : Nat) : (shiftDown start index).lookup item = some position ↔
      ∃ old, index.lookup item = some old ∧ (if start ≤ old then old - 1 else old) = position := by
  rw [shiftDown, HashMap.lookup_mapValues, Option.map_eq_some_iff]

/-- Two positions of one item are the same. -/
theorem Indexes.unique (indexes : Indexes index items) {item : κ} {first second : Nat}
    (atFirst : items[first]? = some item) (atSecond : items[second]? = some item) :
    first = second := by
  have found := (indexes item first).mpr atFirst
  rw [(indexes item second).mpr atSecond] at found
  exact (Option.some.inj found).symm

/-- An item inserted where the vector did not have it.

Proof: for the item itself and for others, which are before the position or behind it; those
behind move back by one. -/
theorem Indexes.insert (indexes : Indexes index items) {item : κ} {position : Nat}
    (inside : position ≤ items.length) (fresh : item ∉ items) :
    Indexes ((shiftUp position index).insert item position) (items.insertIdx position item) := by
  have absent : ∀ other, items[other]? ≠ some item := fun other held =>
    fresh (List.mem_of_getElem? held)
  intro other found
  by_cases same : other = item
  · subst same
    rw [AList.lookup_insert, List.getElem?_insertIdx]
    constructor
    · rintro ⟨⟩
      simp [inside]
    · intro held
      by_cases before : found < position
      · exact absurd (by simpa [before] using held) (absent found)
      · by_cases here : found = position
        · rw [here]
        · exact absurd (by simpa [before, here] using held) (absent (found - 1))
  · rw [AList.lookup_insert_ne same, lookup_shiftUp, List.getElem?_insertIdx]
    simp only [indexes other]
    constructor
    · rintro ⟨old, held, rfl⟩
      by_cases behind : position ≤ old
      · simp [behind, held, show ¬ old + 1 < position by omega, show old + 1 ≠ position by omega]
      · simp [behind, held, show old < position by omega]
    · intro held
      by_cases before : found < position
      · exact ⟨found, by simpa [before] using held, if_neg (by omega)⟩
      · by_cases here : found = position
        · simp [here, inside, Ne.symm same] at held
        · refine ⟨found - 1, by simpa [before, here] using held, ?_⟩
          rw [if_pos (by omega)]
          omega

/-- An item removed from its position.

Proof: for the item itself and for others, which are before the position or behind it; those
behind move up by one. -/
theorem Indexes.erase (indexes : Indexes index items) {item : κ} {position : Nat}
    (held : items[position]? = some item) :
    Indexes (shiftDown position (index.erase item)) (items.eraseIdx position) := by
  have elsewhere : ∀ other found, other ≠ item → items[found]? = some other →
      found ≠ position := by
    rintro other found different there rfl
    exact different (Option.some.inj (there.symm.trans held))
  intro other found
  rw [lookup_shiftDown, List.getElem?_eraseIdx]
  by_cases same : other = item
  · subst same
    simp only [AList.lookup_erase, reduceCtorEq, false_and, exists_false, false_iff]
    split
    · next before =>
      intro there
      exact absurd (indexes.unique there held) (by omega)
    · next behind =>
      intro there
      exact absurd (indexes.unique there held) (by omega)
  · simp only [AList.lookup_erase_ne same, indexes other]
    constructor
    · rintro ⟨old, there, rfl⟩
      have := elsewhere other old same there
      by_cases behind : position ≤ old
      · have later : old - 1 + 1 = old := by omega
        simp [behind, show ¬ old - 1 < position by omega, later, there]
      · simp [behind, show old < position by omega, there]
    · intro there
      by_cases before : found < position
      · exact ⟨found, by simpa [before] using there, if_neg (by omega)⟩
      · refine ⟨found + 1, by simpa [before] using there, ?_⟩
        rw [if_pos (by omega), Nat.add_sub_cancel]

/-- The last item removed. -/
theorem Indexes.pop {item : κ} (indexes : Indexes index (items ++ [item])) :
    Indexes (index.erase item) items := by
  have held : (items ++ [item])[items.length]? = some item := List.getElem?_concat_length
  have inFront : ∀ other found, items[found]? = some other →
      (items ++ [item])[found]? = some other := fun other found there => by
    rw [List.getElem?_append_left (List.getElem?_eq_some_iff.mp there).1, there]
  intro other found
  by_cases same : other = item
  · subst same
    rw [AList.lookup_erase]
    refine iff_of_false (by simp) (fun there => ?_)
    have bound := (List.getElem?_eq_some_iff.mp there).1
    have unique := indexes.unique (inFront other found there) held
    omega
  · rw [AList.lookup_erase_ne same, indexes other]
    refine ⟨fun there => ?_, inFront other found⟩
    rw [List.getElem?_append] at there
    split at there
    · exact there
    · exact absurd (List.mem_singleton.mp (List.mem_of_getElem? there)) same

end

end Rust.PositionIndex
