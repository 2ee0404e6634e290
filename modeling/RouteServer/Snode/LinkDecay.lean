import Mathlib.Algebra.Order.Field.Rat
import Mathlib.Tactic.FieldSimp
import Mathlib.Tactic.Positivity
import RouteServer.Snode.LinkUpdates

/-!
# Decay of link values

Before new samples are counted the value of a link should be divided by its age. The
test in front of the division asks whether the link is ahead of the announcement, so the
value decays when time goes back and is carried over in full when time passes. Values
are exact numbers here.
-/

namespace RouteServer.Snode

open Rust Keys Ann

/-- What is left of a value after some timeslots: a half after eighteen of them. -/
def decayed (value : Rat) (slots : Nat) : Rat := value / (1 + (slots : Rat) / 18)

/-- No value but zero stays as it is while time passes. -/
theorem decayed_eq_self_iff (value : Rat) (slots : Nat) :
    decayed value slots = value ↔ slots = 0 ∨ value = 0 := by
  have positive : (0 : Rat) < 1 + (slots : Rat) / 18 := by positivity
  rw [decayed, div_eq_iff positive.ne', mul_add, mul_one, left_eq_add, mul_eq_zero,
    div_eq_zero_iff, Nat.cast_eq_zero]
  constructor
  · rintro (zero | passed | impossible)
    · exact Or.inr zero
    · exact Or.inl passed
    · norm_num at impossible
  · rintro (passed | zero)
    · exact Or.inr (Or.inl passed)
    · exact Or.inl zero

/-- Exact amounts are added in any order. -/
theorem foldl_add (amounts : List Rat) (value : Rat) :
    amounts.foldl (· + ·) value = value + amounts.sum := by
  induction amounts generalizing value with
  | nil => rw [List.foldl_nil, List.sum_nil, add_zero]
  | cons amount rest inductionHypothesis =>
    rw [List.foldl_cons, inductionHypothesis, List.sum_cons, add_assoc]

/-- As time passes the value is carried over in full. -/
theorem decayLink_of_le {ts : UInt64} {state : LinkStateMut Rat}
    (later : state.mostRecentLsSlot ≤ ts) :
    decayLink ts state = { state with mostRecentLsSlot := ts } := by
  have notAhead : ¬state.mostRecentLsSlot > ts := UInt64.not_lt.mpr later
  simp only [decayLink, if_neg notAhead]

/-- An update at a slot not before the latest one of the link leaves the decayed value and
what the recorded samples are worth, if and only if it is at that slot or there was no
value.

Proof: what an update leaves is the decayed value and what is added. The value decays if time has
passed, and it is left as it is exactly if none has or if there is nothing to decay. -/
theorem carried_over_iff (ls : LinkStateData) (ts earliest : UInt64) (link : Link Rat)
    (later : link.mutState.mostRecentLsSlot ≤ ts) :
    (updateLink ls ts earliest link).mutState.value =
        decayed link.mutState.value (ts - link.mutState.mostRecentLsSlot).toNat +
          (worths 0 (recordedSamples ls)).sum ↔
      ts = link.mutState.mostRecentLsSlot ∨ link.mutState.value = 0 := by
  have value := congrArg LinkStateMut.value (updateLink_spec ls ts earliest link).1
  dsimp only at value
  rw [value, addedBy_eq, foldl_add, decayLink_of_le later, add_left_inj, eq_comm,
    decayed_eq_self_iff]
  have passed : (ts - link.mutState.mostRecentLsSlot).toNat = 0 ↔
      ts = link.mutState.mostRecentLsSlot := by
    rw [UInt64.toNat_sub_of_le _ _ later, ← UInt64.toNat_inj]
    have bound : link.mutState.mostRecentLsSlot.toNat ≤ ts.toNat :=
      UInt64.le_iff_toNat_le.mp later
    omega
  rw [passed]

/-- A link that had a value of two at slot 160000000. -/
def valuedLink : Link Rat where
  label := ⟨0x2345, by decide, by decide⟩
  encodingFormNumber := 0
  peerNum := 2
  linkState := ∅
  createTime := 1600000000000
  mutState := ⟨160000000, 1500, 0, 1600000000000, 2⟩

/-- At the slot of the link itself nothing has to decay. -/
theorem carried_over_at_once :
    (updateLink twoSamples 160000000 (earliestOkTs 160000000) valuedLink).mutState.value =
        decayed valuedLink.mutState.value
          ((160000000 : UInt64) - valuedLink.mutState.mostRecentLsSlot).toNat +
            (worths 0 (recordedSamples twoSamples)).sum ↔
      160000000 = valuedLink.mutState.mostRecentLsSlot ∨ valuedLink.mutState.value = 0 :=
  carried_over_iff twoSamples 160000000 (earliestOkTs 160000000) valuedLink (by decide)

/-- After three minutes the value has not halved. -/
theorem value_not_halved :
    valuedLink.mutState.mostRecentLsSlot ≤ 160000018 ∧ 0 ≤ valuedLink.mutState.value ∧
      (updateLink twoSamples 160000018 (earliestOkTs 160000018) valuedLink).mutState.value ≠
        decayed valuedLink.mutState.value
          ((160000018 : UInt64) - valuedLink.mutState.mostRecentLsSlot).toNat +
            (worths 0 (recordedSamples twoSamples)).sum := by
  refine ⟨by decide, by decide +kernel, ?_⟩
  have updated :
      (updateLink twoSamples 160000018 (earliestOkTs 160000018) valuedLink).mutState.value =
        2 + (worths 0 (recordedSamples twoSamples)).sum := by
    have value := congrArg LinkStateMut.value
      (updateLink_spec twoSamples 160000018 (earliestOkTs 160000018) valuedLink).1
    rw [addedBy_eq] at value
    exact value.trans (foldl_add _ _)
  have half : decayed valuedLink.mutState.value
      ((160000018 : UInt64) - valuedLink.mutState.mostRecentLsSlot).toNat = 1 := by
    decide +kernel
  rw [updated, half, ne_eq, add_left_inj]
  decide +kernel

end RouteServer.Snode
