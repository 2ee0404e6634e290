import RouteServer.Ctrl.Checksum
import RouteServer.Rust.BigEndian
import RouteServer.Rust.Outcome
import RouteServer.Words.OnesComplement

/-!
# The standard checksum

The standard checksum is the complement of the one's complement sum of the data as
big-endian words, an odd last byte being the high one of its word. The code sums words in
the other byte order, folds the carries once and swaps the bytes of what is left. Each word
is 256 times the other modulo `0xffff`, and so are the sums, so the results agree as long as
the sum of 32 bits does not wrap.
-/

namespace RouteServer.Ctrl

open Rust OnesComplement

variable {ε : Type}

/-- The data as big-endian words. -/
def beWords : List UInt8 → List Nat
  | high :: low :: rest => (256 * high.toNat + low.toNat) :: beWords rest
  | [last] => [256 * last.toNat]
  | [] => []

/-- The one's complement sum of the data. -/
def onesSum (data : List UInt8) : Nat := sum 16 (beWords data)

/-- The standard checksum. -/
def internetChecksum (buf : List UInt8) : UInt16 := ~~~UInt16.ofNat (onesSum buf)

/-- The loop of `sum_be_words` under overflow checks. -/
def checkedWords (sum : Nat) : List UInt8 → Outcome ε Nat
  | low :: high :: rest => do
    let sum ← Outcome.checkedAdd 32 sum (low.toNat + 256 * high.toNat)
    checkedWords sum rest
  | _ => .ok sum

/-- `sum_be_words` under overflow checks. -/
def checkedSumBeWords (data : List UInt8) : Outcome ε Nat := do
  let sum ← checkedWords 0 data
  match data.getLast? with
  | some last => if data.length % 2 ≠ 0 then Outcome.checkedAdd 32 sum last.toNat else .ok sum
  | none => .ok 0

/-- The loop of `finalize_checksum` under overflow checks. -/
def checkedFoldCarries (sum : Nat) : Outcome ε Nat :=
  if sum > 0xffff then
    if sum / 2 ^ 16 + sum % 2 ^ 16 < 2 ^ 32 then
      checkedFoldCarries (sum / 2 ^ 16 + sum % 2 ^ 16)
    else .panicked
  else .ok sum

/-- `cksum_raw` under overflow checks. -/
def checkedCksumRaw (buf : List UInt8) : Outcome ε UInt16 := do
  let sum ← checkedFoldCarries (← checkedSumBeWords buf)
  let sum := UInt16.ofNat sum
  return ~~~(sum <<< 8 ||| sum >>> 8)

/-- The whole words of the data, the low byte first. -/
def leWords : List UInt8 → List Nat
  | low :: high :: rest => (low.toNat + 256 * high.toNat) :: leWords rest
  | _ => []

/-- The byte that is left over. -/
def oddByte : List UInt8 → Nat
  | _ :: _ :: rest => oddByte rest
  | [last] => last.toNat
  | [] => 0

/-- What the code sums. -/
def total (data : List UInt8) : Nat := (leWords data).sum + oddByte data

/-- What is left of the data when there are no two more bytes. -/
theorem nil_or_singleton {data : List UInt8}
    (short : ∀ first second rest, data = first :: second :: rest → False) :
    data = [] ∨ ∃ last, data = [last] := by
  obtain _ | ⟨last, _ | ⟨other, rest⟩⟩ := data
  · exact Or.inl rfl
  · exact Or.inr ⟨last, rfl⟩
  · exact absurd rfl (short last other rest)

/-- An even number of bytes has no odd one. -/
theorem oddByte_of_even {data : List UInt8} (even : data.length % 2 = 0) : oddByte data = 0 := by
  fun_induction oddByte data with
  | case1 _ _ rest inductionHypothesis =>
    rw [List.length_cons, List.length_cons] at even
    exact inductionHypothesis (by omega)
  | case2 => simp at even
  | case3 => rfl

/-- The odd byte is the last. -/
theorem oddByte_of_odd {data : List UInt8} (odd : data.length % 2 ≠ 0) :
    ∃ last, data.getLast? = some last ∧ oddByte data = last.toNat := by
  fun_induction oddByte data with
  | case1 first second rest inductionHypothesis =>
    rw [List.length_cons, List.length_cons] at odd
    obtain ⟨last, found, same⟩ := inductionHypothesis (by omega)
    exact ⟨last, by simp [List.getLast?_cons, found], same⟩
  | case2 last => exact ⟨last, rfl, rfl⟩
  | case3 => simp at odd

/-- Every word adds at most the largest one. -/
theorem total_le (data : List UInt8) : total data ≤ 65535 * ((data.length + 1) / 2) := by
  rw [total]
  fun_induction leWords data with
  | case1 low high rest inductionHypothesis =>
    have lowBound := low.toNat_lt
    have highBound := high.toNat_lt
    rw [oddByte, List.sum_cons, List.length_cons, List.length_cons]
    omega
  | case2 data short =>
    obtain rfl | ⟨last, rfl⟩ := nil_or_singleton short
    · exact Nat.zero_le _
    · have bound := last.toNat_lt
      simp only [oddByte, List.sum_nil, List.length_singleton]
      omega

/-- The sum of 32 bits, while it does not wrap. -/
theorem sumWords_toNat {sum : UInt32} {data : List UInt8}
    (small : sum.toNat + (leWords data).sum < 2 ^ 32) :
    (sumWords sum data).toNat = sum.toNat + (leWords data).sum := by
  fun_induction sumWords sum data with
  | case1 sum low high rest inductionHypothesis =>
    rw [leWords, List.sum_cons] at small ⊢
    have lowBound := low.toNat_lt
    have highBound := high.toNat_lt
    have word : (low.toUInt32 + high.toUInt32 * 256).toNat = low.toNat + 256 * high.toNat := by
      simp only [UInt32.toNat_add, UInt32.toNat_mul, UInt8.toNat_toUInt32, UInt32.toNat_ofNat]
      omega
    have next : (sum + (low.toUInt32 + high.toUInt32 * 256)).toNat =
        sum.toNat + (low.toNat + 256 * high.toNat) := by
      rw [UInt32.toNat_add, word]
      omega
    rw [inductionHypothesis (by omega), next]
    omega
  | case2 data sum short =>
    obtain rfl | ⟨last, rfl⟩ := nil_or_singleton short
    · rfl
    · rfl

/-- The last byte is added if the number of bytes is odd. -/
theorem sumBeWords_toNat {data : List UInt8} (small : total data < 2 ^ 32) :
    (sumBeWords data).toNat = total data := by
  have words : (sumWords 0 data).toNat = (leWords data).sum := by
    rw [total] at small
    rw [sumWords_toNat (by rw [UInt32.toNat_zero]; omega), UInt32.toNat_zero, Nat.zero_add]
  rw [sumBeWords]
  by_cases even : data.length % 2 = 0
  · rw [total, oddByte_of_even even, Nat.add_zero]
    split
    · rw [if_neg (not_not_intro even), words]
    · next none =>
      rw [List.getLast?_eq_none_iff.mp none]
      rfl
  · obtain ⟨last, found, odd⟩ := oddByte_of_odd even
    rw [total, odd] at small ⊢
    rw [found]
    dsimp only
    rw [if_pos even, UInt32.toNat_add, words, UInt8.toNat_toUInt32, Nat.mod_eq_of_lt small]

/-- No addition of the sum overflows. -/
theorem checkedSumBeWords_eq {data : List UInt8} (small : total data < 2 ^ 32) :
    (checkedSumBeWords data : Outcome ε Nat) = .ok (total data) := by
  have words (start : Nat) (fits : start + (leWords data).sum < 2 ^ 32) :
      (checkedWords start data : Outcome ε Nat) = .ok (start + (leWords data).sum) := by
    clear small
    fun_induction leWords data generalizing start with
    | case1 low high rest inductionHypothesis =>
      rw [List.sum_cons] at fits
      rw [checkedWords, Outcome.checkedAdd, if_pos (by omega), Outcome.ok_bind,
        inductionHypothesis _ (by omega), List.sum_cons, Nat.add_assoc]
    | case2 data short =>
      obtain rfl | ⟨last, rfl⟩ := nil_or_singleton short
      · rfl
      · rfl
  rw [total] at small
  rw [checkedSumBeWords, words 0 (by omega), Outcome.ok_bind, Nat.zero_add]
  by_cases even : data.length % 2 = 0
  · rw [total, oddByte_of_even even, Nat.add_zero]
    split
    · rw [if_neg (not_not_intro even)]
    · next none =>
      rw [List.getLast?_eq_none_iff.mp none]
      rfl
  · obtain ⟨last, found, odd⟩ := oddByte_of_odd even
    rw [odd] at small
    rw [total, odd, found]
    dsimp only
    rw [if_pos even, Outcome.checkedAdd, if_pos small]

/-- The largest word of sixteen bits. -/
theorem top_sixteen : top 16 = 65535 := rfl

/-- The loop of `finalize_checksum` folds the sum. -/
theorem foldCarries_eq (number : Nat) : foldCarries number = fold 16 number := by
  fun_induction foldCarries number with
  | case1 number large inductionHypothesis => rw [inductionHypothesis, fold_carry (by decide)]
  | case2 number small => exact (fold_of_le (by decide) (Nat.not_lt.mp small)).symm

/-- Big-endian words are the words that the code sums, times 256. -/
theorem beWords_sum (data : List UInt8) :
    (beWords data).sum ≡ 256 * total data [MOD 65535] ∧
      ((beWords data).sum = 0 ↔ total data = 0) ∧ ∀ word ∈ beWords data, word ≤ 65535 := by
  rw [total]
  fun_induction beWords data with
  | case1 high low rest inductionHypothesis =>
    obtain ⟨congruent, zero, bounded⟩ := inductionHypothesis
    have lowBound := low.toNat_lt
    have highBound := high.toNat_lt
    rw [leWords, oddByte, List.sum_cons, List.sum_cons]
    refine ⟨?_, by omega, List.forall_mem_cons.mpr ⟨by omega, bounded⟩⟩
    -- the low byte goes around the end: 65536 is one more than a multiple of 65535
    have word : 256 * high.toNat + low.toNat ≡ 256 * (high.toNat + 256 * low.toNat)
        [MOD 65535] := by
      rw [Nat.ModEq]
      omega
    calc 256 * high.toNat + low.toNat + (beWords rest).sum
        ≡ 256 * (high.toNat + 256 * low.toNat) +
          256 * ((leWords rest).sum + oddByte rest) [MOD 65535] := word.add congruent
      _ = 256 * (high.toNat + 256 * low.toNat + (leWords rest).sum + oddByte rest) := by omega
  | case2 last =>
    have bound := last.toNat_lt
    refine ⟨?_, ?_, ?_⟩
    · simp [leWords, oddByte, Nat.ModEq.refl]
    · simp [leWords, oddByte]
    · simp
      omega
  | case3 => simp [leWords, oddByte, Nat.ModEq.refl]

/-- The bytes of a word, swapped. -/
theorem swapped_toNat (word : UInt16) :
    (word <<< 8 ||| word >>> 8).toNat = 256 * (word.toNat % 256) + word.toNat / 256 := by
  have bound := word.toNat_lt
  have high : word.toNat / 256 < 2 ^ 8 := by omega
  have shifted : word.toNat <<< 8 % 2 ^ 16 = 256 * (word.toNat % 256) := by
    rw [Nat.shiftLeft_eq]
    omega
  have split := Nat.two_pow_add_eq_or_of_lt high (word.toNat % 256)
  rw [UInt16.toNat_or, UInt16.toNat_shiftLeft, UInt16.toNat_shiftRight]
  change word.toNat <<< 8 % 2 ^ 16 ||| word.toNat >>> 8 = _
  rw [shifted, Nat.shiftRight_eq_div_pow]
  exact split.symm

/-- Swapping the bytes of a folded sum folds 256 times the sum. -/
theorem swap_fold (number : Nat) :
    256 * (fold 16 number % 256) + fold 16 number / 256 = fold 16 (256 * number) := by
  have small : fold 16 number ≤ 65535 := fold_le (by decide) number
  refine (eq_fold_iff (by decide) _ _).mpr ⟨?_, ?_, ?_⟩
  · rw [top_sixteen]
    omega
  · calc 256 * (fold 16 number % 256) + fold 16 number / 256
        ≡ 256 * fold 16 number [MOD 65535] := by
          rw [Nat.ModEq]
          omega
      _ ≡ 256 * number [MOD 65535] := (fold_modEq (by decide) number).mul_left 256
  · have zero : fold 16 number = 0 ↔ number = 0 := fold_eq_zero_iff (by decide) number
    omega

/-- Carries of a sum of 32 bits are folded without an overflow. -/
theorem checkedFoldCarries_eq {sum : Nat} (small : sum < 2 ^ 32) :
    (checkedFoldCarries sum : Outcome ε Nat) = .ok (foldCarries sum) := by
  fun_induction foldCarries sum with
  | case1 sum large inductionHypothesis =>
    have fits : sum / 2 ^ 16 + sum % 2 ^ 16 < 2 ^ 32 := by omega
    rw [checkedFoldCarries, if_pos large, if_pos fits, inductionHypothesis fits]
  | case2 sum final => rw [checkedFoldCarries, if_neg final]

/-- The finalized sum is the complement of the folded sum in the other byte order. -/
theorem finalizeChecksum_eq (sum : UInt32) :
    finalizeChecksum sum = ~~~UInt16.ofNat (fold 16 (256 * sum.toNat)) := by
  have small : foldCarries sum.toNat < 2 ^ 16 := by
    rw [foldCarries_eq]
    exact Nat.lt_succ_of_le (fold_le (by decide) _)
  rw [finalizeChecksum]
  congr 1
  refine UInt16.toNat_inj.mp ?_
  rw [swapped_toNat, UInt16.toNat_ofNat_of_lt' small, foldCarries_eq, swap_fold,
    UInt16.toNat_ofNat_of_lt' (Nat.lt_succ_of_le (fold_le (by decide) _))]

/-- The one's complement sum is what the code sums, in the other byte order. -/
theorem onesSum_eq (data : List UInt8) : onesSum data = fold 16 (256 * total data) := by
  obtain ⟨congruent, zero, bounded⟩ := beWords_sum data
  rw [onesSum, sum_eq_fold (by decide) bounded]
  refine (eq_fold_iff (by decide) _ _).mpr ⟨fold_le (by decide) _, ?_, ?_⟩
  · exact (fold_modEq (by decide) _).trans congruent
  · rw [fold_eq_zero_iff (by decide), zero]
    omega

/-- Words of an even front are apart from those of what follows. -/
theorem beWords_append {front : List UInt8} (even : front.length % 2 = 0) (back : List UInt8) :
    beWords (front ++ back) = beWords front ++ beWords back := by
  fun_induction beWords front with
  | case1 high low rest inductionHypothesis =>
    rw [List.length_cons, List.length_cons] at even
    rw [List.cons_append, List.cons_append, beWords, inductionHypothesis (by omega),
      List.cons_append]
  | case2 => simp at even
  | case3 => rfl

/-- The bytes of a word are that word. -/
theorem beWords_toBe (word : UInt16) : beWords (toBe 2 word.toNat) = [word.toNat] := by
  have bound := word.toNat_lt
  have bytes : toBe 2 word.toNat = [UInt8.ofNat (word.toNat / 256), UInt8.ofNat word.toNat] := rfl
  rw [bytes, beWords, beWords, UInt8.toNat_ofNat', UInt8.toNat_ofNat']
  congr 1
  omega

/-- A word at an even offset counts as itself. -/
theorem onesSum_word {front : List UInt8} (even : front.length % 2 = 0) (word : UInt16)
    (back : List UInt8) :
    onesSum (front ++ toBe 2 word.toNat ++ back) =
      fold 16 ((beWords (front ++ back)).sum + word.toNat) := by
  have whole : (front ++ toBe 2 word.toNat).length % 2 = 0 := by
    rw [List.length_append, toBe_length]
    omega
  obtain ⟨-, -, bounded⟩ := beWords_sum (front ++ toBe 2 word.toNat ++ back)
  rw [onesSum, sum_eq_fold (by decide) bounded, beWords_append whole, beWords_append even,
    beWords_append even, beWords_toBe]
  simp only [List.sum_append, List.sum_singleton]
  congr 1
  omega

/-- Data with the checksum in place of zero adds up to the top. -/
theorem onesSum_complement {front : List UInt8} (even : front.length % 2 = 0)
    {back data : List UInt8}
    (inserted : data = front ++ back ∨ data = front ++ [0, 0] ++ back) :
    onesSum (front ++ toBe 2 (internetChecksum data).toNat ++ back) = 0xffff := by
  have without : onesSum data = fold 16 (beWords (front ++ back)).sum := by
    rcases inserted with rfl | rfl
    · obtain ⟨-, -, bounded⟩ := beWords_sum (front ++ back)
      exact sum_eq_fold (by decide) bounded
    · exact onesSum_word even 0 back
  have small : onesSum data ≤ 65535 := by
    rw [without]
    exact fold_le (by decide) _
  have complement : (internetChecksum data).toNat =
      top 16 - fold 16 (beWords (front ++ back)).sum := by
    rw [internetChecksum, UInt16.toNat_not, UInt16.toNat_ofNat_of_lt' (Nat.lt_succ_of_le small),
      without]
    rfl
  rw [onesSum_word even, complement]
  exact fold_complement (by decide) _

/-- `cksum_raw` is the standard checksum, and nothing overflows.

Proof: sums are taken modulo the largest word, where carrying a bit around changes nothing and
swapping the bytes of all words swaps those of the sum. -/
theorem cksumRaw_standard {buf : List UInt8} (small : buf.length ≤ 131072) :
    (checkedCksumRaw buf : Outcome ε UInt16) = .ok (internetChecksum buf) ∧
      cksumRaw buf = internetChecksum buf ∧
      ∀ front back, front.length % 2 = 0 →
        buf = front ++ back ∨ buf = front ++ [0, 0] ++ back →
        onesSum (front ++ toBe 2 (cksumRaw buf).toNat ++ back) = 0xffff := by
  have bound : total buf < 2 ^ 32 := by
    have most := total_le buf
    omega
  have standard : cksumRaw buf = internetChecksum buf := by
    rw [cksumRaw, finalizeChecksum_eq, sumBeWords_toNat bound, internetChecksum, onesSum_eq]
  refine ⟨?_, standard, ?_⟩
  · rw [← standard, checkedCksumRaw, checkedSumBeWords_eq bound, Outcome.ok_bind,
      checkedFoldCarries_eq bound, Outcome.ok_bind, cksumRaw, finalizeChecksum,
      sumBeWords_toNat bound]
    rfl
  · intro front back even same
    rw [standard]
    exact onesSum_complement even same

/-- Three bytes, the first word of them not zero. -/
theorem three_bytes_standard :
    (checkedCksumRaw [0, 1, 2] : Outcome Empty UInt16) = .ok (internetChecksum [0, 1, 2]) ∧
      cksumRaw [0, 1, 2] = internetChecksum [0, 1, 2] ∧
      ∀ front back, front.length % 2 = 0 →
        [0, 1, 2] = front ++ back ∨ [0, 1, 2] = front ++ [0, 0] ++ back →
        onesSum (front ++ toBe 2 (cksumRaw [0, 1, 2]).toNat ++ back) = 0xffff :=
  cksumRaw_standard (by decide)

end RouteServer.Ctrl
