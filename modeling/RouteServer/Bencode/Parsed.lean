import RouteServer.Bencode.Parser

/-!
# What the parser returns

Keys are inserted in order, values are read one level deeper than their container,
and the magnitude of an integer is bounded before its sign is applied. So what is
returned is ordered, nested within the limit and free of the least integer, whatever
bytes it was read from.
-/

namespace RouteServer.Bencode

open Rust

/-- An object that a parser with these limits returns at a depth. -/
structure Parsed (limits : Limits) (depth : Nat) (object : Object) : Prop where
  ordered : object.Ordered
  room : depth + object.nesting ≤ limits.maxRecursion + 1
  readable : Int64.minValue ∉ object.integers

/-- A number that has been read is within the limit of its loop.

Proof: induction on the input; one more digit is taken only within the limit. -/
theorem readDecimal_le {decimal : Decimal} {byte : UInt8} {number result : Nat}
    {input rest : List UInt8} (small : number ≤ decimal.limit)
    (read : readDecimal decimal byte number input = .ok (result, rest)) :
    result ≤ decimal.limit := by
  have pushed {byte : UInt8} {number next : Nat} (ok : pushDigit decimal byte number = .ok next) :
      next ≤ decimal.limit := by
    rw [pushDigit] at ok
    split at ok
    · cases ok
    · dsimp only at ok
      split at ok
      · cases ok
      · cases ok
        omega
  induction input generalizing byte number with
  | nil =>
    rw [readDecimal] at read
    split at read
    · cases read
      exact small
    · simp [Outcome.bind_ok_iff] at read
  | cons following tail inductionHypothesis =>
    rw [readDecimal] at read
    split at read
    · cases read
      exact small
    · obtain ⟨next, push, loop⟩ := (Outcome.bind_ok_iff _ _ _).mp read
      split at loop
      · cases loop
      · exact inductionHypothesis (pushed push) loop

/-- The least integer is never read. -/
theorem readInt_ne_minValue {input rest : List UInt8} {number : Int64}
    (read : readInt input = .ok (number, rest)) : number ≠ Int64.minValue := by
  simp only [readInt, Outcome.bind_ok_iff, Prod.exists] at read
  obtain ⟨isNegative, byte, afterSign, -, body⟩ := read
  split at body
  · cases body
  · simp only [Outcome.bind_ok_iff, Prod.exists] at body
    obtain ⟨value, afterDigits, digits, finish⟩ := body
    have bound : value ≤ 2 ^ 63 - 1 := readDecimal_le (Nat.zero_le _) digits
    have inRange {spelled : Int} (lower : -2 ^ 63 < spelled) (upper : spelled < 2 ^ 63) :
        Int64.ofInt spelled ≠ Int64.minValue := by
      intro same
      have values : (Int64.ofInt spelled).toInt = Int64.minValue.toInt := congrArg Int64.toInt same
      rw [Int64.toInt_ofInt_of_le (by omega) upper, Int64.toInt_minValue] at values
      omega
    split at finish
    · split at finish
      · cases finish
      · cases finish
        exact inRange (by omega) (by omega)
    · cases finish
      exact inRange (by omega) (by omega)

/-- A bound for every item bounds the nesting of a list. -/
theorem nestingItems_le {items : List Object} {bound : Nat}
    (each : ∀ item ∈ items, item.nesting ≤ bound) : nestingItems items ≤ bound := by
  induction items with
  | nil => exact Nat.zero_le _
  | cons item rest inductionHypothesis =>
    obtain ⟨first, others⟩ := List.forall_mem_cons.mp each
    exact Nat.max_le.mpr ⟨first, inductionHypothesis others⟩

/-- A bound for every value bounds the nesting of a dictionary. -/
theorem nestingEntries_le {entries : List (Bstr × Object)} {bound : Nat}
    (each : ∀ entry ∈ entries, entry.2.nesting ≤ bound) : nestingEntries entries ≤ bound := by
  induction entries with
  | nil => exact Nat.zero_le _
  | cons entry rest inductionHypothesis =>
    obtain ⟨first, others⟩ := List.forall_mem_cons.mp each
    exact Nat.max_le.mpr ⟨first, inductionHypothesis others⟩

/-- The integers of a list are those of its items. -/
theorem mem_itemsIntegers {items : List Object} {number : Int64}
    (member : number ∈ itemsIntegers items) : ∃ item ∈ items, number ∈ item.integers := by
  induction items with
  | nil => cases member
  | cons item rest inductionHypothesis =>
    rcases List.mem_append.mp member with first | others
    · exact ⟨item, List.mem_cons_self, first⟩
    · obtain ⟨found, inside, has⟩ := inductionHypothesis others
      exact ⟨found, List.mem_cons_of_mem _ inside, has⟩

/-- The integers of a dictionary are those of its values. -/
theorem mem_entriesIntegers {entries : List (Bstr × Object)} {number : Int64}
    (member : number ∈ entriesIntegers entries) :
    ∃ entry ∈ entries, number ∈ entry.2.integers := by
  induction entries with
  | nil => cases member
  | cons entry rest inductionHypothesis =>
    rcases List.mem_append.mp member with first | others
    · exact ⟨entry, List.mem_cons_self, first⟩
    · obtain ⟨found, inside, has⟩ := inductionHypothesis others
      exact ⟨found, List.mem_cons_of_mem _ inside, has⟩

/-- A list of what is returned one level deeper is returned. -/
theorem Parsed.list {limits : Limits} {depth : Nat} {items : List Object}
    (permitted : depth ≤ limits.maxRecursion)
    (each : ∀ item ∈ items, Parsed limits (depth + 1) item) :
    Parsed limits depth (.list items) := by
  have nesting : nestingItems items ≤ limits.maxRecursion - depth := by
    apply nestingItems_le
    intro item member
    have inner := (each item member).room
    omega
  refine ⟨.list items fun item member => (each item member).ordered, ?_, ?_⟩
  · rw [Object.nesting]
    omega
  · intro least
    obtain ⟨item, inside, has⟩ := mem_itemsIntegers least
    exact (each item inside).readable has

/-- A sorted dictionary of what is returned one level deeper is returned. -/
theorem Parsed.dict {limits : Limits} {depth : Nat} {entries : List (Bstr × Object)}
    (permitted : depth ≤ limits.maxRecursion) (sorted : OrderedMap.Sorted entries)
    (each : ∀ entry ∈ entries, Parsed limits (depth + 1) entry.2) :
    Parsed limits depth (.dict entries) := by
  have nesting : nestingEntries entries ≤ limits.maxRecursion - depth := by
    apply nestingEntries_le
    intro entry member
    have inner := (each entry member).room
    omega
  refine ⟨.dict entries sorted fun entry member => (each entry member).ordered, ?_, ?_⟩
  · rw [Object.nesting]
    omega
  · intro least
    obtain ⟨entry, inside, has⟩ := mem_entriesIntegers least
    exact (each entry inside).readable has

/-- A value leaves a shorter stream. -/
theorem readGeneric_length {limits : Limits} {memory : Allocator} {depth : Nat}
    {input rest : List UInt8} {object : Object}
    (read : readGeneric limits depth input memory = .ok (object, rest)) :
    rest.length < input.length := by
  cases input with
  | nil => cases read
  | cons chr tail =>
    rw [readGeneric] at read
    cases found : readGenericWithByte limits depth chr tail memory with
    | ok result =>
      obtain ⟨⟨value, after⟩, shorter⟩ := result
      rw [found] at read
      cases read
      exact Nat.lt_succ_of_le shorter
    | err fault =>
      rw [found] at read
      cases read
    | panicked =>
      rw [found] at read
      cases read

/-- A value is returned at a permitted depth only. -/
theorem readGeneric_permitted {limits : Limits} {depth : Nat} {input rest : List UInt8}
    {object : Object} (read : readGeneric limits depth input = .ok (object, rest)) :
    depth ≤ limits.maxRecursion := by
  cases input with
  | nil => cases read
  | cons chr tail =>
    apply Nat.le_of_not_lt
    intro exceeded
    rw [readGeneric, readGenericWithByte, if_pos exceeded] at read
    cases read

/-- What the readers return from streams up to a length. -/
structure ParsedUpTo (limits : Limits) (bound : Nat) : Prop where
  generic : ∀ (depth : Nat) (input rest : List UInt8) (object : Object), input.length ≤ bound →
    readGeneric limits depth input = .ok (object, rest) → Parsed limits depth object
  list : ∀ (depth : Nat) (input rest : List UInt8) (items all : List Object),
    input.length ≤ bound → contents (readList limits depth items input) = .ok (all, rest) →
    (∀ item ∈ items, Parsed limits depth item) → ∀ item ∈ all, Parsed limits depth item
  dict : ∀ (depth : Nat) (acceptZeroPad : Bool) (input rest : List UInt8)
    (entries all : List (Bstr × Object)), input.length ≤ bound →
    contents (readDict limits depth acceptZeroPad entries input) = .ok (all, rest) →
    OrderedMap.Sorted entries → (∀ entry ∈ entries, Parsed limits depth entry.2) →
    OrderedMap.Sorted all ∧ ∀ entry ∈ all, Parsed limits depth entry.2

/-- A value by its first byte, from what follows it.

Proof: by the first byte, as the reader branches on it. What is inside a list or a dictionary
was read from a shorter stream. -/
theorem ParsedUpTo.generic_step {limits : Limits} {bound : Nat} (shorter : ParsedUpTo limits bound)
    (depth : Nat) (input rest : List UInt8) (object : Object) (short : input.length ≤ bound + 1)
    (read : readGeneric limits depth input = .ok (object, rest)) : Parsed limits depth object := by
  have permitted : depth ≤ limits.maxRecursion := readGeneric_permitted read
  cases input with
  | nil => cases read
  | cons chr tail =>
    have tailShort : tail.length ≤ bound := Nat.le_of_succ_le_succ short
    rw [readGeneric_cons limits depth chr tail permitted] at read
    split at read
    · obtain ⟨⟨items, after⟩, itemsRead, built⟩ := (Outcome.bind_ok_iff _ _ _).mp read
      cases built
      exact .list permitted (shorter.list _ _ _ _ _ tailShort itemsRead (by simp))
    · split at read
      · obtain ⟨⟨entries, after⟩, entriesRead, built⟩ := (Outcome.bind_ok_iff _ _ _).mp read
        cases built
        obtain ⟨sorted, each⟩ :=
          shorter.dict _ _ _ _ _ _ tailShort entriesRead List.Pairwise.nil (by simp)
        exact .dict permitted sorted each
      · split at read
        · obtain ⟨⟨number, after⟩, numberRead, built⟩ := (Outcome.bind_ok_iff _ _ _).mp read
          cases built
          refine ⟨.integer number, by simpa [Object.nesting] using permitted, ?_⟩
          simpa [Object.integers] using (readInt_ne_minValue numberRead).symm
        · split at read
          · obtain ⟨⟨content, after⟩, -, built⟩ := (Outcome.bind_ok_iff _ _ _).mp read
            cases built
            exact ⟨.bytes content, by simpa [Object.nesting] using permitted,
              by simp [Object.integers]⟩
          · cases read

/-- One more item of a list, or one more entry of a dictionary, leaves a shorter stream.

Proof: induction on the bound. A value takes one byte and leaves a shorter stream to its
members. -/
theorem parsedUpTo (limits : Limits) (bound : Nat) : ParsedUpTo limits bound := by
  induction bound with
  | zero =>
    refine ⟨?_, ?_, ?_⟩
    · intro depth input rest object short read
      cases List.length_eq_zero_iff.mp (Nat.le_zero.mp short)
      cases read
    · intro depth input rest items all short read
      cases List.length_eq_zero_iff.mp (Nat.le_zero.mp short)
      rw [readList] at read
      cases read
    · intro depth acceptZeroPad input rest entries all short read
      cases List.length_eq_zero_iff.mp (Nat.le_zero.mp short)
      rw [readDict] at read
      cases read
  | succ bound shorter =>
    refine ⟨shorter.generic_step, ?_, ?_⟩
    · intro depth input rest items all short read each
      cases input with
      | nil =>
        rw [readList] at read
        cases read
      | cons byte tail =>
        rw [readList_cons] at read
        split at read
        · cases read
          exact each
        · obtain ⟨⟨item, after⟩, itemRead, others⟩ := (Outcome.bind_ok_iff _ _ _).mp read
          have left : after.length < tail.length + 1 := readGeneric_length itemRead
          have new := shorter.generic_step depth _ _ item short itemRead
          rw [List.length_cons] at short
          apply shorter.list depth after rest (items ++ [item]) all (by omega) others
          intro stored member
          rcases List.mem_append.mp member with before | last
          · exact each stored before
          · exact List.mem_singleton.mp last ▸ new
    · intro depth acceptZeroPad input rest entries all short read sorted each
      cases input with
      | nil =>
        rw [readDict] at read
        cases read
      | cons byte tail =>
        rw [readDict_cons] at read
        split at read
        · cases read
          exact ⟨sorted, each⟩
        · obtain ⟨⟨key, afterKey⟩, keyRead, afterwards⟩ := (Outcome.bind_ok_iff _ _ _).mp read
          obtain ⟨⟨value, after⟩, valueRead, others⟩ := (Outcome.bind_ok_iff _ _ _).mp afterwards
          have keyLeft := readStringWithByte_length byte acceptZeroPad tail afterKey key keyRead
          have left : after.length < afterKey.length := readGeneric_length valueRead
          rw [List.length_cons] at short
          have new := shorter.generic depth afterKey after value (by omega) valueRead
          apply shorter.dict depth false after rest _ all (by omega) others
            (OrderedMap.insert_sorted key value entries sorted)
          intro stored member
          rcases OrderedMap.mem_insert key value entries stored member with rfl | before
          · exact new
          · exact each stored before

/-- What the parser returns is ordered, within the limit and free of the least integer. -/
theorem parsed_of_parse {limits : Limits} {input rest : List UInt8} {object : Object}
    (read : parse limits input = .ok (object, rest)) : Parsed limits 0 object :=
  (parsedUpTo limits input.length).generic 0 input rest object (Nat.le_refl _) read

end RouteServer.Bencode
