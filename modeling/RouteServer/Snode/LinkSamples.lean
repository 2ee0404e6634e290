import RouteServer.Snode.Link

/-!
# The samples of a link state

The slots of a link state are a circle, filled from the starting point on, so the sample
at the starting point is the oldest one. The loop walks the circle backwards from below
the starting point until it would reach the starting point: it visits seventeen of the
eighteen slots. The newest sample is stored at the slot of the announcement, each older
one a slot earlier, and each adds its value, divided by its age, to the link. What is
added is listed, since a sum of doubles does not tell what it was added from.
-/

namespace RouteServer.Snode

open Rust Keys Ann Labels

variable {V : Type} [LinkArithmetic V]

/-- The sample in a slot, if its three parts are there. -/
def sampleAt (ls : LinkStateData) (i : Nat) : Option LinkStateEntry :=
  match ls.dropSlots[i]?.join, ls.lagSlots[i]?.join, ls.kbRecvSlots[i]?.join with
  | some dropSlot, some lagSlot, some kbRecvSlot =>
    some { drops := dropSlot, lag := lagSlot, kbRecv := kbRecvSlot }
  | _, _, _ => none

/-- What one sample does to a link, with the timeslot of the next sample. -/
def recordSample (ts : UInt64) (state : Link V × UInt64) (sample : LinkStateEntry) :
    Link V × UInt64 :=
  ({ state.1 with
      linkState := state.1.linkState.insert state.2 sample
      mutState := { state.1.mutState with
        value := state.1.mutState.value +
          sample.lsValue / (1 + ((ts - state.2).toNat : V) * decayPerTimeslot) } },
    state.2 - 1)

/-- The samples that the loop records, the newest first. -/
def recordedSamples (ls : LinkStateData) : List LinkStateEntry :=
  (visitedSlots (ls.startingPoint.toNat % linkStateSlots)).filterMap (sampleAt ls)

/-- The samples an entity carries, the oldest first: they fill consecutive slots from
the starting point on, and the other slots are empty. -/
def Carries (ls : LinkStateData) (samples : List LinkStateEntry) : Prop :=
  samples.length ≤ linkStateSlots ∧ ∀ offset, offset < linkStateSlots →
    sampleAt ls ((ls.startingPoint.toNat % linkStateSlots + offset) % linkStateSlots) =
      samples[offset]?

/-- What a sample of an age, in slots, is worth. -/
def LinkStateEntry.worth (age : Nat) (sample : LinkStateEntry) : V :=
  sample.lsValue / (1 + (age : V) * decayPerTimeslot)

/-- What each of some samples is worth, every one a slot older than the one before it. -/
def worths : Nat → List LinkStateEntry → List V
  | _, [] => []
  | age, sample :: older => sample.worth age :: worths (age + 1) older

/-- What the loop adds to the value of a link at some slots, one after another. -/
def additions (ls : LinkStateData) (ts : UInt64) : UInt64 → List Nat → List V
  | _, [] => []
  | time, i :: rest =>
    match sampleAt ls i with
    | some sample => sample.worth (ts - time).toNat :: additions ls ts (time - 1) rest
    | none => additions ls ts time rest

/-- What the update with an entity adds. -/
def addedBy (ls : LinkStateData) (ts : UInt64) : List V :=
  additions ls ts ts (visitedSlots (ls.startingPoint.toNat % linkStateSlots))

/-- An iteration of the loop records the sample of its slot. -/
theorem recordSlot_eq (ls : LinkStateData) (ts : UInt64) (state : Link V × UInt64) (i : Nat) :
    recordSlot ls ts state i = (sampleAt ls i).elim state (recordSample ts state) := by
  obtain ⟨link, time⟩ := state
  rw [recordSlot, sampleAt]
  dsimp only
  cases ls.dropSlots[i]?.join with
  | none => rfl
  | some dropSlot =>
    cases ls.lagSlots[i]?.join with
    | none => rfl
    | some lagSlot => cases ls.kbRecvSlots[i]?.join <;> rfl

/-- The loop records the samples it finds. -/
theorem foldl_recordSlot (ls : LinkStateData) (ts : UInt64) (slots : List Nat)
    (state : Link V × UInt64) :
    slots.foldl (recordSlot ls ts) state =
      (slots.filterMap (sampleAt ls)).foldl (recordSample ts) state := by
  induction slots generalizing state with
  | nil => rfl
  | cons i rest inductionHypothesis =>
    rw [List.foldl_cons, recordSlot_eq, inductionHypothesis]
    cases found : sampleAt ls i with
    | none => rw [List.filterMap_cons_none found, Option.elim_none]
    | some sample => rw [List.filterMap_cons_some found, List.foldl_cons, Option.elim_some]

/-- Counted from the starting point, the loop visits the slots 17 down to 1. -/
theorem visitedSlots_eq {sp : Nat} (inside : sp < linkStateSlots) :
    visitedSlots sp =
      ((List.range' 1 (linkStateSlots - 1)).reverse).map
        fun offset => (sp + offset) % linkStateSlots := by
  have all : ∀ sp : Fin linkStateSlots, visitedSlots sp =
      ((List.range' 1 (linkStateSlots - 1)).reverse).map
        fun offset => (sp + offset) % linkStateSlots := by decide
  exact all ⟨sp, inside⟩

/-- Looking up consecutive places gives that part of a list. -/
theorem filterMap_range' {α : Type} (list : List α) (start count : Nat) :
    (List.range' start count).filterMap (list[·]?) = (list.drop start).take count := by
  induction count generalizing start with
  | zero => simp
  | succ count inductionHypothesis =>
    rw [List.range'_succ]
    cases found : list[start]? with
    | none =>
      rw [List.filterMap_cons_none found, inductionHypothesis]
      have short : list.length ≤ start := List.getElem?_eq_none_iff.mp found
      rw [List.drop_eq_nil_of_le short, List.drop_eq_nil_of_le (short.trans (Nat.le_succ _)),
        List.take_nil, List.take_nil]
    | some value =>
      obtain ⟨inside, same⟩ := List.getElem?_eq_some_iff.mp found
      rw [List.filterMap_cons_some found, inductionHypothesis, List.drop_eq_getElem_cons inside,
        same, List.take_succ_cons]

/-- The loop records every carried sample but the oldest one. -/
theorem recordedSamples_eq {ls : LinkStateData} {samples : List LinkStateEntry}
    (carries : Carries ls samples) : recordedSamples ls = samples.tail.reverse := by
  obtain ⟨short, slots⟩ := carries
  have inside : ls.startingPoint.toNat % linkStateSlots < linkStateSlots :=
    Nat.mod_lt _ (by decide)
  rw [recordedSamples, visitedSlots_eq inside, List.filterMap_map]
  have found : ∀ offset ∈ (List.range' 1 (linkStateSlots - 1)).reverse,
      (sampleAt ls ∘ fun offset =>
        (ls.startingPoint.toNat % linkStateSlots + offset) % linkStateSlots) offset =
          samples[offset]? := by
    intro offset member
    rw [List.mem_reverse, List.mem_range'_1] at member
    exact slots offset (by simp only [linkStateSlots] at member ⊢; omega)
  rw [List.filterMap_congr found, List.filterMap_reverse, filterMap_range', List.drop_one,
    List.take_of_length_le (by rw [List.length_tail]; omega)]

/-- Timeslots before a given one are as far apart as their ages, within the width. -/
theorem sub_ofNat_inj {ts : UInt64} {first second : Nat} (firstSmall : first < 2 ^ 64)
    (secondSmall : second < 2 ^ 64) :
    ts - UInt64.ofNat first = ts - UInt64.ofNat second ↔ first = second := by
  rw [UInt64.sub_right_inj, ← UInt64.toNat_inj, UInt64.toNat_ofNat_of_lt' firstSmall,
    UInt64.toNat_ofNat_of_lt' secondSmall]

/-- The age of the slot that a sample is stored at. -/
theorem age_of_slot (ts : UInt64) {age : Nat} (small : age < 2 ^ 64) :
    (ts - (ts - UInt64.ofNat age)).toNat = age := by
  have same : ts - (ts - UInt64.ofNat age) = UInt64.ofNat age := by grind
  rw [same, UInt64.toNat_ofNat_of_lt' small]

/-- The slot before one of an age is a slot older. -/
theorem older_slot (ts : UInt64) (age : Nat) :
    ts - UInt64.ofNat age - 1 = ts - UInt64.ofNat (age + 1) := by
  rw [UInt64.ofNat_add]
  grind

/-- What is listed is what the loop adds, in that order. -/
theorem foldl_recordSlot_value (ls : LinkStateData) (ts : UInt64) (slots : List Nat)
    (link : Link V) (time : UInt64) :
    (slots.foldl (recordSlot ls ts) (link, time)).1.mutState.value =
      (additions ls ts time slots).foldl (· + ·) link.mutState.value := by
  induction slots generalizing link time with
  | nil => rfl
  | cons i rest inductionHypothesis =>
    rw [List.foldl_cons, recordSlot_eq, additions]
    cases sampleAt ls i with
    | none => exact inductionHypothesis link time
    | some sample => exact inductionHypothesis (recordSample ts (link, time) sample).1 (time - 1)

/-- Each sample found adds what it is worth at its age. -/
theorem additions_eq (ls : LinkStateData) (ts : UInt64) (slots : List Nat) (age : Nat)
    (small : age + slots.length < 2 ^ 64) :
    (additions ls ts (ts - UInt64.ofNat age) slots : List V) =
      worths age (slots.filterMap (sampleAt ls)) := by
  induction slots generalizing age with
  | nil => rfl
  | cons i rest inductionHypothesis =>
    rw [List.length_cons] at small
    rw [additions]
    cases found : sampleAt ls i with
    | none =>
      rw [List.filterMap_cons_none found]
      exact inductionHypothesis age (by omega)
    | some sample =>
      rw [List.filterMap_cons_some found, worths, ← inductionHypothesis (age + 1) (by omega),
        ← older_slot]
      dsimp only
      rw [age_of_slot ts (by omega)]

/-- Recorded samples are stored slot by slot. Everything stored at other slots stays.

Proof: induction on the samples, each of which goes to the slot before that of the last one. -/
theorem foldl_recordSample (ts : UInt64) (samples : List LinkStateEntry) (link : Link V)
    (age : Nat) (small : age + samples.length < 2 ^ 64) (slotAge : Nat)
    (bounded : slotAge < 2 ^ 64) :
    (samples.foldl (recordSample ts) (link, ts - UInt64.ofNat age)).1.linkState.lookup
        (ts - UInt64.ofNat slotAge) =
      if age ≤ slotAge ∧ slotAge < age + samples.length then samples[slotAge - age]?
      else link.linkState.lookup (ts - UInt64.ofNat slotAge) := by
  induction samples generalizing link age with
  | nil => rw [List.foldl_nil, List.length_nil, if_neg (by omega)]
  | cons sample older inductionHypothesis =>
    rw [List.length_cons] at small
    let stored := (recordSample ts (link, ts - UInt64.ofNat age) sample).1
    have folded : (sample :: older).foldl (recordSample ts) (link, ts - UInt64.ofNat age) =
        older.foldl (recordSample ts) (stored, ts - UInt64.ofNat (age + 1)) := by
      rw [List.foldl_cons, ← older_slot]
      rfl
    rw [folded, inductionHypothesis stored (age + 1) (by omega), List.length_cons]
    by_cases same : slotAge = age
    · subst same
      rw [if_neg (by omega), if_pos (by omega), Nat.sub_self, List.getElem?_cons_zero]
      exact AList.lookup_insert _
    · have apart : ts - UInt64.ofNat slotAge ≠ ts - UInt64.ofNat age := by
        rwa [ne_eq, sub_ofNat_inj bounded (by omega)]
      have kept : stored.linkState.lookup (ts - UInt64.ofNat slotAge) =
          link.linkState.lookup (ts - UInt64.ofNat slotAge) := AList.lookup_insert_ne apart
      by_cases within : age + 1 ≤ slotAge ∧ slotAge < age + 1 + older.length
      · rw [if_pos within, if_pos (by omega)]
        rw [show slotAge - age = slotAge - (age + 1) + 1 by omega, List.getElem?_cons_succ]
      · rw [if_neg within, if_neg (by omega), kept]

/-- Recording samples leaves all of the state of a link but its value. -/
theorem foldl_recordSample_rest (ts : UInt64) (samples : List LinkStateEntry)
    (state : Link V × UInt64) :
    let recorded := (samples.foldl (recordSample ts) state).1
    recorded.mutState = { state.1.mutState with value := recorded.mutState.value } := by
  induction samples generalizing state with
  | nil => rfl
  | cons sample older inductionHypothesis =>
    exact inductionHypothesis (recordSample ts state sample)

/-- A slot of a link that is not older than the earliest one to keep. -/
def keptSlot (earliestOkTs : UInt64) (link : Link V) (slot : UInt64) : Option LinkStateEntry :=
  if slot < earliestOkTs then none else link.linkState.lookup slot

/-- All slots but the one that the walk starts behind are visited. -/
theorem length_visitedSlots (ls : LinkStateData) :
    (visitedSlots (ls.startingPoint.toNat % linkStateSlots)).length = linkStateSlots - 1 := by
  have inside : ls.startingPoint.toNat % linkStateSlots < linkStateSlots :=
    Nat.mod_lt _ (by decide)
  rw [visitedSlots_eq inside]
  simp [linkStateSlots]

/-- The update adds what the samples that it records are worth, the newest first. -/
theorem addedBy_eq (ls : LinkStateData) (ts : UInt64) :
    (addedBy ls ts : List V) = worths 0 (recordedSamples ls) := by
  have start : ts - UInt64.ofNat 0 = ts := UInt64.sub_zero ts
  have few := length_visitedSlots ls
  rw [addedBy, recordedSamples, ← additions_eq ls ts _ 0 (by rw [few]; decide), start]

/-- What the update of a link comes to: the recorded samples stand at the latest slots,
and what is added is added to the value that was carried over.

Proof: the loop records the samples in a row from the latest slot on, and there are fewer of
them than slots, so no two of them meet. -/
theorem updateLink_spec (ls : LinkStateData) (ts earliestOkTs : UInt64) (link : Link V) :
    (updateLink ls ts earliestOkTs link).mutState =
        { decayLink ts link.mutState with
          value := (addedBy ls ts).foldl (· + ·) (decayLink ts link.mutState).value } ∧
      ∀ age, age < 2 ^ 64 →
        (updateLink ls ts earliestOkTs link).linkState.lookup (ts - UInt64.ofNat age) =
          if age < (recordedSamples ls).length then (recordedSamples ls)[age]?
          else keptSlot earliestOkTs link (ts - UInt64.ofNat age) := by
  have few : (recordedSamples ls).length ≤ linkStateSlots - 1 :=
    (List.length_filterMap_le _ _).trans (length_visitedSlots ls).le
  let aged := { link with
    linkState := HashMap.retain (fun oldLs _ => decide (¬oldLs < earliestOkTs)) link.linkState
    mutState := decayLink ts link.mutState }
  have start : ts - UInt64.ofNat 0 = ts := UInt64.sub_zero ts
  have updated : updateLink ls ts earliestOkTs link =
      ((recordedSamples ls).foldl (recordSample ts) (aged, ts - UInt64.ofNat 0)).1 := by
    rw [updateLink, foldl_recordSlot, start]
    rfl
  have kept (slot : UInt64) : aged.linkState.lookup slot = keptSlot earliestOkTs link slot := by
    ext sample
    rw [keptSlot]
    simp only [aged, HashMap.lookup_retain, decide_eq_true_eq]
    split
    · next old => simp [old]
    · next recent => simp [recent]
  constructor
  · have value : (updateLink ls ts earliestOkTs link).mutState.value =
        (addedBy ls ts).foldl (· + ·) aged.mutState.value := foldl_recordSlot_value ls ts _ aged ts
    rw [updated, foldl_recordSample_rest, ← updated, value]
  · intro age bounded
    rw [updated, foldl_recordSample ts _ aged 0 (by simp only [linkStateSlots] at few; omega) age
      bounded]
    simp only [Nat.zero_le, true_and, Nat.zero_add, Nat.sub_zero, kept]

end RouteServer.Snode
