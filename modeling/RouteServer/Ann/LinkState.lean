import RouteServer.Ann.Entities
import RouteServer.Rust.VarInt

/-!
# The link state of an announcement

A link state is zero pads behind their number, the number of the node, the slot of the first
sample and one sample or more, each of three numbers. The numbers may have any of their
encodings. Samples fill the slots in a circle, so later ones replace those of a turn before,
and the three arrays always have a number at the same slots.
-/

namespace RouteServer.Ann

open Rust

/-- A sample of a link state. -/
structure LinkSample where
  lag : UInt16
  drop : UInt16
  kbRecv : UInt32

/-- The three numbers of a sample, one after the other. -/
def SampleBytes (sample : LinkSample) (bytes : List UInt8) : Prop :=
  ∃ lag drop kbRecv, VarInt 16 sample.lag.toNat lag ∧ VarInt 16 sample.drop.toNat drop ∧
    VarInt 32 sample.kbRecv.toNat kbRecv ∧ bytes = lag ++ (drop ++ kbRecv)

/-- Samples one after the other. -/
inductive SamplesBytes : List LinkSample → List UInt8 → Prop
  | nil : SamplesBytes [] []
  | cons {sample : LinkSample} {samples : List LinkSample} {bytes rest : List UInt8}
      (first : SampleBytes sample bytes) (others : SamplesBytes samples rest) :
      SamplesBytes (sample :: samples) (bytes ++ rest)

/-- The bytes of a link state. -/
structure LinkStateBytes (data : List UInt8) (nodeId : UInt16) (start : UInt8)
    (samples : List LinkSample) : Prop where
  inside : start.toNat < linkStateSlots
  some_sample : samples ≠ []
  bytes : ∃ (pads : UInt8) (node first rest : List UInt8), VarInt 16 nodeId.toNat node ∧
    VarInt 8 start.toNat first ∧ SamplesBytes samples rest ∧
    data = pads :: (List.replicate pads.toNat 0 ++ (node ++ (first ++ rest)))

/-- What the three arrays have at a slot. -/
def Slots.at (slots : Slots) (place : Fin linkStateSlots) :
    Option UInt16 × Option UInt16 × Option UInt32 :=
  (slots.lagSlots[place], slots.dropSlots[place], slots.kbRecvSlots[place])

/-- The slots of a link state. -/
def LinkStateData.slots (ls : LinkStateData) : Slots :=
  ⟨ls.lagSlots, ls.dropSlots, ls.kbRecvSlots⟩

/-- A sample in its slot. -/
def LinkSample.stored (sample : LinkSample) : Option UInt16 × Option UInt16 × Option UInt32 :=
  (some sample.lag, some sample.drop, some sample.kbRecv)

/-- Slots that hold samples from a place on, in a circle: the last of those that belong to a
slot, and nothing where none belongs. -/
structure Slots.Hold (slots : Slots) (start : Nat) (samples : List LinkSample) : Prop where
  last : ∀ (k : Nat) (sample : LinkSample) (place : Fin linkStateSlots), samples[k]? = some sample →
    samples.length ≤ k + linkStateSlots → (start + k) % linkStateSlots = place →
    slots.at place = sample.stored
  none : ∀ place : Fin linkStateSlots,
    (∀ k < samples.length, (start + k) % linkStateSlots ≠ place) →
      slots.at place = (none, none, none)
  aligned : ∀ place : Fin linkStateSlots,
    slots.lagSlots[place].isSome = slots.dropSlots[place].isSome ∧
      slots.lagSlots[place].isSome = slots.kbRecvSlots[place].isSome

/-- One sample put at a place. -/
def Slots.put (slots : Slots) (i : Nat) (sample : LinkSample) : Slots where
  lagSlots := slots.lagSlots.setIfInBounds i (some sample.lag)
  dropSlots := slots.dropSlots.setIfInBounds i (some sample.drop)
  kbRecvSlots := slots.kbRecvSlots.setIfInBounds i (some sample.kbRecv)

/-- Samples put one after the other, in a circle. -/
def Slots.fill (slots : Slots) (i : Nat) : List LinkSample → Slots
  | [] => slots
  | sample :: samples => (slots.put i sample).fill ((i + 1) % linkStateSlots) samples

/-- Slots without samples. -/
def Slots.empty : Slots := ⟨.replicate _ none, .replicate _ none, .replicate _ none⟩

/-- Only the slot that is written shows the new sample. -/
theorem Slots.at_put (slots : Slots) (i : Nat) (sample : LinkSample) (place : Fin linkStateSlots) :
    (slots.put i sample).at place = if i = place then sample.stored else slots.at place := by
  simp only [Slots.at, Slots.put, LinkSample.stored, Fin.getElem_fin, Vector.getElem_setIfInBounds]
  split_ifs <;> rfl

/-- The last sample is put behind all others. -/
theorem Slots.fill_append (slots : Slots) {i : Nat} (inside : i < linkStateSlots)
    (samples : List LinkSample) (sample : LinkSample) :
    slots.fill i (samples ++ [sample]) =
      (slots.fill i samples).put ((i + samples.length) % linkStateSlots) sample := by
  induction samples generalizing slots i with
  | nil =>
    rw [List.length_nil, Nat.add_zero, Nat.mod_eq_of_lt inside]
    rfl
  | cons first rest inductionHypothesis =>
    have next : (i + 1) % linkStateSlots < linkStateSlots := Nat.mod_lt _ (by decide)
    have shifted : ((i + 1) % linkStateSlots + rest.length) % linkStateSlots =
        (i + (first :: rest).length) % linkStateSlots := by
      rw [Nat.mod_add_mod, List.length_cons, Nat.add_right_comm, Nat.add_assoc]
    rw [List.cons_append, Slots.fill, inductionHypothesis _ next, shifted]
    rfl

/-- Empty slots that are filled hold the samples.

Proof: induction on the samples from the last one. The newest sample overwrites its place, and
the places of the earlier ones differ from it because there are fewer samples than slots. -/
theorem Slots.fill_hold {start : Nat} (inside : start < linkStateSlots)
    (samples : List LinkSample) : (Slots.empty.fill start samples).Hold start samples := by
  induction samples using List.reverseRecOn with
  | nil =>
    have nothing (place : Fin linkStateSlots) : Slots.empty.at place = (none, none, none) := by
      simp [Slots.at, Slots.empty]
    refine ⟨?_, fun place _ => nothing place, fun place => ?_⟩
    · intro k sample place listed
      cases listed
    · simp [Slots.fill, Slots.empty]
  | append_singleton samples sample inductionHypothesis =>
    obtain ⟨last, none, aligned⟩ := inductionHypothesis
    rw [Slots.fill_append _ inside]
    constructor
    case last =>
      intro k other place listed recent here
      rw [List.length_append, List.length_singleton] at recent
      rw [Slots.at_put]
      by_cases newest : k = samples.length
      · subst newest
        rw [List.getElem?_concat_length] at listed
        cases listed
        rw [if_pos here]
      · have before : k < samples.length := by
          have bound := (List.getElem?_eq_some_iff.mp listed).1
          rw [List.length_append, List.length_singleton] at bound
          omega
        have elsewhere : (start + samples.length) % linkStateSlots ≠ place := by
          rw [← here]
          rw [linkStateSlots] at recent ⊢
          omega
        rw [List.getElem?_append_left before] at listed
        rw [if_neg elsewhere]
        exact last k other place listed (by omega) here
    case none =>
      intro place unmet
      rw [List.length_append, List.length_singleton] at unmet
      rw [Slots.at_put, if_neg (unmet samples.length (by omega))]
      exact none place fun k before => unmet k (by omega)
    case aligned =>
      intro place
      have both := aligned place
      simp only [Slots.put, Fin.getElem_fin, Vector.getElem_setIfInBounds] at both ⊢
      split_ifs
      · exact ⟨rfl, rfl⟩
      · exact both

/-- A number is read exactly where its encoding stands in front. -/
theorem readSample_ok_iff (width : Nat) (reason : String) (reader rest : List UInt8)
    (value : Nat) : readSample width reason reader = .ok (value, rest) ↔
      ∃ bytes, VarInt width value bytes ∧ reader = bytes ++ rest := by
  rw [← readVarInt_ok_iff, readSample]
  cases readVarInt width reader <;> simp

/-- One turn of the loop reads one sample and puts it in its slot. -/
theorem readSlot_ok_iff (slots next : Slots) (i : Nat) (reader rest : List UInt8) :
    readSlot slots i reader = .ok (next, rest) ↔ ∃ sample bytes, SampleBytes sample bytes ∧
      reader = bytes ++ rest ∧ next = slots.put i sample := by
  simp only [readSlot, Outcome.bind_ok_iff, Prod.exists, readSample_ok_iff, Outcome.pure_def,
    Outcome.ok.injEq, Prod.mk.injEq]
  constructor
  · rintro ⟨lag, _, ⟨lagBytes, isLag, rfl⟩, drop, _, ⟨dropBytes, isDrop, rfl⟩, kb, _,
      ⟨kbBytes, isKb, rfl⟩, rfl, rfl⟩
    refine ⟨⟨UInt16.ofNat lag, UInt16.ofNat drop, UInt32.ofNat kb⟩, lagBytes ++
      (dropBytes ++ kbBytes), ⟨lagBytes, dropBytes, kbBytes, ?_, ?_, ?_, rfl⟩, ?_, rfl⟩
    · rwa [UInt16.toNat_ofNat', Nat.mod_eq_of_lt (isLag.lt (by decide))]
    · rwa [UInt16.toNat_ofNat', Nat.mod_eq_of_lt (isDrop.lt (by decide))]
    · rwa [UInt32.toNat_ofNat', Nat.mod_eq_of_lt (isKb.lt (by decide))]
    · simp only [List.append_assoc]
  · rintro ⟨⟨lag, drop, kb⟩, _, ⟨lagBytes, dropBytes, kbBytes, isLag, isDrop, isKb, rfl⟩, rfl, rfl⟩
    refine ⟨lag.toNat, dropBytes ++ (kbBytes ++ rest), ⟨lagBytes, isLag, ?_⟩, drop.toNat,
      kbBytes ++ rest, ⟨dropBytes, isDrop, rfl⟩, kb.toNat, rest, ⟨kbBytes, isKb, rfl⟩, ?_, rfl⟩
    · simp only [List.append_assoc]
    · simp only [UInt16.ofNat_toNat, UInt32.ofNat_toNat]
      rfl

/-- A sample has bytes, and is the first thing read of them. -/
theorem SamplesBytes.read_first {samples : List LinkSample} {reader : List UInt8}
    (bytes : SamplesBytes samples reader) :
    samples = [] ∧ reader = [] ∨
      reader ≠ [] ∧ ∃ sample others rest, samples = sample :: others ∧ SamplesBytes others rest ∧
        ∀ slots i, readSlot slots i reader = .ok (slots.put i sample, rest) := by
  cases bytes with
  | nil => exact Or.inl ⟨rfl, rfl⟩
  | @cons sample others bytes rest first left =>
    refine Or.inr ⟨?_, sample, others, rest, rfl, left, fun slots i =>
      (readSlot_ok_iff _ _ _ _ _).mpr ⟨sample, bytes, first, rfl, rfl⟩⟩
    obtain ⟨lag, drop, kb, isLag, -, -, rfl⟩ := first
    simp [isLag.ne_nil]

/-- The loop reads samples to the end and fills the slots with them.

Proof: by the recursion of the loop. The first sample of the bytes is what one turn reads, and
where that cannot be read the bytes are no samples. -/
theorem readSlots_ok_iff (slots final : Slots) (i : Nat) (reader : List UInt8) :
    readSlots slots i reader = .ok final ↔
      ∃ samples, SamplesBytes samples reader ∧ final = slots.fill i samples := by
  fun_induction readSlots slots i reader with
  | case1 slots i reader empty =>
    rw [List.isEmpty_iff] at empty
    constructor
    · rintro ⟨⟩
      exact ⟨[], empty ▸ .nil, rfl⟩
    · rintro ⟨samples, bytes, rfl⟩
      obtain ⟨rfl, -⟩ | ⟨some_left, -⟩ := bytes.read_first
      · rfl
      · exact absurd empty some_left
  | case2 slots i reader some_left next rest read inductionHypothesis =>
    rw [inductionHypothesis]
    constructor
    · rintro ⟨samples, bytes, rfl⟩
      obtain ⟨sample, front, first, rfl, rfl⟩ := (readSlot_ok_iff _ _ _ _ _).mp read
      exact ⟨sample :: samples, .cons first bytes, rfl⟩
    · rintro ⟨samples, bytes, rfl⟩
      obtain ⟨-, empty⟩ | ⟨-, sample, others, left, rfl, otherBytes, first⟩ := bytes.read_first
      · exact absurd (List.isEmpty_iff.mpr empty) some_left
      · cases read.symm.trans (first slots i)
        exact ⟨others, otherBytes, rfl⟩
  | case3 slots i reader some_left fault read =>
    refine iff_of_false (fun same => by cases same) ?_
    rintro ⟨samples, bytes, -⟩
    obtain ⟨-, empty⟩ | ⟨-, sample, others, left, -, -, first⟩ := bytes.read_first
    · exact some_left (List.isEmpty_iff.mpr empty)
    · cases read.symm.trans (first slots i)
  | case4 slots i reader some_left read =>
    exact absurd read (readSlot_returns slots i reader)

/-- The link state of an announcement, by its parts. -/
def linkStateOf (nodeId : UInt16) (start : UInt8) (samples : List LinkSample) : LinkStateData where
  nodeId := nodeId
  startingPoint := start
  lagSlots := (Slots.empty.fill start.toNat samples).lagSlots
  dropSlots := (Slots.empty.fill start.toNat samples).dropSlots
  kbRecvSlots := (Slots.empty.fill start.toNat samples).kbRecvSlots

/-- The number of zeros among pads is their number exactly if they are all zero. -/
theorem zero_pads_iff (pads : List UInt8) :
    (pads.filter (· = 0)).length = pads.length ↔ pads = List.replicate pads.length 0 := by
  rw [List.length_filter_eq_length_iff, List.eq_replicate_iff]
  simp

/-- Exactly the bytes of a link state are parsed, and as that link state.

Proof: forwards the parser is taken apart read by read: the padding, the node, the starting
point and the loop, each of which says what bytes it took. Backwards each of these reads is run
on the bytes it is said to take. -/
theorem parseLinkState_ok_iff (data : List UInt8) (entity : Entity) :
    parseLinkState data = .ok entity ↔ ∃ nodeId start samples,
      LinkStateBytes data nodeId start samples ∧
        entity = .linkState (linkStateOf nodeId start samples) := by
  rw [parseLinkState.eq_def]
  constructor
  · intro parsed
    cases data with
    | nil => cases parsed
    | cons padsAmount rest =>
      dsimp only at parsed
      cases sliced : readSlice padsAmount.toNat rest with
      | none =>
        rw [sliced] at parsed
        cases parsed
      | some found =>
        obtain ⟨pads, reader⟩ := found
        obtain ⟨sized, rfl⟩ := (readSlice_some_iff _ _ _ _).mp sliced
        rw [sliced] at parsed
        dsimp only at parsed
        split_ifs at parsed with zero
        rw [← sized, not_ne_iff, zero_pads_iff, sized] at zero
        obtain ⟨⟨nodeId, _⟩, readNode, afterNode⟩ := (Outcome.bind_ok_iff _ _ _).mp parsed
        obtain ⟨⟨start, samplesReader⟩, readStart, afterStart⟩ :=
          (Outcome.bind_ok_iff _ _ _).mp afterNode
        obtain ⟨node, isNode, rfl⟩ := (readSample_ok_iff _ _ _ _ _).mp readNode
        obtain ⟨first, isStart, rfl⟩ := (readSample_ok_iff _ _ _ _ _).mp readStart
        dsimp only at afterStart
        split_ifs at afterStart with outside empty
        obtain ⟨slots, readAll, built⟩ := (Outcome.bind_ok_iff _ _ _).mp afterStart
        obtain ⟨samples, bytes, rfl⟩ := (readSlots_ok_iff _ _ _ _).mp readAll
        have nodeSame : (UInt16.ofNat nodeId).toNat = nodeId := by
          rw [UInt16.toNat_ofNat', Nat.mod_eq_of_lt (isNode.lt (by decide))]
        have startSame : (UInt8.ofNat start).toNat = start := by
          rw [UInt8.toNat_ofNat', Nat.mod_eq_of_lt (isStart.lt (by decide))]
        refine ⟨UInt16.ofNat nodeId, UInt8.ofNat start, samples, ⟨?_, ?_, padsAmount, node, first,
          samplesReader, by rwa [nodeSame], by rwa [startSame], bytes, ?_⟩, ?_⟩
        · rw [startSame]
          exact Nat.not_le.mp outside
        · rintro rfl
          cases bytes
          exact empty rfl
        · rw [zero]
        · cases built
          rw [linkStateOf, startSame]
          rfl
  · rintro ⟨nodeId, start, samples, ⟨inside, some_sample, pads, node, first, rest, isNode, isStart,
      bytes, rfl⟩, rfl⟩
    have sliced : readSlice pads.toNat (List.replicate pads.toNat 0 ++ (node ++ (first ++ rest))) =
        some (List.replicate pads.toNat 0, node ++ (first ++ rest)) :=
      (readSlice_some_iff _ _ _ _).mpr ⟨List.length_replicate, rfl⟩
    have zero : ¬((List.replicate pads.toNat (0 : UInt8)).filter (· = 0)).length ≠ pads.toNat := by
      simp
    have readNode (reason : String) :
        readSample 16 reason (node ++ (first ++ rest)) = .ok (nodeId.toNat, first ++ rest) :=
      (readSample_ok_iff _ _ _ _ _).mpr ⟨node, isNode, rfl⟩
    have readStart (reason : String) :
        readSample 8 reason (first ++ rest) = .ok (start.toNat, rest) :=
      (readSample_ok_iff _ _ _ _ _).mpr ⟨first, isStart, rfl⟩
    have readAll : readSlots Slots.empty start.toNat rest =
        .ok (Slots.empty.fill start.toNat samples) :=
      (readSlots_ok_iff _ _ _ _).mpr ⟨samples, bytes, rfl⟩
    have some_left : ¬rest.isEmpty := by
      obtain ⟨none, -⟩ | ⟨some_left, -⟩ := bytes.read_first
      · exact absurd none some_sample
      · exact mt List.isEmpty_iff.mp some_left
    dsimp only
    rw [sliced]
    dsimp only
    rw [if_neg zero, readNode, Outcome.ok_bind]
    dsimp only
    rw [readStart, Outcome.ok_bind]
    dsimp only
    rw [if_neg (Nat.not_le.mpr inside), if_neg some_left]
    change (readSlots Slots.empty start.toNat rest >>= _) = _
    rw [readAll, Outcome.ok_bind, UInt16.ofNat_toNat, UInt8.ofNat_toNat]
    rfl

/-- Bytes of a link state are parsed as that link state: its samples stand in their slots, as
far as none replaces them, and in all three arrays alike. All other bytes are refused.

Proof: the parser accepts exactly a head and samples in a row, by induction on the slots that are
read. -/
theorem parseLinkState_iff (data : List UInt8) :
    (∀ nodeId start samples, LinkStateBytes data nodeId start samples →
        ∃ ls, parseLinkState data = .ok (.linkState ls) ∧ ls.nodeId = nodeId ∧
          ls.startingPoint = start ∧ ls.slots.Hold start.toNat samples) ∧
      ((¬∃ nodeId start samples, LinkStateBytes data nodeId start samples) →
        ∃ fault, parseLinkState data = .err fault) := by
  constructor
  · intro nodeId start samples bytes
    exact ⟨linkStateOf nodeId start samples,
      (parseLinkState_ok_iff _ _).mpr ⟨nodeId, start, samples, bytes, rfl⟩, rfl, rfl,
      Slots.fill_hold bytes.inside samples⟩
  · intro malformed
    cases parsed : parseLinkState data with
    | ok entity =>
      obtain ⟨nodeId, start, samples, bytes, -⟩ := (parseLinkState_ok_iff _ _).mp parsed
      exact absurd ⟨nodeId, start, samples, bytes⟩ malformed
    | err fault => exact ⟨fault, rfl⟩
    | panicked => exact absurd parsed (parseLinkState_returns data)

/-- Two samples from the last slot on, a number of the second in two bytes. -/
example : parseLinkState [0, 9, 17, 1, 2, 3, 0xfd, 0, 4, 5, 6] =
    .ok (.linkState (linkStateOf 9 17 [⟨1, 2, 3⟩, ⟨4, 5, 6⟩])) := by decide +kernel

end RouteServer.Ann
