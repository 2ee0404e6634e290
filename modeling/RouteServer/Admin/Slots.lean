import RouteServer.Admin.Steps

/-!
# Slots and their responses

Every slot and every queue is held under one name at most, and new ones are held under
none before. A slot that is held waits for the first message with its `txid`; once it is
not held any more, nothing is put into it. Only the clean-up gives up a slot without a
response, and only if its receiver has gone.
-/

namespace RouteServer.Admin

open Rust Bencode

/-- Every value is below a bound and held under one key. -/
structure Handles (map : AList (fun _ : Text => Nat)) (count : Nat) : Prop where
  distinct : ∀ key other value, map.lookup key = some value → map.lookup other = some value →
    key = other
  old : ∀ key value, map.lookup key = some value → value < count

/-- A value below the bound that no key holds. -/
structure Released (map : AList (fun _ : Text => Nat)) (count value : Nat) : Prop where
  old : value < count
  unheld : ∀ key, map.lookup key ≠ some value

section

variable {map : AList (fun _ : Text => Nat)} {count value : Nat}

/-- A new handle is the next number, so it differs from the others. -/
theorem Handles.insert (handles : Handles map count) (key : Text) :
    Handles (map.insert key count) (count + 1) := by
  have below : ∀ other value, (map.insert key count).lookup other = some value →
      (other = key ∧ value = count) ∨ (other ≠ key ∧ map.lookup other = some value) := by
    intro other value found
    by_cases same : other = key
    · subst same
      rw [AList.lookup_insert] at found
      exact Or.inl ⟨rfl, (Option.some.inj found).symm⟩
    · rw [AList.lookup_insert_ne same] at found
      exact Or.inr ⟨same, found⟩
  constructor
  · intro one other value first second
    rcases below one value first with ⟨rfl, rfl⟩ | ⟨-, firstOld⟩ <;>
      rcases below other value second with ⟨same, new⟩ | ⟨-, secondOld⟩
    · exact same.symm
    · exact absurd (handles.old _ _ secondOld) (Nat.lt_irrefl _)
    · exact absurd (handles.old _ _ (new ▸ firstOld)) (Nat.lt_irrefl _)
    · exact handles.distinct one other value firstOld secondOld
  · intro other value found
    rcases below other value found with ⟨-, rfl⟩ | ⟨-, before⟩
    · exact Nat.lt_succ_self _
    · exact Nat.lt_succ_of_lt (handles.old other value before)

/-- What is still found after a key was taken out belongs to another key and was there before. -/
theorem lookup_of_erase {key other : Text}
    (found : (map.erase key).lookup other = some value) :
    other ≠ key ∧ map.lookup other = some value := by
  by_cases same : other = key
  · subst same
    rw [AList.lookup_erase] at found
    cases found
  · rw [AList.lookup_erase_ne same] at found
    exact ⟨same, found⟩

/-- Where a handle is taken out, those that stay are as they were. -/
theorem Handles.erase (handles : Handles map count) (key : Text) :
    Handles (map.erase key) count :=
  ⟨fun one other value first second =>
      handles.distinct one other value (lookup_of_erase first).2 (lookup_of_erase second).2,
    fun other value found => handles.old other value (lookup_of_erase found).2⟩

/-- Handles that are retained are among those that were there. -/
theorem Handles.retain (handles : Handles map count) (keep : Text → Nat → Bool) :
    Handles (HashMap.retain keep map) count :=
  ⟨fun one other value first second =>
      handles.distinct one other value ((HashMap.lookup_retain _ _ _ _).mp first).1
        ((HashMap.lookup_retain _ _ _ _).mp second).1,
    fun other value found =>
      handles.old other value ((HashMap.lookup_retain _ _ _ _).mp found).1⟩

/-- Values stay below a higher bound. -/
theorem Handles.more (handles : Handles map count) : Handles map (count + 1) :=
  ⟨handles.distinct, fun key value found => Nat.lt_succ_of_lt (handles.old key value found)⟩

/-- A number that was given back stays so as further numbers are given out. -/
theorem Released.more (released : Released map count value) : Released map (count + 1) value :=
  ⟨Nat.lt_succ_of_lt released.old, released.unheld⟩

/-- The next number is none that was given back. -/
theorem Released.insert (released : Released map count value) (key : Text) :
    Released (map.insert key count) (count + 1) value := by
  refine ⟨Nat.lt_succ_of_lt released.old, ?_⟩
  intro other found
  by_cases same : other = key
  · subst same
    rw [AList.lookup_insert, Option.some.injEq] at found
    exact absurd released.old (found ▸ Nat.lt_irrefl _)
  · rw [AList.lookup_insert_ne same] at found
    exact released.unheld other found

/-- Taking out a handle gives none of the earlier ones out again. -/
theorem Released.erase (released : Released map count value) (key : Text) :
    Released (map.erase key) count value :=
  ⟨released.old, fun other found => released.unheld other (lookup_of_erase found).2⟩

/-- A sweep gives none of the earlier numbers out again. -/
theorem Released.retain (released : Released map count value) (keep : Text → Nat → Bool) :
    Released (HashMap.retain keep map) count value :=
  ⟨released.old, fun other found =>
    released.unheld other ((HashMap.lookup_retain _ _ _ _).mp found).1⟩

/-- A value is kept or released. -/
theorem Handles.retained (handles : Handles map count) {key : Text}
    (found : map.lookup key = some value) (keep : Text → Nat → Bool) :
    (HashMap.retain keep map).lookup key = some value ∨
      Released (HashMap.retain keep map) count value ∧ keep key value = false := by
  cases kept : keep key value with
  | true => exact Or.inl ((HashMap.lookup_retain _ _ _ _).mpr ⟨found, kept⟩)
  | false =>
    refine Or.inr ⟨⟨handles.old key value found, ?_⟩, rfl⟩
    intro other again
    obtain ⟨before, otherKept⟩ := (HashMap.lookup_retain _ _ _ _).mp again
    have same : other = key := handles.distinct other key value before found
    cases kept.symm.trans (same ▸ otherKept)

/-- A value is released by what takes its key. -/
theorem Handles.released_erase (handles : Handles map count) {key : Text}
    (found : map.lookup key = some value) : Released (map.erase key) count value :=
  ⟨handles.old key value found, fun other again =>
    (lookup_of_erase again).1 (handles.distinct other key value (lookup_of_erase again).2 found)⟩

/-- A value is released where a new one takes its key. -/
theorem Handles.released_insert (handles : Handles map count) {key : Text}
    (found : map.lookup key = some value) :
    Released (map.insert key count) (count + 1) value := by
  have before : value < count := handles.old key value found
  refine ⟨Nat.lt_succ_of_lt before, ?_⟩
  intro other again
  by_cases same : other = key
  · subst same
    rw [AList.lookup_insert, Option.some.injEq] at again
    exact absurd before (again ▸ Nat.lt_irrefl _)
  · rw [AList.lookup_insert_ne same] at again
    exact same (handles.distinct other key value again found)

end

/-- Slots and queues are held once, and a slot that is held has no result yet. -/
structure Sound (state : State) : Prop where
  slots : Handles state.requests state.slotCount
  empty : ∀ txid slot, state.requests.lookup txid = some slot → (state.slots slot).results = []
  channels : Handles state.streams state.channelCount

/-- The cases of a step are those of what becomes of the streams: nothing, one more, one less or a
sweep. -/
theorem Handles.streams_step {self next : State} {event : Event}
    (handles : Handles self.streams self.channelCount)
    (stepped : step self event = some next) : Handles next.streams next.channelCount := by
  by_cases isMessage : event.IsMessage
  · obtain ⟨msg, rfl⟩ := isMessage
    rcases step_message stepped with ⟨-, rfl⟩ | ⟨message, info, -, rfl⟩
    · exact handles
    · have onward := route_streams message info self
      dsimp only at onward
      rcases onward with ⟨streams, -, count, -⟩ |
        ⟨streamId, held, -, -, -, count, ⟨streams, -⟩ | ⟨streams, -⟩⟩ |
        ⟨streamId, slot, -, -, -, count, streams, -⟩ <;>
        rw [streams, count]
      · exact handles
      · exact handles
      · exact handles.erase streamId
      · exact handles.insert streamId
  · obtain ⟨-, count, streams | streams⟩ := quiet_step stepped isMessage <;>
      rw [streams, count]
    · exact handles
    · exact handles.retain _

/-- Every event keeps slots and queues held once and held slots empty.

Proof: by what the step does to the slots. A registration takes the next number, which no other
transaction holds; an answer empties the place it fills; everything else leaves the slots of the
transactions that remain as they were. -/
theorem Sound.step {self next : State} {event : Event} (sound : Sound self)
    (stepped : step self event = some next) : Sound next := by
  have channels : Handles next.streams next.channelCount := sound.channels.streams_step stepped
  have handles : Handles self.requests self.slotCount := sound.slots
  -- slots that were held are not the new one
  have before : ∀ (key : Text) (slot : SlotId) (fresh : Slot),
      self.requests.lookup key = some slot →
      (Function.update self.slots self.slotCount fresh slot).results = [] := by
    intro key slot fresh found
    rw [Function.update_of_ne (Nat.ne_of_lt (handles.old key slot found))]
    exact sound.empty key slot found
  cases slotChange stepped with
  | registered txid isOpen vacant requests slots count =>
    refine ⟨?_, ?_, channels⟩ <;> rw [requests]
    · rw [count]
      exact handles.insert txid
    · intro key slot found
      rw [slots]
      by_cases same : key = txid
      · subst same
        rw [AList.lookup_insert, Option.some.injEq] at found
        rw [← found, Function.update_self]
      · rw [AList.lookup_insert_ne same] at found
        exact before key slot _ found
  | repeated txid isOpen slot pending requests slots count =>
    refine ⟨?_, ?_, channels⟩ <;> rw [requests]
    · rw [count]
      exact handles.more
    · rw [slots]
      exact fun key slot found => before key slot _ found
  | answered msg message info slot read pending requests slots count =>
    refine ⟨?_, ?_, channels⟩ <;> rw [requests]
    · rw [count]
      exact handles.erase _
    · intro key other found
      obtain ⟨different, found⟩ := lookup_of_erase found
      have otherSlot : other ≠ slot := by
        rintro rfl
        exact different (handles.distinct _ _ _ found pending)
      rw [slots, respondedSlots_ne otherSlot]
      exact sound.empty key other found
  | cleaned requests slots count =>
    refine ⟨?_, ?_, channels⟩ <;> rw [requests]
    · rw [count]
      exact handles.retain _
    · rw [slots]
      intro key slot found
      exact sound.empty key slot ((HashMap.lookup_retain _ _ _ _).mp found).1
  | dropped gone requests slots count =>
    refine ⟨?_, ?_, channels⟩ <;> rw [requests]
    · rw [count]
      exact handles
    · intro key slot found
      rw [slots]
      by_cases same : slot = gone
      · subst same
        rw [Function.update_self]
        exact sound.empty key slot found
      · rw [Function.update_of_ne same]
        exact sound.empty key slot found
  | idle _ unanswered requests slots count =>
    refine ⟨?_, ?_, channels⟩ <;> rw [requests]
    · rw [count]
      exact handles
    · rw [slots]
      exact sound.empty

/-- There are no requests and no streams at first. -/
theorem Sound.initial : Sound {} :=
  ⟨⟨by simp, by simp⟩, by simp, ⟨by simp, by simp⟩⟩

/-- The result of the first later message with a `txid`. -/
def firstAnswer (txid : Text) : State → List Event → Option (Except Error Response)
  | _, [] => none
  | self, event :: rest =>
    match answerOf txid self event with
    | some result => some result
    | none => (step self event).bind fun next => firstAnswer txid next rest

/-- A slot that no request holds any more. -/
def Settled (slot : SlotId) (self : State) : Prop :=
  Released self.requests self.slotCount slot

/-- Dropping a receiver changes no results. -/
theorem results_dropped (slots : SlotId → Slot) (gone slot : SlotId) :
    (Function.update slots gone { slots gone with isOpen := false } slot).results =
      (slots slot).results := by
  by_cases same : slot = gone
  · subst same
    rw [Function.update_self]
  · rw [Function.update_of_ne same]

/-- Nothing is put into a settled slot. -/
theorem Settled.step {slot : SlotId} {self next : State} {event : Event}
    (settled : Settled slot self) (stepped : step self event = some next) :
    Settled slot next ∧ (next.slots slot).results = (self.slots slot).results := by
  have released : Released self.requests self.slotCount slot := settled
  have old : slot ≠ self.slotCount := Nat.ne_of_lt released.old
  cases slotChange stepped with
  | registered txid isOpen vacant requests slots count =>
    rw [Settled, requests, slots, count, Function.update_of_ne old]
    exact ⟨released.insert txid, rfl⟩
  | repeated txid isOpen other pending requests slots count =>
    rw [Settled, requests, slots, count, Function.update_of_ne old]
    exact ⟨released.more, rfl⟩
  | answered msg message info answered read pending requests slots count =>
    have other : slot ≠ answered := by
      rintro rfl
      exact released.unheld _ pending
    rw [Settled, requests, slots, count, respondedSlots_ne other]
    exact ⟨released.erase _, rfl⟩
  | cleaned requests slots count =>
    rw [Settled, requests, slots, count]
    exact ⟨released.retain _, rfl⟩
  | dropped gone requests slots count =>
    rw [Settled, requests, slots, count, results_dropped]
    exact ⟨released, rfl⟩
  | idle _ unanswered requests slots count =>
    rw [Settled, requests, slots, count]
    exact ⟨released, rfl⟩

/-- Nothing arrives in a slot that is settled, by induction on the run: no step unsettles it. -/
theorem Settled.run {slot : SlotId} {self last : State} {events : List Event}
    (settled : Settled slot self) (ran : dispatcher.run self events = some last) :
    (last.slots slot).results = (self.slots slot).results := by
  let holds (state : State) : Prop :=
    Settled slot state ∧ (state.slots slot).results = (self.slots slot).results
  have kept : ∀ state event next, holds state → dispatcher.step state event = some next →
      holds next := fun state event next kept stepped =>
    ⟨(kept.1.step stepped).1, (kept.1.step stepped).2.trans kept.2⟩
  have both : holds last := Machine.System.run_keeps kept ran ⟨settled, rfl⟩
  exact both.2

/-- What an event does to a request that is registered: it is answered, it stays, or it is
given up because its receiver has gone.

Proof: by what the step does to the slots. A new registration takes another slot, since the
transaction is held; an answer is for this transaction or, as no two share a slot, for another
slot; the clean-up keeps it or gives it up with its receiver gone. -/
theorem pending_step {txid : Text} {slot : SlotId} {self next : State} {event : Event}
    (sound : Sound self) (pending : self.requests.lookup txid = some slot)
    (stepped : step self event = some next) :
    (∃ result, answerOf txid self event = some result ∧ Settled slot next ∧
        (next.slots slot).results = if (self.slots slot).isOpen then [result] else []) ∨
      answerOf txid self event = none ∧ (next.slots slot).results = [] ∧
        (next.requests.lookup txid = some slot ∨
          Settled slot next ∧ (self.slots slot).isOpen = false) := by
  have old : slot ≠ self.slotCount := Nat.ne_of_lt (sound.slots.old txid slot pending)
  have empty : (self.slots slot).results = [] := sound.empty txid slot pending
  cases slotChange stepped with
  | registered other isOpen vacant requests slots count =>
    have different : txid ≠ other := by
      rintro rfl
      cases vacant.symm.trans pending
    rw [requests, slots, Function.update_of_ne old, AList.lookup_insert_ne different]
    exact Or.inr ⟨rfl, empty, Or.inl pending⟩
  | repeated other isOpen held found requests slots count =>
    rw [requests, slots, Function.update_of_ne old]
    exact Or.inr ⟨rfl, empty, Or.inl pending⟩
  | answered msg message info answered read found requests slots count =>
    rw [answerOf, read, Settled, requests, slots, count]
    dsimp only
    by_cases same : info.txid = txid
    · subst same
      cases found.symm.trans pending
      refine Or.inl ⟨_, if_pos rfl, sound.slots.released_erase pending, ?_⟩
      rw [respondedSlots]
      split_ifs
      · rw [Function.update_self, empty, List.nil_append]
      · exact empty
    · have other : slot ≠ answered := by
        rintro rfl
        exact same (sound.slots.distinct _ _ _ found pending)
      rw [respondedSlots_ne other, AList.lookup_erase_ne (Ne.symm same)]
      exact Or.inr ⟨if_neg same, empty, Or.inl pending⟩
  | cleaned requests slots count =>
    rw [Settled, requests, slots, count]
    exact Or.inr ⟨rfl, empty,
      sound.slots.retained pending fun _ slot => (self.slots slot).isOpen⟩
  | dropped gone requests slots count =>
    rw [requests, slots, results_dropped]
    exact Or.inr ⟨rfl, empty, Or.inl pending⟩
  | idle _ unanswered requests slots count =>
    rw [requests, slots]
    exact Or.inr ⟨unanswered txid slot pending, empty, Or.inl pending⟩

/-- The receiver of a slot goes only by itself. -/
theorem isOpen_step {slot : SlotId} {self next : State} {event : Event}
    (old : slot < self.slotCount) (stepped : step self event = some next)
    (stays : event ≠ .dropReceiver slot) :
    (next.slots slot).isOpen = (self.slots slot).isOpen := by
  have other : slot ≠ self.slotCount := Nat.ne_of_lt old
  cases slotChange stepped with
  | registered txid isOpen vacant requests slots count =>
    rw [slots, Function.update_of_ne other]
  | repeated txid isOpen held pending requests slots count =>
    rw [slots, Function.update_of_ne other]
  | answered msg message info answered read pending requests slots count =>
    rw [slots, respondedSlots]
    split_ifs with isOpen
    · by_cases same : slot = answered
      · subst same
        rw [Function.update_self, isOpen]
      · rw [Function.update_of_ne same]
    · rfl
  | cleaned requests slots count => rw [slots]
  | dropped gone requests slots count =>
    have different : slot ≠ gone := by
      rintro rfl
      exact stays rfl
    rw [slots, Function.update_of_ne different]
  | idle _ unanswered requests slots count => rw [slots]

/-- A registered request gets the first answer or nothing, and nothing only if there is no
answer or its receiver has gone.

Proof: induction on the events, with the step lemma for the first one. Once the request is
answered or given up its slot is settled, and the rest of the run does not touch it. -/
theorem pending_run {txid : Text} {slot : SlotId} {self last : State} {events : List Event}
    (sound : Sound self) (pending : self.requests.lookup txid = some slot)
    (ran : dispatcher.run self events = some last) :
    (last.slots slot).results <+: (firstAnswer txid self events).toList ∧
      ((self.slots slot).isOpen → Event.dropReceiver slot ∉ events →
        (last.slots slot).results = (firstAnswer txid self events).toList ∧
        (firstAnswer txid self events = none → last.requests.lookup txid = some slot)) := by
  induction events generalizing self with
  | nil =>
    cases ran
    rw [sound.empty txid slot pending, firstAnswer]
    exact ⟨List.nil_prefix, fun _ _ => ⟨rfl, fun _ => pending⟩⟩
  | cons event rest inductionHypothesis =>
    obtain ⟨next, possible, afterwards⟩ := Option.bind_eq_some_iff.mp ran
    have possible : step self event = some next := possible
    have old : slot < self.slotCount := sound.slots.old txid slot pending
    rw [firstAnswer]
    rcases pending_step sound pending possible with
      ⟨result, answered, settled, results⟩ | ⟨waiting, empty, pending | ⟨settled, closed⟩⟩
    · rw [answered, settled.run afterwards, results]
      dsimp only
      refine ⟨?_, fun isOpen _ => ⟨if_pos isOpen, fun none => nomatch none⟩⟩
      split_ifs
      · exact List.prefix_refl _
      · exact List.nil_prefix
    · rw [waiting, possible]
      obtain ⟨first, received⟩ := inductionHypothesis (sound.step possible) pending afterwards
      refine ⟨first, fun isOpen stays => ?_⟩
      have stillOpen := isOpen_step old possible (Ne.symm (List.ne_of_not_mem_cons stays))
      exact received (stillOpen.trans isOpen) (List.not_mem_of_not_mem_cons stays)
    · rw [settled.run afterwards, empty]
      refine ⟨List.nil_prefix, fun isOpen _ => ?_⟩
      cases closed.symm.trans isOpen

end RouteServer.Admin
