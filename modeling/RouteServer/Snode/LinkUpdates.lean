import RouteServer.Ann.Parser
import RouteServer.Snode.LinkSamples

/-!
# Link states of an announcement

The link states of an announcement are recorded one after another, each in the link that
had its number when the update began. A link state that refers to such a link is held
against what it carries: every sample should be stored at its slot and counted in the
value of the link. The loop leaves out the oldest sample, which for a parsed link state
is always there.
-/

namespace RouteServer.Snode

open Rust Keys Ann Labels Words

/-- The earliest slot that is kept. -/
def earliestOkTs (ts : UInt64) : UInt64 := ts - 20 * 60 / 10

/-- The body of the loop over the link states, with the links the update began with. -/
def recordLinkState (order : LinkOrder) (ann : Announcement) (links current : InwardLinks)
    (ls : LinkStateData) : InwardLinks :=
  match (linksByNum order links).lookup ls.nodeId with
  | some (ip, place) =>
    let ts := timeslot ann.header.timestamp
    HashMap.modify ip (fun stored => stored.modify place (updateLink ls ts (earliestOkTs ts)))
      current
  | none => current

/-- The links after some link states of an announcement. -/
def afterLinkStates (order : LinkOrder) (ann : Announcement) (links : InwardLinks)
    (states : List LinkStateData) : InwardLinks :=
  states.foldl (recordLinkState order ann links) links

/-- All link states of an announcement are recorded. -/
theorem linkStateUpdate1_eq (order : LinkOrder) (ann : Announcement) (links : InwardLinks) :
    linkStateUpdate1 order ann links =
      afterLinkStates order ann links (linkStatesFromAnnouncement ann) := rfl

/-- The link at a place under an address. -/
def linkAt (links : InwardLinks) (ip : Ip6) (place : Nat) : Option Link :=
  (links.lookup ip).bind (·[place]?)

/-- A change at one place. -/
theorem linkAt_modify (links : InwardLinks) (ip other : Ip6) (place otherPlace : Nat)
    (change : Link → Link) :
    linkAt (HashMap.modify ip (fun stored => stored.modify place change) links) other otherPlace =
      if other = ip ∧ otherPlace = place then (linkAt links ip place).map change
      else linkAt links other otherPlace := by
  rw [linkAt, linkAt, linkAt]
  by_cases same : other = ip
  · subst same
    rw [HashMap.lookup_modify_self]
    cases links.lookup other with
    | none => simp
    | some stored =>
      simp only [Option.map_some, Option.bind_some, List.getElem?_modify, true_and]
      by_cases here : otherPlace = place
      · subst here
        simp
      · simp [here, Ne.symm here]
  · rw [HashMap.lookup_modify_ne _ same, if_neg (fun both => same both.1)]

/-- The numbers found so far are those of links. -/
def FindsLinks (links : InwardLinks) (found : AList (fun _ : UInt16 => Ip6 × Nat)) : Prop :=
  ∀ number ip place, found.lookup number = some (ip, place) →
    ∃ link, linkAt links ip place = some link ∧ link.peerNum = number

/-- Finding the links of one address. -/
theorem FindsLinks.stored {links : InwardLinks} {ip : Ip6} {stored : List Link}
    (listed : links.lookup ip = some stored) (peers : List (Link × Nat))
    (each : ∀ peer ∈ peers, stored[peer.2]? = some peer.1)
    {found : AList (fun _ : UInt16 => Ip6 × Nat)} (finds : FindsLinks links found) :
    FindsLinks links
      (peers.foldl (fun found peer => found.insert peer.1.peerNum (ip, peer.2)) found) := by
  induction peers generalizing found with
  | nil => exact finds
  | cons peer rest inductionHypothesis =>
    obtain ⟨first, others⟩ := List.forall_mem_cons.mp each
    apply inductionHypothesis others
    intro number other place lookup
    by_cases same : number = peer.1.peerNum
    · subst same
      rw [AList.lookup_insert] at lookup
      obtain ⟨rfl, rfl⟩ := Prod.mk.inj (Option.some.inj lookup)
      exact ⟨peer.1, by rw [linkAt, listed, Option.bind_some, first], rfl⟩
    · rw [AList.lookup_insert_ne same] at lookup
      exact finds number other place lookup

/-- Finding the links of several addresses. -/
theorem FindsLinks.entries {links : InwardLinks} (entries : List (Ip6 × List Link))
    (listed : ∀ entry ∈ entries, links.lookup entry.1 = some entry.2)
    {found : AList (fun _ : UInt16 => Ip6 × Nat)} (finds : FindsLinks links found) :
    FindsLinks links (entries.foldl (fun found entry =>
      entry.2.zipIdx.foldl (fun found peer => found.insert peer.1.peerNum (entry.1, peer.2)) found)
        found) := by
  induction entries generalizing found with
  | nil => exact finds
  | cons entry rest inductionHypothesis =>
    obtain ⟨first, others⟩ := List.forall_mem_cons.mp listed
    apply inductionHypothesis others
    apply finds.stored first entry.2.zipIdx
    rintro ⟨link, place⟩ member
    exact List.mem_zipIdx_iff_getElem?.mp member

/-- A number that is found is the number of a link. -/
theorem linksByNum_finds (order : LinkOrder) (links : InwardLinks) :
    FindsLinks links (linksByNum order links) := by
  apply FindsLinks.entries
  · intro entry member
    obtain ⟨stored, inside, rfl⟩ := List.mem_map.mp ((order.complete links).subset member)
    exact (HashMap.mem_entries_iff links stored.1 stored.2).mp inside
  · intro number ip place lookup
    cases lookup

/-- A link state is recorded in the link of its number and in no other. -/
theorem linkAt_recordLinkState (order : LinkOrder) (ann : Announcement)
    (links current : InwardLinks) (ls : LinkStateData) (ip : Ip6) (place : Nat) :
    linkAt (recordLinkState order ann links current ls) ip place =
      if (linksByNum order links).lookup ls.nodeId = some (ip, place) then
        (linkAt current ip place).map
          (updateLink ls (timeslot ann.header.timestamp)
            (earliestOkTs (timeslot ann.header.timestamp)))
      else linkAt current ip place := by
  rw [recordLinkState]
  cases (linksByNum order links).lookup ls.nodeId with
  | none => rfl
  | some found =>
    obtain ⟨foundIp, foundPlace⟩ := found
    dsimp only
    rw [linkAt_modify]
    by_cases here : ip = foundIp ∧ place = foundPlace
    · obtain ⟨rfl, rfl⟩ := here
      rw [if_pos ⟨rfl, rfl⟩, if_pos rfl]
    · rw [if_neg here, if_neg]
      intro same
      obtain ⟨rfl, rfl⟩ := Prod.mk.inj (Option.some.inj same)
      exact here ⟨rfl, rfl⟩

/-- Recording keeps every link at its place. -/
theorem isSome_linkAt_afterLinkStates (order : LinkOrder) (ann : Announcement)
    (links : InwardLinks) (states : List LinkStateData) (ip : Ip6) (place : Nat) :
    (linkAt (afterLinkStates order ann links states) ip place).isSome =
      (linkAt links ip place).isSome := by
  induction states using List.reverseRecOn with
  | nil => rfl
  | append_singleton earlier ls inductionHypothesis =>
    rw [afterLinkStates, List.foldl_append, List.foldl_cons, List.foldl_nil,
      linkAt_recordLinkState, ← afterLinkStates]
    split
    · rw [Option.isSome_map, inductionHypothesis]
    · exact inductionHypothesis

/-- A link state that refers to a known link is recorded in it, as the link stands after
the link states before. -/
theorem recorded_in_known {order : LinkOrder} (ann : Announcement) {links : InwardLinks}
    (before : List LinkStateData) {ls : LinkStateData} {ip : Ip6} {place : Nat}
    (known : (linksByNum order links).lookup ls.nodeId = some (ip, place)) :
    ∃ link, linkAt (afterLinkStates order ann links before) ip place = some link ∧
      linkAt (afterLinkStates order ann links (before ++ [ls])) ip place =
        some (updateLink ls (timeslot ann.header.timestamp)
          (earliestOkTs (timeslot ann.header.timestamp)) link) := by
  obtain ⟨first, listed, -⟩ := linksByNum_finds order links ls.nodeId ip place known
  have stays := isSome_linkAt_afterLinkStates order ann links before ip place
  rw [listed, Option.isSome_some] at stays
  obtain ⟨link, found⟩ := Option.isSome_iff_exists.mp stays
  refine ⟨link, found, ?_⟩
  have step : afterLinkStates order ann links (before ++ [ls]) =
      recordLinkState order ann links (afterLinkStates order ann links before) ls := by
    rw [afterLinkStates, List.foldl_append]
    rfl
  rw [step, linkAt_recordLinkState, if_pos known, found, Option.map_some]

/-! ## Every sample carried -/

/-- A link has every sample at its slot, the newest one at the slot of the announcement,
and what was added to its value is what each of them is worth, once. -/
structure Records (ts : UInt64) (samples : List LinkStateEntry) (updated : Link)
    (added : List F64) : Prop where
  stored : ∀ age sample, samples.reverse[age]? = some sample →
    updated.linkState.lookup (ts - UInt64.ofNat age) = some sample
  counted : added = worths 0 samples.reverse

/-- Every sample has a worth. -/
theorem length_worths {V : Type} [LinkArithmetic V] (age : Nat) (samples : List LinkStateEntry) :
    (worths age samples : List V).length = samples.length := by
  induction samples generalizing age with
  | nil => rfl
  | cons sample older inductionHypothesis =>
    rw [worths, List.length_cons, List.length_cons, inductionHypothesis]

/-- A link state records every sample that it carries but the oldest one. -/
theorem records_newer {ls : LinkStateData} {samples : List LinkStateEntry}
    (carries : Carries ls samples) (ts : UInt64) (link : Link) :
    Records ts samples.tail (updateLink ls ts (earliestOkTs ts) link) (addedBy ls ts) := by
  obtain ⟨-, slots⟩ := updateLink_spec ls ts (earliestOkTs ts) link
  rw [recordedSamples_eq carries] at slots
  have short : samples.length ≤ 18 := carries.1
  refine ⟨fun age sample found => ?_, ?_⟩
  · obtain ⟨inside, -⟩ := List.getElem?_eq_some_iff.mp found
    have young := inside
    rw [List.length_reverse, List.length_tail] at young
    rw [slots age (by omega), if_pos inside, found]
  · rw [addedBy_eq, recordedSamples_eq carries]

/-- It records all of them only if there are none. -/
theorem records_iff {ls : LinkStateData} {samples : List LinkStateEntry}
    (carries : Carries ls samples) (ts : UInt64) (link : Link) :
    Records ts samples (updateLink ls ts (earliestOkTs ts) link) (addedBy ls ts) ↔
      samples = [] := by
  have newer := records_newer carries ts link
  cases samples with
  | nil => exact iff_of_true newer rfl
  | cons oldest others =>
    refine iff_of_false (fun all => ?_) (List.cons_ne_nil _ _)
    -- one amount too few has been added
    have amounts := congrArg List.length (newer.counted.symm.trans all.counted)
    rw [length_worths, length_worths, List.length_reverse, List.length_reverse,
      List.tail_cons, List.length_cons] at amounts
    omega

/-! ## Parsed link states -/

/-- The three parts of a slot are there. -/
def Filled (slots : Slots) (i : Nat) : Prop :=
  slots.lagSlots[i]?.join.isSome ∧ slots.dropSlots[i]?.join.isSome ∧
    slots.kbRecvSlots[i]?.join.isSome

/-- A sample fills its slot and empties none. -/
theorem filled_of_readSlot {slots next : Slots} {i : Nat} {reader rest : List UInt8}
    (read : readSlot slots i reader = .ok (next, rest)) (j : Nat)
    (filled : Filled slots j ∨ j = i ∧ i < linkStateSlots) : Filled next j := by
  simp only [readSlot, Outcome.bind_ok_iff, Prod.exists] at read
  obtain ⟨_, _, -, _, _, -, _, _, -, same⟩ := read
  cases same
  have kept {α : Type} (array : Vector (Option α) linkStateSlots) (value : α)
      (before : array[j]?.join.isSome ∨ j = i ∧ i < linkStateSlots) :
      (array.setIfInBounds i (some value))[j]?.join.isSome := by
    rw [Vector.getElem?_setIfInBounds]
    split
    · next same =>
      subst same
      split
      · rfl
      · next outside =>
        rcases before with there | ⟨-, inside⟩
        · simp [Vector.getElem?_eq_none (Nat.not_lt.mp outside)] at there
        · exact absurd inside outside
    · next other =>
      rcases before with there | ⟨same, -⟩
      · exact there
      · exact absurd same.symm other
  rcases filled with ⟨lag, drop, kb⟩ | here
  · exact ⟨kept _ _ (Or.inl lag), kept _ _ (Or.inl drop), kept _ _ (Or.inl kb)⟩
  · exact ⟨kept _ _ (Or.inr here), kept _ _ (Or.inr here), kept _ _ (Or.inr here)⟩

/-- A stream that is not empty holds a further sample. -/
theorem readSlots_step (slots : Slots) (i : Nat) {reader : List UInt8}
    (more : ¬reader.isEmpty = true) :
    readSlots slots i reader = (readSlot slots i reader >>= fun read =>
      readSlots read.1 ((i + 1) % linkStateSlots) read.2) := by
  rw [readSlots, if_neg more]
  split <;> simp only [*] <;> rfl

/-- Filled slots stay filled. -/
theorem filled_of_readSlots {slots last : Slots} {i : Nat} {reader : List UInt8}
    (read : readSlots slots i reader = .ok last) (j : Nat) (filled : Filled slots j) :
    Filled last j := by
  by_cases empty : reader.isEmpty = true
  · rw [readSlots, if_pos empty] at read
    cases read
    exact filled
  · rw [readSlots_step slots i empty] at read
    obtain ⟨⟨next, rest⟩, first, others⟩ := (Outcome.bind_ok_iff _ _ _).mp read
    have shorter : rest.length < reader.length := readSlot_length first
    exact filled_of_readSlots others j (filled_of_readSlot first j (Or.inl filled))
termination_by reader.length

/-- A parsed link state carries at least the sample at its starting point.

Proof: the reads of the parser one by one; the loop stores its first sample at the starting
point, and later turns take nothing away. -/
theorem sampleAt_start_of_parsed {data : List UInt8} {ls : LinkStateData}
    (parsed : parseLinkState data = .ok (.linkState ls)) :
    (sampleAt ls (ls.startingPoint.toNat % linkStateSlots)).isSome := by
  rw [parseLinkState.eq_def] at parsed
  split at parsed
  · cases parsed
  · split at parsed
    · cases parsed
    · split at parsed
      · cases parsed
      · simp only [Outcome.bind_ok_iff, Prod.exists] at parsed
        obtain ⟨nodeId, _, -, start, reader, -, slotsRead⟩ := parsed
        split at slotsRead
        · cases slotsRead
        · next inside =>
          split at slotsRead
          · cases slotsRead
          · next more =>
            obtain ⟨slots, read, built⟩ := (Outcome.bind_ok_iff _ _ _).mp slotsRead
            cases built
            have small : start < linkStateSlots := Nat.not_le.mp inside
            have place : (UInt8.ofNat start).toNat % linkStateSlots = start := by
              have bounded : start < 2 ^ 8 := small.trans (by decide)
              rw [UInt8.toNat_ofNat_of_lt' bounded, Nat.mod_eq_of_lt small]
            rw [readSlots_step _ _ more] at read
            obtain ⟨⟨next, rest⟩, first, others⟩ := (Outcome.bind_ok_iff _ _ _).mp read
            obtain ⟨lag, drop, kb⟩ := filled_of_readSlots others start
              (filled_of_readSlot first start (Or.inr ⟨rfl, small⟩))
            obtain ⟨lagSlot, lag⟩ := Option.isSome_iff_exists.mp lag
            obtain ⟨dropSlot, drop⟩ := Option.isSome_iff_exists.mp drop
            obtain ⟨kbRecvSlot, kb⟩ := Option.isSome_iff_exists.mp kb
            rw [place, sampleAt]
            dsimp only
            rw [drop, lag, kb]
            rfl

/-- What a parsed link state carries is not empty. -/
theorem Carries.ne_nil_of_parsed {data : List UInt8} {ls : LinkStateData}
    {samples : List LinkStateEntry} (carries : Carries ls samples)
    (parsed : parseLinkState data = .ok (.linkState ls)) : samples ≠ [] := by
  rintro rfl
  have first := carries.2 0 (by decide)
  have there := sampleAt_start_of_parsed parsed
  rw [Nat.add_zero, Nat.mod_mod, List.getElem?_nil] at first
  rw [first] at there
  cases there

/-! ## Link states of an announcement -/

/-- A link state of an announcement that refers to a known link is recorded in that link,
and the update goes on with the link states after it. The samples it carries are recorded but
for the oldest one, so all of them are if and only if it carries none, which a parsed link
state never does.

Proof: link states are recorded one after another. In each the walk over the slots starts behind
the oldest sample and stops before it, so this one is never visited. -/
theorem samples_recorded_iff (order : LinkOrder) (ann : Announcement) (links : InwardLinks)
    (before after : List LinkStateData) (ls : LinkStateData)
    (listed : linkStatesFromAnnouncement ann = before ++ ls :: after) (ip : Ip6) (place : Nat)
    (known : (linksByNum order links).lookup ls.nodeId = some (ip, place))
    (samples : List LinkStateEntry) (carries : Carries ls samples) :
    linkStateUpdate1 order ann links = after.foldl (recordLinkState order ann links)
        (afterLinkStates order ann links (before ++ [ls])) ∧
      ∃ link updated, linkAt (afterLinkStates order ann links before) ip place = some link ∧
        linkAt (afterLinkStates order ann links (before ++ [ls])) ip place = some updated ∧
        let ts := timeslot ann.header.timestamp
        updated.mutState.value =
            (addedBy ls ts).foldl (· + ·) (decayLink ts link.mutState).value ∧
          Records ts samples.tail updated (addedBy ls ts) ∧
          (Records ts samples updated (addedBy ls ts) ↔ samples = []) ∧
          ∀ data, parseLinkState data = .ok (.linkState ls) →
            ¬Records ts samples updated (addedBy ls ts) := by
  constructor
  · rw [linkStateUpdate1_eq, listed, afterLinkStates, afterLinkStates, ← List.foldl_append,
      List.append_assoc, List.singleton_append]
  · obtain ⟨link, found, recorded⟩ := recorded_in_known ann before known
    have all := records_iff carries (timeslot ann.header.timestamp) link
    refine ⟨link, _, found, recorded, ?_, records_newer carries _ link, all, ?_⟩
    · exact congrArg LinkStateMut.value (updateLink_spec ls _ _ link).1
    · exact fun data parsed whole => carries.ne_nil_of_parsed parsed (all.mp whole)

/-- An address with one link, of the number 1. -/
def oneLink : InwardLinks :=
  AList.singleton (⟨0xfc :: List.replicate 15 0, by decide⟩ : Ip6) [{
    label := ⟨0x1234, by decide, by decide⟩
    encodingFormNumber := 0
    peerNum := 1
    linkState := ∅
    createTime := 1600000000000
    mutState := ⟨160000000, 1500, 0, 1600000000000, 0⟩ }]

/-- Two samples for that link. The older one is in the last slot, the newer in the first. -/
def twoSamples : LinkStateData where
  nodeId := 1
  startingPoint := 17
  lagSlots := ((Vector.replicate _ none).set 17 (some 10)).set 0 (some 10)
  dropSlots := ((Vector.replicate _ none).set 17 (some 0)).set 0 (some 0)
  kbRecvSlots := ((Vector.replicate _ none).set 17 (some 100)).set 0 (some 200)

/-- An announcement of a link state. -/
def linkStateAnn (ls : LinkStateData) : Announcement where
  header := ⟨[], [], ⟨0xfc :: List.replicate 15 0x21, by decide⟩, 0, false, 1600000000000⟩
  entities := [.linkState ls]
  nodePubKey := ⟨List.replicate 32 0x41, List.length_replicate⟩
  nodeIp := ⟨0xfc :: List.replicate 15 0x31, by decide⟩
  binary := []
  hash := ⟨List.replicate 64 7, List.length_replicate⟩

/-- Of the two samples the newer one is recorded. -/
theorem two_samples_recorded_iff :
    linkStateUpdate1 .ofEntries (linkStateAnn twoSamples) oneLink =
        [].foldl (recordLinkState .ofEntries (linkStateAnn twoSamples) oneLink)
          (afterLinkStates .ofEntries (linkStateAnn twoSamples) oneLink ([] ++ [twoSamples])) ∧
      ∃ link updated,
        linkAt (afterLinkStates .ofEntries (linkStateAnn twoSamples) oneLink [])
          ⟨0xfc :: List.replicate 15 0, by decide⟩ 0 = some link ∧
        linkAt (afterLinkStates .ofEntries (linkStateAnn twoSamples) oneLink ([] ++ [twoSamples]))
          ⟨0xfc :: List.replicate 15 0, by decide⟩ 0 = some updated ∧
        let ts := 160000000
        updated.mutState.value =
            (addedBy twoSamples ts).foldl (· + ·) (decayLink ts link.mutState).value ∧
          Records ts [⟨0, 10, 200⟩] updated (addedBy twoSamples ts) ∧
          (Records ts [⟨0, 10, 100⟩, ⟨0, 10, 200⟩] updated (addedBy twoSamples ts) ↔
            [(⟨0, 10, 100⟩ : LinkStateEntry), ⟨0, 10, 200⟩] = []) ∧
          ∀ data, parseLinkState data = .ok (.linkState twoSamples) →
            ¬Records ts [⟨0, 10, 100⟩, ⟨0, 10, 200⟩] updated (addedBy twoSamples ts) :=
  samples_recorded_iff .ofEntries (linkStateAnn twoSamples) oneLink [] [] twoSamples rfl
    ⟨0xfc :: List.replicate 15 0, by decide⟩ 0 (by decide) [⟨0, 10, 100⟩, ⟨0, 10, 200⟩]
    (by unfold Carries; decide)

/-- The older of the two samples is left out. -/
theorem older_sample_left_out :
    ∃ link updated,
      linkAt oneLink ⟨0xfc :: List.replicate 15 0, by decide⟩ 0 = some link ∧
      linkAt (linkStateUpdate1 .ofEntries (linkStateAnn twoSamples) oneLink)
        ⟨0xfc :: List.replicate 15 0, by decide⟩ 0 = some updated ∧
      Carries twoSamples [⟨0, 10, 100⟩, ⟨0, 10, 200⟩] ∧
      ¬Records 160000000 [⟨0, 10, 100⟩, ⟨0, 10, 200⟩] updated (addedBy twoSamples 160000000) ∧
      updated.linkState.lookup 159999999 = none := by
  have carries : Carries twoSamples [⟨0, 10, 100⟩, ⟨0, 10, 200⟩] := by
    unfold Carries
    decide
  have known : (linksByNum .ofEntries oneLink).lookup twoSamples.nodeId =
      some (⟨0xfc :: List.replicate 15 0, by decide⟩, 0) := by decide
  obtain ⟨link, found, recorded⟩ :=
    recorded_in_known (linkStateAnn twoSamples) [] known
  have slot : timeslot (linkStateAnn twoSamples).header.timestamp = 160000000 := by decide
  refine ⟨link, _, found, recorded, carries, ?_, ?_⟩
  · rw [slot, records_iff carries]
    exact List.cons_ne_nil _ _
  · have slots := (updateLink_spec twoSamples 160000000 (earliestOkTs 160000000) link).2 1
      (by decide)
    rw [recordedSamples_eq carries] at slots
    rw [slot]
    refine slots.trans ?_
    cases found
    decide

end RouteServer.Snode
