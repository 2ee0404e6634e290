import RouteServer.Snode.Copies
import RouteServer.Snode.Node

/-!
# What pruning keeps

Pruning walks the announcements of a node from the newest to the oldest. It keeps the
new announcement and some positions of the old list, in their order. Nothing current is
lost: whatever lasting entity a recent announcement held is replaced by one of an
announcement kept at its position or before it. Nothing is kept for nothing either:
every old announcement that stays holds a lasting entity that nothing recent before it
replaces.
-/

namespace RouteServer.Snode

open Rust Ann

/-- An announcement holds an entity that supersedes another one. -/
def Supersedes (a : Announcement) (e : Entity) : Prop :=
  ∃ newE ∈ a.entities, isEntityReplacement e newE = true

/-- The positions of a list that pruning keeps, after some entities were announced. -/
structure KeptPlaces (ann : Announcement) (sinceTime : SystemTime) (announced : List Entity)
    (list : List Announcement) (places : List ℕ) : Prop where
  ordered : places.Pairwise (· < ·)
  recent : ∀ i ∈ places, ∃ a, list[i]? = some a ∧ ¬annTime a < sinceTime
  covers : ∀ i a, list[i]? = some a → ¬annTime a < sinceTime → ∀ about ∈ subjects a.entities,
    about ∈ subjects announced ∨
      ∃ j ∈ places, j ≤ i ∧ ∃ b, list[j]? = some b ∧ about ∈ subjects b.entities
  needed : ∀ i ∈ places, ∀ a, list[i]? = some a → a ≠ ann →
    ∃ about ∈ subjects a.entities, about ∉ subjects announced ∧
      ∀ j < i, ∀ b, list[j]? = some b → ¬annTime b < sinceTime → about ∉ subjects b.entities

/-- An entity is superseded by the announcements that have its subject. -/
theorem supersedes_iff {a : Announcement} {e : Entity} {about : Subject}
    (lasts : subject e = some about) : Supersedes a e ↔ about ∈ subjects a.entities := by
  simp only [Supersedes, isEntityReplacement_iff, lasts, Option.some.injEq, exists_eq_left',
    subjects, List.mem_filterMap]

/-- Places behind the first are places of the others. -/
theorem filterMap_succ (first : Announcement) (rest : List Announcement) (places : List ℕ) :
    (places.map (· + 1)).filterMap ((first :: rest)[·]?) = places.filterMap (rest[·]?) := by
  rw [List.filterMap_map]
  rfl

/-- The first place is that of the first. -/
theorem filterMap_zero_succ (first : Announcement) (rest : List Announcement) (places : List ℕ) :
    (0 :: places.map (· + 1)).filterMap ((first :: rest)[·]?) =
      first :: places.filterMap (rest[·]?) := by
  rw [← filterMap_succ first rest places]
  exact List.filterMap_cons_some rfl

section Walk

variable {ann first : Announcement} {sinceTime : SystemTime} {announced : List Entity}
  {rest : List Announcement} {places : List ℕ}

/-- Places stay in order as they are counted one further. -/
theorem KeptPlaces.ordered_after (kept : KeptPlaces ann sinceTime announced rest places) :
    (places.map (· + 1)).Pairwise (· < ·) :=
  List.pairwise_map.mpr (kept.ordered.imp Nat.succ_lt_succ)

/-- What stands at a place stands one further behind one more. -/
theorem KeptPlaces.recent_after (kept : KeptPlaces ann sinceTime announced rest places) (i : ℕ)
    (member : i ∈ places.map (· + 1)) :
    ∃ a, (first :: rest)[i]? = some a ∧ ¬annTime a < sinceTime := by
  obtain ⟨place, keptPlace, rfl⟩ := List.mem_map.mp member
  exact kept.recent place keptPlace

/-- What stands behind the first announcement is covered as before. -/
theorem KeptPlaces.covers_after (kept : KeptPlaces ann sinceTime announced rest places) (i : ℕ)
    (a : Announcement) (found : rest[i]? = some a) (young : ¬annTime a < sinceTime)
    (about : Subject) (held : about ∈ subjects a.entities) :
    about ∈ subjects announced ∨ ∃ j ∈ places.map (· + 1), j ≤ i + 1 ∧
      ∃ b, (first :: rest)[j]? = some b ∧ about ∈ subjects b.entities := by
  refine (kept.covers i a found young about held).imp_right ?_
  rintro ⟨j, keptPlace, earlier, holder⟩
  exact ⟨j + 1, List.mem_map_of_mem keptPlace, Nat.succ_le_succ earlier, holder⟩

/-- What is needed behind the first announcement is needed if that has nothing of it. -/
theorem KeptPlaces.needed_after (kept : KeptPlaces ann sinceTime announced rest places) (i : ℕ)
    (member : i ∈ places.map (· + 1)) (a : Announcement) (found : (first :: rest)[i]? = some a)
    (other : a ≠ ann) :
    ∃ about ∈ subjects a.entities, about ∉ subjects announced ∧
      ((¬annTime first < sinceTime → about ∉ subjects first.entities) →
        ∀ j < i, ∀ b, (first :: rest)[j]? = some b → ¬annTime b < sinceTime →
          about ∉ subjects b.entities) := by
  obtain ⟨place, keptPlace, rfl⟩ := List.mem_map.mp member
  obtain ⟨about, held, fresh, newest⟩ := kept.needed place keptPlace a found other
  refine ⟨about, held, fresh, fun apart j earlier b atJ young => ?_⟩
  cases j with
  | zero =>
    cases atJ
    exact apart young
  | succ j => exact newest j (Nat.lt_of_succ_lt_succ earlier) b atJ young

/-- An expired announcement is passed over. -/
theorem KeptPlaces.pass (kept : KeptPlaces ann sinceTime announced rest places)
    (expired : annTime first < sinceTime) :
    KeptPlaces ann sinceTime announced (first :: rest) (places.map (· + 1)) where
  ordered := kept.ordered_after
  recent := kept.recent_after
  covers := by
    intro i a found young about held
    cases i with
    | zero =>
      cases found
      exact absurd expired young
    | succ i => exact kept.covers_after i a found young about held
  needed := by
    intro i member a found other
    obtain ⟨about, held, fresh, newest⟩ := kept.needed_after i member a found other
    exact ⟨about, held, fresh, newest fun young => absurd expired young⟩

variable (kept : KeptPlaces ann sinceTime (justify announced first.entities).2 rest places)
include kept

/-- What is needed after the entities of a recent announcement is nothing of it. -/
theorem KeptPlaces.needed_beyond (i : ℕ) (member : i ∈ places.map (· + 1)) (a : Announcement)
    (found : (first :: rest)[i]? = some a) (other : a ≠ ann) :
    ∃ about ∈ subjects a.entities, about ∉ subjects announced ∧
      ∀ j < i, ∀ b, (first :: rest)[j]? = some b → ¬annTime b < sinceTime →
        about ∉ subjects b.entities := by
  obtain ⟨about, held, fresh, newest⟩ := kept.needed_after i member a found other
  rw [(justify_spec announced first.entities).2, not_or] at fresh
  exact ⟨about, held, fresh.1, newest fun _ => fresh.2⟩

/-- A recent announcement that says nothing new is dropped. -/
theorem KeptPlaces.drop (stale : (justify announced first.entities).1 ≠ true) :
    KeptPlaces ann sinceTime announced (first :: rest) (places.map (· + 1)) where
  ordered := kept.ordered_after
  recent := kept.recent_after
  covers := by
    obtain ⟨safe_iff, announced_iff⟩ := justify_spec announced first.entities
    have said : ∀ about ∈ subjects first.entities, about ∈ subjects announced := by
      intro about held
      exact Classical.not_not.mp fun absent => stale (safe_iff.mpr ⟨about, held, absent⟩)
    intro i a found young about held
    cases i with
    | zero =>
      cases found
      exact Or.inl (said about held)
    | succ i =>
      rcases kept.covers_after i a found young about held with before | holder
      · rcases (announced_iff about).mp before with before | saidNow
        · exact Or.inl before
        · exact Or.inl (said about saidNow)
      · exact Or.inr holder
  needed := kept.needed_beyond

/-- A recent announcement that says something new, or is the new one, is kept.

Proof: field by field. The first announcement is kept at place zero, and the places of the
others move back by one. -/
theorem KeptPlaces.keep (recent : ¬annTime first < sinceTime)
    (safe : (justify announced first.entities).1 = true ∨ first = ann) :
    KeptPlaces ann sinceTime announced (first :: rest) (0 :: places.map (· + 1)) where
  ordered := by
    refine List.pairwise_cons.mpr ⟨fun i member => ?_, kept.ordered_after⟩
    obtain ⟨place, -, rfl⟩ := List.mem_map.mp member
    exact Nat.succ_pos place
  recent := by
    intro i member
    rcases List.mem_cons.mp member with rfl | later
    · exact ⟨first, rfl, recent⟩
    · exact kept.recent_after i later
  covers := by
    have atFirst {i : ℕ} {about : Subject} (said : about ∈ subjects first.entities) :
        ∃ j ∈ 0 :: places.map (· + 1), j ≤ i ∧
          ∃ b, (first :: rest)[j]? = some b ∧ about ∈ subjects b.entities :=
      ⟨0, List.mem_cons_self, Nat.zero_le i, first, rfl, said⟩
    intro i a found young about held
    cases i with
    | zero =>
      cases found
      exact Or.inr (atFirst held)
    | succ i =>
      rcases kept.covers_after i a found young about held with before | holder
      · exact (((justify_spec announced first.entities).2 about).mp before).imp_right atFirst
      · obtain ⟨j, keptPlace, earlier, holder⟩ := holder
        exact Or.inr ⟨j, List.mem_cons_of_mem 0 keptPlace, earlier, holder⟩
  needed := by
    intro i member a found other
    rcases List.mem_cons.mp member with rfl | later
    · cases found
      obtain ⟨about, held, fresh⟩ :=
        (justify_spec announced first.entities).1.mp (safe.resolve_right other)
      exact ⟨about, held, fresh, fun j earlier => absurd earlier (Nat.not_lt_zero j)⟩
    · exact kept.needed_beyond i later a found other

end Walk

/-- The walk keeps the announcements at some positions.

Proof: induction on the list; the first announcement is expired, kept, or dropped because it
says nothing new. -/
theorem retainAnnouncements_places (ann : Announcement) (sinceTime : SystemTime)
    (announced : List Entity) (list : List Announcement) :
    ∃ places, (retainAnnouncements ann sinceTime announced list).1 =
        places.filterMap (list[·]?) ∧ KeptPlaces ann sinceTime announced list places := by
  induction list generalizing announced with
  | nil =>
    refine ⟨[], rfl, List.Pairwise.nil, ?_, ?_, ?_⟩
    · exact fun i member => absurd member List.not_mem_nil
    · exact fun i a found => by cases found
    · exact fun i member => absurd member List.not_mem_nil
  | cons first rest inductionHypothesis =>
    rw [retainAnnouncements]
    by_cases expired : annTime first < sinceTime
    · obtain ⟨places, taken, kept⟩ := inductionHypothesis announced
      rw [if_pos expired]
      refine ⟨places.map (· + 1), ?_, kept.pass expired⟩
      rw [filterMap_succ]
      exact taken
    · obtain ⟨places, taken, kept⟩ := inductionHypothesis (justify announced first.entities).2
      rw [if_neg expired]
      dsimp only
      split
      · next safe =>
        refine ⟨0 :: places.map (· + 1), ?_, kept.keep expired safe⟩
        rw [filterMap_zero_succ]
        exact congrArg (first :: ·) taken
      · next stale =>
        refine ⟨places.map (· + 1), ?_, kept.drop (not_or.mp stale).1⟩
        rw [filterMap_succ]
        exact taken

/-- After the new announcement come the old ones at some positions. Every lasting entity
of a recent one is superseded by the new announcement or by one kept at the same
position or before it, and what is kept besides the new announcement has a lasting
entity that neither the new one nor anything recent before it supersedes.

Proof: the filter takes announcements from the newest to the oldest and collects the subjects that
it has seen; its invariant is that a subject is collected exactly when it is covered by what was
seen. -/
theorem nothing_current_lost (ann : Announcement) (state : NodeMut) :
    ∃ places : List ℕ, places.Pairwise (· < ·) ∧
      (addAnnouncement ann state).announcements =
        ann :: places.filterMap (state.announcements[·]?) ∧
      (∀ i ∈ places, ∃ a, state.announcements[i]? = some a ∧
        annTime ann - agreedTimeout ≤ annTime a) ∧
      (∀ i a e, state.announcements[i]? = some a → annTime ann - agreedTimeout ≤ annTime a →
        e ∈ a.entities → isEntityEphemeral e = false →
          Supersedes ann e ∨ ∃ j ∈ places, j ≤ i ∧
            ∃ b, state.announcements[j]? = some b ∧ Supersedes b e) ∧
      ∀ i ∈ places, ∀ a, state.announcements[i]? = some a → a ≠ ann →
        ∃ e ∈ a.entities, isEntityEphemeral e = false ∧ ¬Supersedes ann e ∧
          ∀ j < i, ∀ b, state.announcements[j]? = some b →
            annTime ann - agreedTimeout ≤ annTime b → ¬Supersedes b e := by
  obtain ⟨places, taken, kept⟩ := retainAnnouncements_places ann (annTime ann - agreedTimeout)
    (justify [] ann.entities).2 state.announcements
  have announced_iff : ∀ about, about ∈ subjects (justify [] ann.entities).2 ↔
      about ∈ subjects ann.entities := by
    intro about
    rw [(justify_spec [] ann.entities).2]
    exact or_iff_right List.not_mem_nil
  refine ⟨places, kept.ordered, ?_, ?_, ?_, ?_⟩
  · rw [addAnnouncement_announcements, pruneAnnouncements, retainAnnouncements,
      if_neg (annTime_recent ann)]
    dsimp only
    rw [if_pos (Or.inr rfl), taken]
  · intro i member
    obtain ⟨a, found, young⟩ := kept.recent i member
    exact ⟨a, found, Int.not_lt.mp young⟩
  · intro i a e found young member lasting
    obtain ⟨about, lasts⟩ := Option.ne_none_iff_exists'.mp
      (mt (isEntityEphemeral_iff e).mpr (Bool.eq_false_iff.mp lasting))
    have held : about ∈ subjects a.entities := List.mem_filterMap.mpr ⟨e, member, lasts⟩
    simp only [supersedes_iff lasts, ← announced_iff about]
    exact kept.covers i a found (Int.not_lt.mpr young) about held
  · intro i member a found other
    obtain ⟨about, held, fresh, newest⟩ := kept.needed i member a found other
    obtain ⟨e, holds, lasts⟩ := List.mem_filterMap.mp held
    have lasting : isEntityEphemeral e = false :=
      Bool.eq_false_iff.mpr (mt (isEntityEphemeral_iff e).mp (by simp [lasts]))
    refine ⟨e, holds, lasting, ?_, fun j earlier b atJ young => ?_⟩
    · rw [supersedes_iff lasts, ← announced_iff]
      exact fresh
    · rw [supersedes_iff lasts]
      exact newest j earlier b atJ (Int.not_lt.mpr young)

end RouteServer.Snode
