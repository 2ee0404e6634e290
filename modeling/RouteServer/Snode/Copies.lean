import RouteServer.Snode.Prune

/-!
# Copies under pruning

A lasting entity has a subject, and entities supersede each other when their subjects
agree. An announcement other than the newest survives pruning if it is recent and has
a subject that no recent announcement before it has. A second copy has no subject of
its own, so of several copies at most the first one survives, and the others are
dropped: this is where a dropped announcement may still be held.
-/

namespace RouteServer.Snode

open Rust Ann

/-- What a lasting entity is about. -/
inductive Subject where
  | encodingScheme
  | nodeProtocolVersion
  | peer (peerNum : UInt16)

/-- The subject of an entity, if it lasts. -/
def subject : Entity → Option Subject
  | .encodingScheme _ _ => some .encodingScheme
  | .nodeProtocolVersion _ => some .nodeProtocolVersion
  | .peer data => some (.peer data.peerNum)
  | .linkState _ => none

/-- The subjects of entities. -/
def subjects (entities : List Entity) : List Subject := entities.filterMap subject

/-- A subject of a recent announcement among some. -/
def Covered (sinceTime : SystemTime) (earlier : List Announcement) (about : Subject) : Prop :=
  ∃ b ∈ earlier, ¬annTime b < sinceTime ∧ about ∈ subjects b.entities

/-- No announcement of a node that is held more than once, apart from its reset message,
says anything that the newest one and the recent ones before its first copy do not
say. -/
def CopiesSpent (ann : Announcement) (announcements : List Announcement)
    (resetMsg : Option Announcement) : Prop :=
  ∀ a front rear, announcements = front ++ a :: rear → a ∉ front → a ∈ rear → a ≠ ann →
    some a ≠ resetMsg → ¬annTime a < annTime ann - agreedTimeout →
    ∀ about ∈ subjects a.entities, Covered (annTime ann - agreedTimeout) (ann :: front) about

/-- What does not last has no subject. -/
theorem isEntityEphemeral_iff (e : Entity) : isEntityEphemeral e = true ↔ subject e = none := by
  cases e <;> simp [isEntityEphemeral, subject]

/-- Entities supersede one another when they have one subject. -/
theorem isEntityReplacement_iff (oldE newE : Entity) :
    isEntityReplacement oldE newE = true ↔
      ∃ about, subject oldE = some about ∧ subject newE = some about := by
  cases oldE <;> cases newE <;> simp [isEntityReplacement, subject, eq_comm]

/-- No entity of an announcement replaces one that lasts exactly when none is about the same
subject. -/
theorem count_replacements_eq_zero_iff (announced : List Entity) {e : Entity} {about : Subject}
    (lasts : subject e = some about) :
    (announced.filter fun je => isEntityReplacement e je).length = 0 ↔
      about ∉ subjects announced := by
  rw [List.length_eq_zero_iff, List.filter_eq_nil_iff, subjects, List.mem_filterMap]
  simp only [isEntityReplacement_iff, lasts, Option.some.injEq, exists_eq_left', not_exists,
    not_and]

/-- The loop over the entities announces every subject, and finds whether one is new.

Proof: induction on the entities. An ephemeral one is passed over; one whose subject was
announced already adds nothing; a new one announces its subject. -/
theorem justify_spec (announced entities : List Entity) :
    ((justify announced entities).1 = true ↔
        ∃ about ∈ subjects entities, about ∉ subjects announced) ∧
      ∀ about, about ∈ subjects (justify announced entities).2 ↔
        about ∈ subjects announced ∨ about ∈ subjects entities := by
  induction entities generalizing announced with
  | nil => simp [justify, subjects]
  | cons e rest inductionHypothesis =>
    cases lasts : subject e with
    | none =>
      have same : subjects (e :: rest) = subjects rest := List.filterMap_cons_none lasts
      rw [justify, if_pos ((isEntityEphemeral_iff e).mpr lasts), same]
      exact inductionHypothesis announced
    | some about =>
      have more : subjects (e :: rest) = about :: subjects rest := List.filterMap_cons_some lasts
      have lasting : ¬isEntityEphemeral e = true := by simp [isEntityEphemeral_iff, lasts]
      rw [justify, if_neg lasting, more]
      split
      · next fresh =>
        have absent := (count_replacements_eq_zero_iff announced lasts).mp fresh
        have added : subjects (announced ++ [e]) = subjects announced ++ [about] := by
          simp [subjects, lasts]
        refine ⟨iff_of_true rfl ⟨about, List.mem_cons_self, absent⟩, fun other => ?_⟩
        rw [(inductionHypothesis (announced ++ [e])).2 other, added]
        simp only [List.mem_append, List.mem_cons, List.not_mem_nil, or_false, or_assoc]
      · next covered =>
        have present : about ∈ subjects announced :=
          Classical.not_not.mp (mt (count_replacements_eq_zero_iff announced lasts).mpr covered)
        obtain ⟨safe_iff, announced_iff⟩ := inductionHypothesis announced
        refine ⟨safe_iff.trans ?_, fun other => (announced_iff other).trans ?_⟩
        · constructor
          · rintro ⟨other, member, absent⟩
            exact ⟨other, List.mem_cons_of_mem _ member, absent⟩
          · rintro ⟨other, member, absent⟩
            rcases List.mem_cons.mp member with rfl | later
            · exact absurd present absent
            · exact ⟨other, later, absent⟩
        · simp only [List.mem_cons]
          constructor
          · exact Or.imp_right Or.inr
          · rintro (before | rfl | later)
            · exact Or.inl before
            · exact Or.inl present
            · exact Or.inr later

/-- Pruning only distributes announcements. -/
theorem retainAnnouncements_perm (ann : Announcement) (sinceTime : SystemTime)
    (announced : List Entity) (list : List Announcement) :
    ((retainAnnouncements ann sinceTime announced list).1 ++
      (retainAnnouncements ann sinceTime announced list).2).Perm list := by
  induction list generalizing announced with
  | nil => exact List.Perm.refl _
  | cons a rest inductionHypothesis =>
    rw [retainAnnouncements]
    split
    · exact List.perm_middle.trans ((inductionHypothesis announced).cons a)
    · dsimp only
      split
      · exact (inductionHypothesis _).cons a
      · exact List.perm_middle.trans ((inductionHypothesis _).cons a)

/-- A subject is covered by the first announcement, if it is recent, or by the others. -/
theorem covered_cons_iff (sinceTime : SystemTime) (b : Announcement)
    (earlier : List Announcement) (about : Subject) :
    Covered sinceTime (b :: earlier) about ↔
      (¬annTime b < sinceTime ∧ about ∈ subjects b.entities) ∨
        Covered sinceTime earlier about := by
  simp only [Covered, List.mem_cons, exists_eq_or_imp]

/-- The first copy in a list is its head, or the first copy in its tail. -/
theorem exists_first_copy_cons_iff {a first : Announcement} {rest : List Announcement}
    (holds : List Announcement → Prop) :
    (∃ front rear, first :: rest = front ++ a :: rear ∧ a ∉ front ∧ holds front) ↔
      (first = a ∧ holds []) ∨
        first ≠ a ∧
          ∃ front rear, rest = front ++ a :: rear ∧ a ∉ front ∧ holds (first :: front) := by
  constructor
  · rintro ⟨front, rear, split, absent, holdsFront⟩
    cases front with
    | nil =>
      cases split
      exact Or.inl ⟨rfl, holdsFront⟩
    | cons head front =>
      cases split
      simp only [List.mem_cons, not_or] at absent
      exact Or.inr ⟨Ne.symm absent.1, front, rear, rfl, absent.2, holdsFront⟩
  · rintro (⟨rfl, holdsNil⟩ | ⟨different, front, rear, rfl, absent, holdsFront⟩)
    · exact ⟨[], rest, rfl, List.not_mem_nil, holdsNil⟩
    · refine ⟨first :: front, rear, rfl, ?_, holdsFront⟩
      simp only [List.mem_cons, not_or]
      exact ⟨different.symm, absent⟩

section Survival

variable {ann a : Announcement} {sinceTime : SystemTime} (other : a ≠ ann)
include other

/-- An announcement survives by its first copy, if that is recent and has a subject not
yet announced.

Proof: induction on the list. What the first announcement covers is no longer new for those
behind it. -/
theorem mem_retainAnnouncements_iff (announced : List Entity) (list : List Announcement) :
    a ∈ (retainAnnouncements ann sinceTime announced list).1 ↔
      ¬annTime a < sinceTime ∧ ∃ front rear, list = front ++ a :: rear ∧ a ∉ front ∧
        ∃ about ∈ subjects a.entities,
          about ∉ subjects announced ∧ ¬Covered sinceTime front about := by
  induction list generalizing announced with
  | nil => simp [retainAnnouncements]
  | cons first rest inductionHypothesis =>
    rw [retainAnnouncements, exists_first_copy_cons_iff]
    simp only [covered_cons_iff]
    by_cases expired : annTime first < sinceTime
    · rw [if_pos expired]
      dsimp only
      rw [inductionHypothesis]
      by_cases same : first = a
      · subst same
        simp [expired]
      · simp [expired, same]
    · rw [if_neg expired]
      obtain ⟨safe_iff, announced_iff⟩ := justify_spec announced first.entities
      have later := inductionHypothesis (justify announced first.entities).2
      simp only [announced_iff, not_or] at later
      by_cases same : first = a
      · subst same
        have nowhere : first ∉ (retainAnnouncements ann sinceTime
            (justify announced first.entities).2 rest).1 := by
          rw [later]
          rintro ⟨-, -, -, -, -, about, member, ⟨-, absent⟩, -⟩
          exact absent member
        have uncovered : ∀ about, ¬Covered sinceTime [] about := by
          rintro about ⟨b, member, -⟩
          cases member
        simp only [other, or_false, ne_eq, not_true_eq_false, false_and, expired, true_and,
          not_false_eq_true, uncovered, and_true]
        rw [← safe_iff]
        split
        · next safe => simp [safe]
        · next unsafe' => simp [nowhere, unsafe']
      · have headless : a ∈ (if (justify announced first.entities).1 = true ∨ first = ann then
            (first ::
                (retainAnnouncements ann sinceTime (justify announced first.entities).2 rest).1,
              (retainAnnouncements ann sinceTime (justify announced first.entities).2 rest).2)
            else ((retainAnnouncements ann sinceTime (justify announced first.entities).2 rest).1,
              first :: (retainAnnouncements ann sinceTime
                (justify announced first.entities).2 rest).2)).1 ↔
            a ∈ (retainAnnouncements ann sinceTime
              (justify announced first.entities).2 rest).1 := by
          split
          · simp [Ne.symm same]
          · rfl
        rw [headless, later]
        simp only [same, false_and, false_or, ne_eq, not_false_eq_true, true_and, expired, not_or,
          and_assoc]

/-- What has been announced already does not survive. -/
theorem not_mem_of_announced (announced : List Entity) (list : List Announcement)
    (said : ∀ about ∈ subjects a.entities, about ∈ subjects announced) :
    a ∉ (retainAnnouncements ann sinceTime announced list).1 := by
  rw [mem_retainAnnouncements_iff other]
  rintro ⟨-, -, -, -, -, about, member, absent, -⟩
  exact absent (said about member)

/-- At most one copy survives. -/
theorem count_retained_le_one (announced : List Entity) (list : List Announcement) :
    (retainAnnouncements ann sinceTime announced list).1.count a ≤ 1 := by
  induction list generalizing announced with
  | nil => simp [retainAnnouncements]
  | cons first rest inductionHypothesis =>
    rw [retainAnnouncements]
    split
    · exact inductionHypothesis announced
    · dsimp only
      split
      · by_cases same : first = a
        · subst same
          have said := (justify_spec announced first.entities).2
          have absent : first ∉ (retainAnnouncements ann sinceTime
              (justify announced first.entities).2 rest).1 :=
            not_mem_of_announced other _ rest fun about member =>
              (said about).mpr (Or.inr member)
          exact Nat.le_of_eq (by rw [List.count_cons_self, List.count_eq_zero.mpr absent])
        · rw [List.count_cons_of_ne same]
          exact inductionHypothesis _
      · exact inductionHypothesis _

end Survival

/-- Every announcement offered to pruning is kept or dropped. -/
theorem pruneAnnouncements_perm (ann : Announcement) (announcements : List Announcement) :
    ((pruneAnnouncements ann announcements).1 ++ (pruneAnnouncements ann announcements).2).Perm
      (ann :: announcements) := retainAnnouncements_perm ann _ [] _

/-- The newest announcement is not dropped. -/
theorem not_dropped_newest (ann : Announcement) (announcements : List Announcement) :
    ann ∉ (pruneAnnouncements ann announcements).2 := by
  have total := (pruneAnnouncements_perm ann announcements).count_eq ann
  rw [List.count_append, count_pruneAnnouncements, List.count_cons_self] at total
  exact List.count_eq_zero.mp (Nat.add_left_cancel (total.trans (Nat.add_zero _).symm))

/-- Another announcement is both kept and dropped when it is held more than once and
survives. -/
theorem kept_and_dropped_iff {ann a : Announcement} (other : a ≠ ann)
    (announcements : List Announcement) :
    a ∈ (pruneAnnouncements ann announcements).1 ∧ a ∈ (pruneAnnouncements ann announcements).2 ↔
      a ∈ (pruneAnnouncements ann announcements).1 ∧ 2 ≤ announcements.count a := by
  have total := (pruneAnnouncements_perm ann announcements).count_eq a
  rw [List.count_append, List.count_cons_of_ne (Ne.symm other)] at total
  have once : (pruneAnnouncements ann announcements).1.count a ≤ 1 :=
    count_retained_le_one other [] _
  simp only [← List.count_pos_iff]
  omega

/-- An older announcement survives the newest one by its first copy. -/
theorem mem_kept_iff {ann a : Announcement} (other : a ≠ ann) (announcements : List Announcement) :
    a ∈ (pruneAnnouncements ann announcements).1 ↔
      ¬annTime a < annTime ann - agreedTimeout ∧
        ∃ front rear, announcements = front ++ a :: rear ∧ a ∉ front ∧
          ∃ about ∈ subjects a.entities,
            ¬Covered (annTime ann - agreedTimeout) (ann :: front) about := by
  rw [pruneAnnouncements, mem_retainAnnouncements_iff other, exists_first_copy_cons_iff]
  have nothing : ∀ about, about ∉ subjects [] := fun _ => List.not_mem_nil
  simp only [Ne.symm other, false_and, false_or, ne_eq, not_false_eq_true, true_and, nothing]

/-- Nothing that is dropped stays held, the reset message apart, exactly when no copies
of an announcement that survives are held. -/
theorem dropped_not_kept_iff (ann : Announcement) (announcements : List Announcement)
    (resetMsg : Option Announcement) :
    (∀ a ∈ (pruneAnnouncements ann announcements).2, some a ≠ resetMsg →
        a ∉ (pruneAnnouncements ann announcements).1) ↔
      CopiesSpent ann announcements resetMsg := by
  constructor
  · intro apart a front rear split absent repeated other lost recent about member
    refine Classical.not_not.mp fun uncovered => ?_
    have kept : a ∈ (pruneAnnouncements ann announcements).1 :=
      (mem_kept_iff other announcements).mpr
        ⟨recent, front, rear, split, absent, about, member, uncovered⟩
    have copies : 2 ≤ announcements.count a := by
      rw [split, List.count_append, List.count_cons_self]
      have later := List.count_pos_iff.mpr repeated
      omega
    exact apart a ((kept_and_dropped_iff other announcements).mpr ⟨kept, copies⟩).2 lost kept
  · intro spent a dropped lost kept
    have other : a ≠ ann := by
      rintro rfl
      exact not_dropped_newest a announcements dropped
    obtain ⟨recent, front, rear, split, absent, about, member, uncovered⟩ :=
      (mem_kept_iff other announcements).mp kept
    have copies := ((kept_and_dropped_iff other announcements).mp ⟨kept, dropped⟩).2
    rw [split, List.count_append, List.count_eq_zero.mpr absent, List.count_cons_self] at copies
    have repeated : a ∈ rear := List.count_pos_iff.mp (by omega)
    exact uncovered (spent a front rear split absent repeated other lost recent about member)

end RouteServer.Snode
