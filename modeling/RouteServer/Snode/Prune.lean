import RouteServer.Ann.Model

/-!
# Pruning of announcements

A node keeps the announcements that still say something. A new announcement goes to
the front; an older one stays if it is recent and holds a lasting entity that nothing
before it in the list supersedes. Entities supersede one another by what they are
about: the scheme, the version, or the peer of a number. Link states last no longer
than their announcement.
-/

namespace RouteServer.Snode

open Rust Ann

/-- A point in time, in nanoseconds from the epoch. -/
abbrev SystemTime : Type := Int

/-- A time span in nanoseconds. -/
def seconds (count : Int) : Int := count * 1000000000

/-- `mktime`: timestamps are in milliseconds. -/
def mktime (timestamp : UInt64) : SystemTime := timestamp.toNat * 1000000

/-- `AGREED_TIMEOUT`. -/
def agreedTimeout : Int := seconds (20 * 60)

/-- The time of an announcement. -/
def annTime (ann : Announcement) : SystemTime := mktime ann.header.timestamp

/-- `is_entity_ephemeral`. -/
def isEntityEphemeral : Entity → Bool
  | .linkState _ => true
  | _ => false

/-- `is_entity_replacement`. -/
def isEntityReplacement : Entity → Entity → Bool
  | .encodingScheme _ _, .encodingScheme _ _ => true
  | .nodeProtocolVersion _, .nodeProtocolVersion _ => true
  | .peer oldPeer, .peer newPeer => oldPeer.peerNum = newPeer.peerNum
  | _, _ => false

/-- The loop over the entities of an announcement: whether one of them is not
announced yet, and the entities announced afterwards. -/
def justify (announced : List Entity) : List Entity → Bool × List Entity
  | [] => (false, announced)
  | e :: rest =>
    if isEntityEphemeral e then justify announced rest
    else if (announced.filter (fun je => isEntityReplacement e je)).length = 0 then
      (true, (justify (announced ++ [e]) rest).2)
    else justify announced rest

/-- The closure of `retain` over the announcements: those kept and those dropped. -/
def retainAnnouncements (ann : Announcement) (sinceTime : SystemTime) (announced : List Entity) :
    List Announcement → List Announcement × List Announcement
  | [] => ([], [])
  | a :: rest =>
    if annTime a < sinceTime then
      let (kept, dropped) := retainAnnouncements ann sinceTime announced rest
      (kept, a :: dropped)
    else
      let (safe, announced) := justify announced a.entities
      let (kept, dropped) := retainAnnouncements ann sinceTime announced rest
      if safe ∨ a = ann then (a :: kept, dropped) else (kept, a :: dropped)

/-- The announcements of a node with a new one, pruned. -/
def pruneAnnouncements (ann : Announcement) (announcements : List Announcement) :
    List Announcement × List Announcement :=
  retainAnnouncements ann (annTime ann - agreedTimeout) [] (ann :: announcements)

/-- The new announcement is recent by its own clock. -/
theorem annTime_recent (ann : Announcement) : ¬annTime ann < annTime ann - agreedTimeout := by
  have span : 0 ≤ agreedTimeout := by decide
  exact Int.not_lt.mpr (Int.sub_le_self (annTime ann) span)

/-- Every copy of the new announcement is kept. -/
theorem count_retainAnnouncements (ann : Announcement) (sinceTime : SystemTime)
    (recent : ¬annTime ann < sinceTime) (announced : List Entity) (list : List Announcement) :
    (retainAnnouncements ann sinceTime announced list).1.count ann = list.count ann := by
  induction list generalizing announced with
  | nil => rfl
  | cons a rest inductionHypothesis =>
    rw [retainAnnouncements]
    by_cases same : a = ann
    · subst same
      rw [if_neg recent]
      simp only [or_true, if_true, List.count_cons_self, inductionHypothesis]
    · rw [List.count_cons_of_ne same]
      split
      · exact inductionHypothesis announced
      · dsimp only
        split
        · rw [List.count_cons_of_ne same]
          exact inductionHypothesis _
        · exact inductionHypothesis _

/-- Pruning keeps the new announcement with all its earlier copies. -/
theorem count_pruneAnnouncements (ann : Announcement) (announcements : List Announcement) :
    (pruneAnnouncements ann announcements).1.count ann = announcements.count ann + 1 :=
  (count_retainAnnouncements ann _ (annTime_recent ann) [] _).trans (List.count_cons_self ..)

/-- What is kept is recent and in the order it had. -/
theorem retainAnnouncements_kept (ann : Announcement) (sinceTime : SystemTime)
    (announced : List Entity) (list : List Announcement) :
    (retainAnnouncements ann sinceTime announced list).1.Sublist list ∧
      ∀ a ∈ (retainAnnouncements ann sinceTime announced list).1, sinceTime ≤ annTime a := by
  induction list generalizing announced with
  | nil => exact ⟨List.Sublist.slnil, fun a member => absurd member List.not_mem_nil⟩
  | cons a rest inductionHypothesis =>
    rw [retainAnnouncements]
    split
    · obtain ⟨sublist, recent⟩ := inductionHypothesis announced
      exact ⟨sublist.cons a, recent⟩
    · next young =>
      obtain ⟨sublist, recent⟩ := inductionHypothesis (justify announced a.entities).2
      dsimp only
      split
      · refine ⟨sublist.cons_cons a, fun other member => ?_⟩
        rcases List.mem_cons.mp member with rfl | later
        · exact Int.not_lt.mp young
        · exact recent other later
      · exact ⟨sublist.cons a, recent⟩

/-- The new announcement comes first, before recent ones of those given in their order. -/
theorem pruneAnnouncements_eq_cons (ann : Announcement) (announcements : List Announcement) :
    ∃ kept, (pruneAnnouncements ann announcements).1 = ann :: kept ∧
      kept.Sublist announcements ∧ ∀ a ∈ kept, annTime ann - agreedTimeout ≤ annTime a := by
  obtain ⟨sublist, recent⟩ := retainAnnouncements_kept ann (annTime ann - agreedTimeout)
    (justify [] ann.entities).2 announcements
  refine ⟨_, ?_, sublist, recent⟩
  rw [pruneAnnouncements, retainAnnouncements, if_neg (annTime_recent ann)]
  exact congrArg Prod.fst (if_pos (Or.inr rfl))

/-- The new announcement itself is never pruned. -/
theorem mem_pruneAnnouncements (ann : Announcement) (announcements : List Announcement) :
    ann ∈ (pruneAnnouncements ann announcements).1 := by
  rw [← List.count_pos_iff, count_pruneAnnouncements]
  exact Nat.succ_pos _

end RouteServer.Snode
