import RouteServer.Ann.Model
import RouteServer.Rust.HashMap

/-!
# The announcements offered to peers

Peers are offered announcements by hash. The list keeps the packets by hash and the
hashes in the order in which they were added. Addition through `Peers` passes over a
hash that is listed already, which is what keeps the order free of duplicates.
-/

namespace RouteServer.Snode

open Rust Ann

/-- `AnnList`. -/
structure AnnList where
  annByHash : AList (fun _ : AnnHash => List UInt8)
  annHashesOrdered : List AnnHash

namespace AnnList

/-- `AnnList::new`. -/
def new : AnnList := ⟨∅, []⟩

/-- `AnnList::add`. -/
def add (anns : AnnList) (hash : AnnHash) (binary : List UInt8) : AnnList :=
  { annHashesOrdered := anns.annHashesOrdered ++ [hash]
    annByHash := anns.annByHash.insert hash binary }

/-- `AnnList::remove`. -/
def remove (anns : AnnList) (hash : AnnHash) : AnnList :=
  { annHashesOrdered := anns.annHashesOrdered.filter (· ≠ hash)
    annByHash := anns.annByHash.erase hash }

/-- `Peers::add_ann`. -/
def addAnn (anns : AnnList) (hash : AnnHash) (binary : List UInt8) : AnnList :=
  if hash ∈ anns.annHashesOrdered then anns else anns.add hash binary

/-- `Peers::del_ann`. -/
def delAnn (anns : AnnList) (hash : AnnHash) : AnnList := anns.remove hash

/-- `Peers::del_ann` for some hashes in turn. -/
def delAnns (anns : AnnList) (hashes : List AnnHash) : AnnList := hashes.foldl delAnn anns

/-- The order lists every key of the map once. -/
structure Consistent (anns : AnnList) : Prop where
  nodup : anns.annHashesOrdered.Nodup
  keys : ∀ hash, hash ∈ anns.annHashesOrdered ↔ hash ∈ anns.annByHash

/-- A new list is empty. -/
theorem new_consistent : new.Consistent := ⟨List.nodup_nil, by simp [new]⟩

/-- An announcement that is added is listed, with those before it. -/
theorem mem_addAnn (anns : AnnList) (added hash : AnnHash) (binary : List UInt8) :
    hash ∈ (anns.addAnn added binary).annHashesOrdered ↔
      hash = added ∨ hash ∈ anns.annHashesOrdered := by
  rw [addAnn]
  split
  · next listed =>
    constructor
    · exact Or.inr
    · rintro (rfl | member)
      · exact listed
      · exact member
  · simp [add, or_comm]

/-- Announcements that are deleted are no longer listed. -/
theorem mem_delAnns (anns : AnnList) (hashes : List AnnHash) (hash : AnnHash) :
    hash ∈ (anns.delAnns hashes).annHashesOrdered ↔
      hash ∈ anns.annHashesOrdered ∧ hash ∉ hashes := by
  induction hashes generalizing anns with
  | nil => simp [delAnns]
  | cons removed rest inductionHypothesis =>
    have step : anns.delAnns (removed :: rest) = (anns.delAnn removed).delAnns rest := rfl
    rw [step, inductionHypothesis]
    simp only [delAnn, remove, List.mem_filter, decide_eq_true_eq, List.mem_cons, not_or]
    exact and_assoc

/-- A list stays consistent with one more announcement, since its hash is not listed twice. -/
theorem Consistent.addAnn {anns : AnnList} (consistent : anns.Consistent) (hash : AnnHash)
    (binary : List UInt8) : (anns.addAnn hash binary).Consistent := by
  rw [AnnList.addAnn]
  split
  · exact consistent
  · next fresh =>
    constructor
    · exact List.nodup_append.mpr ⟨consistent.nodup, List.nodup_singleton hash, by
        rintro listed member _ single rfl
        exact fresh (List.mem_singleton.mp single ▸ member)⟩
    · intro other
      simp only [add, List.mem_append, List.mem_singleton, AList.mem_insert, consistent.keys]
      exact or_comm

/-- A list stays consistent without some announcements, since they go from both of its parts. -/
theorem Consistent.delAnns {anns : AnnList} (consistent : anns.Consistent)
    (hashes : List AnnHash) : (anns.delAnns hashes).Consistent := by
  induction hashes generalizing anns with
  | nil => exact consistent
  | cons removed rest inductionHypothesis =>
    have shorter : (anns.delAnn removed).Consistent := by
      constructor
      · exact consistent.nodup.filter _
      · intro other
        simp [delAnn, remove, consistent.keys, AList.mem_erase, and_comm]
    exact inductionHypothesis shorter

end AnnList

end RouteServer.Snode
