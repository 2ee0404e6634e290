import Mathlib.Logic.Relation
import RouteServer.Graphs.ShortestRoute

/-!
# The tree that a search leaves

Whatever the costs are, a search explores nodes that edges from explored nodes lead to, and
links each node it puts on its frontier to an explored one. Links of explored nodes are not
changed any more, so they form a tree: from each node they lead back to the start, never
through a node twice, and what they say of an explored node they still say at the end. A
search with nothing left to explore has explored what can be reached, and has a link for
each such node but its start.
-/

namespace Graphs

universe u v
variable {T : Type u} {W : Type v}

/-- A trace ends in its start. -/
theorem Traced.getLast? {previous : T → Option T} {start : T} {nodes : List T}
    (traced : Traced previous start nodes) : nodes.getLast? = some start := by
  induction traced with
  | start => rfl
  | step _ _ inductionHypothesis => exact inductionHypothesis

/-- The start of a trace has nothing before it, by induction on the trace. -/
theorem Traced.unlinked {previous : T → Option T} {start : T} {nodes : List T}
    (traced : Traced previous start nodes) : previous start = none := by
  induction traced with
  | start unlinked => exact unlinked
  | step _ _ inductionHypothesis => exact inductionHypothesis

/-- Links lead back from a node in one way. -/
theorem Traced.unique {previous : T → Option T} {start node : T} {first second : List T}
    (traced : Traced previous start (node :: first))
    (also : Traced previous start (node :: second)) : first = second := by
  induction first generalizing node second with
  | nil =>
    cases traced with
    | start unlinked =>
      cases also with
      | start => rfl
      | step _ link =>
        rw [unlinked] at link
        cases link
  | cons last rest inductionHypothesis =>
    cases traced with
    | step traced link =>
      cases also with
      | start unlinked =>
        rw [link] at unlinked
        cases unlinked
      | step also otherLink =>
        cases link.symm.trans otherLink
        exact congrArg (last :: ·) (inductionHypothesis traced also)

/-- The start is met once, at the end. -/
theorem Traced.start_notMem {previous : T → Option T} {start : T} {nodes : List T}
    (traced : Traced previous start (nodes ++ [start])) : start ∉ nodes := by
  have unlinked := traced.unlinked
  induction nodes with
  | nil => exact List.not_mem_nil
  | cons node rest inductionHypothesis =>
    obtain ⟨last, behind, split⟩ : ∃ last behind, rest ++ [start] = last :: behind :=
      List.exists_cons_of_ne_nil (by simp)
    rw [List.cons_append, split] at traced
    cases traced with
    | step traced link =>
      rintro (_ | ⟨_, listed⟩)
      · rw [unlinked] at link
        cases link
      · exact inductionHypothesis (split ▸ traced) listed

namespace Search

/-- What comes after keeps the explored nodes and their links. -/
structure Extends (before after : Search T W) : Prop where
  explored : before.explored ⊆ after.explored
  kept : ∀ node ∈ before.explored, after.previous node = before.previous node

variable {first second third before after : Search T W}

/-- A search extends itself. -/
theorem Extends.refl (search : Search T W) : search.Extends search :=
  ⟨subset_rfl, fun _ _ => rfl⟩

/-- What extends an extension extends the search. -/
theorem Extends.trans (former : first.Extends second) (latter : second.Extends third) :
    first.Extends third where
  explored := former.explored.trans latter.explored
  kept node explored :=
    (latter.kept node (former.explored explored)).trans (former.kept node explored)

/-- A node that is explored takes no link away. -/
theorem extends_explore (search : Search T W) (node : T) : search.Extends (search.explore node) :=
  ⟨Set.subset_insert node search.explored, fun _ _ => rfl⟩

/-- A link to a node that was not explored leaves the links of the explored ones. -/
theorem extends_improve [DecidableEq T] (search : Search T W) {next : T}
    (fresh : next ∉ search.explored) (last : T) (cost : W) :
    search.Extends (search.improve last next cost) where
  explored := subset_rfl
  kept node explored := by
    have different : node ≠ next := by
      rintro rfl
      exact fresh explored
    exact Function.update_of_ne different _ _

/-- A trace through explored nodes stays one. -/
theorem Extends.traced (extension : before.Extends after) {start : T} {nodes : List T}
    (traced : Traced before.previous start nodes)
    (inside : ∀ node ∈ nodes, node ∈ before.explored) : Traced after.previous start nodes :=
  traced.congr fun node listed => extension.kept node (inside node listed)

end Search

/-- A node with links back to the start, through explored nodes. -/
def Rooted (search : Search T W) (start node : T) : Prop :=
  ∃ behind, Traced search.previous start (node :: behind) ∧ (node :: behind).Nodup ∧
    ∀ other ∈ behind, other ∈ search.explored

/-- What a search keeps, whatever its costs are. Some edges from explored nodes may still
have to be looked at. -/
structure Growing (edge : T → T → W → Prop) (start : T) (pending : T → T → W → Prop)
    (search : Search T W) : Prop where
  unlinked : search.previous start = none
  began : start ∈ search.explored ∨ search.explored = ∅ ∧ (∃ cost, search.frontier start cost) ∧
    ∀ node cost, search.frontier node cost → node = start
  apart : ∀ node cost, search.frontier node cost → node ∉ search.explored
  waiting : ∀ node cost, search.frontier node cost →
    node = start ∨ ∃ last, search.previous node = some last
  linked : ∀ node last, search.previous node = some last → last ∈ search.explored ∧
    (∃ weight, edge last node weight) ∧ (node ∈ search.explored ∨ ∃ cost, search.frontier node cost)
  rooted : ∀ node ∈ search.explored, Rooted search start node
  relaxed : ∀ last ∈ search.explored, ∀ next weight, edge last next weight →
    next ∈ search.explored ∨ pending last next weight ∨ ∃ cost, search.frontier next cost

section

variable {edge : T → T → W → Prop} {start : T} {pending remaining : T → T → W → Prop}
  {search : Search T W}

/-- A search that has only its start on the frontier. -/
theorem Growing.initial (edge : T → T → W → Prop) (start : T) (zero : W) :
    Growing edge start (fun _ _ _ => False)
      ⟨∅, fun node cost => node = start ∧ cost = zero, fun _ => none⟩ where
  unlinked := rfl
  began := .inr ⟨rfl, ⟨zero, rfl, rfl⟩, fun _ _ waits => waits.1⟩
  apart _ _ _ := Set.notMem_empty _
  waiting _ _ waits := .inl waits.1
  linked _ _ link := nomatch link
  rooted _ explored := absurd explored (Set.notMem_empty _)
  relaxed _ explored := absurd explored (Set.notMem_empty _)

/-- Edges to explored nodes and to nodes that wait need no attention. -/
theorem Growing.discharge (growing : Growing edge start pending search)
    (met : ∀ last next weight, edge last next weight → pending last next weight →
      remaining last next weight ∨ next ∈ search.explored ∨ ∃ cost, search.frontier next cost) :
    Growing edge start remaining search where
  unlinked := growing.unlinked
  began := growing.began
  apart := growing.apart
  waiting := growing.waiting
  linked := growing.linked
  rooted := growing.rooted
  relaxed last explored next weight along := by
    obtain done | waits | settled := growing.relaxed last explored next weight along
    · exact .inl done
    · obtain remains | done | settled := met last next weight along waits
      · exact .inr (.inl remains)
      · exact .inl done
      · exact .inr (.inr settled)
    · exact .inr (.inr settled)

/-- The first of the links needs no attention. -/
theorem Growing.passed {node next : T} {weight : W} {links : List (T × W)}
    (growing : Growing edge start (Leaving node ((next, weight) :: links)) search)
    (met : next ∈ search.explored ∨ ∃ cost, search.frontier next cost) :
    Growing edge start (Leaving node links) search := by
  apply growing.discharge
  intro last other toOther _ leaving
  obtain remains | ⟨rfl, rfl, rfl⟩ := leaving.first_or_rest
  · exact .inl remains
  · exact .inr met

/-- A node that is not explored waits by way of an explored one.

Proof: field by field. Only the node that is improved changes its predecessor and its cost, and
it is not explored, so what is known of explored nodes stays. -/
theorem Growing.improve [DecidableEq T] (growing : Growing edge start pending search)
    {last next : T} {cost weight : W} (explored : last ∈ search.explored)
    (along : edge last next weight) (fresh : next ∉ search.explored)
    (met : ∀ node other toOther, pending node other toOther →
      remaining node other toOther ∨ node = last ∧ other = next ∧ toOther = weight) :
    Growing edge start remaining (search.improve last next cost) := by
  have begun : start ∈ search.explored := by
    obtain begun | ⟨nothing, -⟩ := growing.began
    · exact begun
    · rw [nothing] at explored
      exact absurd explored (Set.notMem_empty _)
  have extension := search.extends_improve fresh last cost
  have inserted : (search.improve last next cost).previous next = some last :=
    Function.update_self ..
  have others : ∀ node ≠ next, (search.improve last next cost).previous node =
      search.previous node := fun node different => Function.update_of_ne different _ _
  constructor
  case unlinked => exact (extension.kept start begun).trans growing.unlinked
  case began => exact .inl begun
  case apart =>
    rintro node other (⟨rfl, -⟩ | ⟨-, waits⟩)
    · exact fresh
    · exact growing.apart node other waits
  case waiting =>
    rintro node other (⟨rfl, -⟩ | ⟨different, waits⟩)
    · exact .inr ⟨last, inserted⟩
    · obtain first | ⟨behind, link⟩ := growing.waiting node other waits
      · exact .inl first
      · exact .inr ⟨behind, (others node different).trans link⟩
  case linked =>
    intro node behind link
    by_cases same : node = next
    · subst same
      cases inserted.symm.trans link
      exact ⟨explored, ⟨weight, along⟩, .inr ⟨cost, .inl ⟨rfl, rfl⟩⟩⟩
    · obtain ⟨done, toNode, met | ⟨old, waits⟩⟩ :=
        growing.linked node behind ((others node same).symm.trans link)
      · exact ⟨done, toNode, .inl met⟩
      · exact ⟨done, toNode, .inr ⟨old, .inr ⟨same, waits⟩⟩⟩
  case rooted =>
    intro node done
    obtain ⟨behind, traced, different, inside⟩ := growing.rooted node done
    have within : ∀ other ∈ node :: behind, other ∈ search.explored := by
      rintro other (_ | ⟨_, listed⟩)
      · exact done
      · exact inside other listed
    exact ⟨behind, extension.traced traced within, different, inside⟩
  case relaxed =>
    intro node done other toOther leads
    obtain found | waits | ⟨lower, waits⟩ := growing.relaxed node done other toOther leads
    · exact .inl found
    · obtain remains | ⟨rfl, rfl, rfl⟩ := met node other toOther waits
      · exact .inr (.inl remains)
      · exact .inr (.inr ⟨cost, .inl ⟨rfl, rfl⟩⟩)
    · by_cases same : other = next
      · exact .inr (.inr ⟨cost, .inl ⟨same, rfl⟩⟩)
      · exact .inr (.inr ⟨lower, .inr ⟨same, waits⟩⟩)

/-- A node of the frontier has links back to the start. -/
theorem Growing.rooted_of_waits (growing : Growing edge start pending search) {node : T}
    {cost : W} (waits : search.frontier node cost) : Rooted search start node := by
  have fresh := growing.apart node cost waits
  obtain rfl | ⟨last, link⟩ := growing.waiting node cost waits
  · exact ⟨[], .start growing.unlinked, List.nodup_singleton _,
      fun _ listed => absurd listed List.not_mem_nil⟩
  · obtain ⟨explored, -⟩ := growing.linked node last link
    obtain ⟨behind, traced, different, inside⟩ := growing.rooted last explored
    have within : ∀ other ∈ last :: behind, other ∈ search.explored := by
      rintro other (_ | ⟨_, listed⟩)
      · exact explored
      · exact inside other listed
    exact ⟨last :: behind, traced.step link,
      List.nodup_cons.mpr ⟨fun listed => fresh (within node listed), different⟩, within⟩

/-- A node of the frontier is explored.

Proof: field by field. The node moves from the frontier to the explored ones, so links and
traces that were there remain. -/
theorem Growing.explore (growing : Growing edge start (fun _ _ _ => False) search) {node : T}
    {cost : W} (waits : search.frontier node cost) :
    Growing edge start (fun last _ _ => last = node) (search.explore node) where
  unlinked := growing.unlinked
  began := by
    obtain explored | ⟨-, -, only⟩ := growing.began
    · exact .inl (.inr explored)
    · exact .inl (.inl (only node cost waits).symm)
  apart other higher otherWaits := by
    rintro (same | explored)
    · exact otherWaits.1 same
    · exact growing.apart other higher otherWaits.2 explored
  waiting other higher otherWaits := growing.waiting other higher otherWaits.2
  linked other last link := by
    obtain ⟨explored, along, met⟩ := growing.linked other last link
    refine ⟨.inr explored, along, ?_⟩
    by_cases same : other = node
    · exact .inl (.inl same)
    · obtain done | ⟨old, otherWaits⟩ := met
      · exact .inl (.inr done)
      · exact .inr ⟨old, same, otherWaits⟩
  rooted := by
    have kept (other : T) : Rooted search start other → Rooted (search.explore node) start other :=
      fun ⟨behind, traced, different, inside⟩ =>
        ⟨behind, traced, different, fun last listed => .inr (inside last listed)⟩
    rintro other (rfl | explored)
    · exact kept _ (growing.rooted_of_waits waits)
    · exact kept _ (growing.rooted other explored)
  relaxed := by
    rintro last (same | explored) next weight along
    · exact .inr (.inl same)
    · obtain done | impossible | ⟨lower, nextWaits⟩ :=
        growing.relaxed last explored next weight along
      · exact .inl (.inr done)
      · exact impossible.elim
      · by_cases same : next = node
        · exact .inl (.inl same)
        · exact .inr (.inr ⟨lower, same, nextWaits⟩)

/-- When nothing waits any more, the explored nodes are those that can be reached.

Proof: forwards by induction on the trace back to the start, backwards by induction on how the
node is reached: a neighbour of an explored node is explored, because nothing waits. -/
theorem Growing.explored_iff (growing : Growing edge start (fun _ _ _ => False) search)
    (nothing : ∀ node cost, ¬search.frontier node cost) (node : T) :
    node ∈ search.explored ↔
      Relation.ReflTransGen (fun last next => ∃ weight, edge last next weight) start node := by
  constructor
  · intro explored
    obtain ⟨behind, traced, -⟩ := growing.rooted node explored
    induction behind generalizing node with
    | nil =>
      cases traced with
      | start => exact .refl
    | cons last rest inductionHypothesis =>
      cases traced with
      | step traced link =>
        obtain ⟨lastExplored, along, -⟩ := growing.linked node last link
        exact (inductionHypothesis last lastExplored traced).tail along
  · intro reached
    induction reached with
    | refl =>
      obtain explored | ⟨-, ⟨cost, waits⟩, -⟩ := growing.began
      · exact explored
      · exact absurd waits (nothing start cost)
    | tail _ along inductionHypothesis =>
      obtain ⟨weight, along⟩ := along
      obtain explored | impossible | ⟨cost, waits⟩ :=
        growing.relaxed _ inductionHypothesis _ weight along
      · exact explored
      · exact impossible.elim
      · exact absurd waits (nothing _ cost)

/-- Then the nodes with links are the explored ones, but for the start. -/
theorem Growing.link_iff (growing : Growing edge start (fun _ _ _ => False) search)
    (nothing : ∀ node cost, ¬search.frontier node cost) (node : T) :
    (∃ last, search.previous node = some last) ↔ node ≠ start ∧ node ∈ search.explored := by
  constructor
  · rintro ⟨last, link⟩
    obtain ⟨-, -, explored | ⟨cost, waits⟩⟩ := growing.linked node last link
    · refine ⟨?_, explored⟩
      rintro rfl
      rw [growing.unlinked] at link
      cases link
    · exact absurd waits (nothing node cost)
  · rintro ⟨other, explored⟩
    obtain ⟨behind, traced, -⟩ := growing.rooted node explored
    cases traced with
    | start => exact absurd rfl other
    | step _ link => exact ⟨_, link⟩

end

end Graphs
