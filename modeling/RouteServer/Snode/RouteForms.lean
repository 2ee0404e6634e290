import RouteServer.Core.ReEncodeForms
import RouteServer.Snode.Route

/-!
# Room for the way back

The label that a node uses towards the next node should be in a form no lower than that
of its label back to the node before, both in its own scheme. The newer way to compute
labels compares other numbers: it looks up the label to the next node in the scheme of
the next node, and the label back in the scheme of the node before. The outcome is right
exactly when these numbers lead to a form with enough room all the same.
-/

namespace RouteServer.Snode

open Rust Keys Encoding Labels Splice

/-- The label that a node uses towards another, by the number it has given it. -/
def labelTo (node other : Node) : Option (RoutingLabel 64) :=
  (firstLink node other.ipv6).bind fun link => labelOfWord 64 link.peerNum.toNat

/-- The label of a hop from a node is in a form of the node's scheme that is no lower than
the form of the label back to the node before. -/
def ReverseFits (prev node : Node) (hop : Hop) : Prop :=
  ∃ back backNum, labelTo node prev = some back ∧
    formNumber back node.encodingScheme = .ok backNum ∧
    RecognizedFrom hop.label node.encodingScheme backNum

/-- The forms seen from the neighbours leave enough room for the way back. The label
back has a form in the node's own scheme. If the label to the next node is, to the next
node, in no lower form than the label back is to the node before, then its own form is
high enough. Otherwise no form that is too low is matched once it is rewritten. -/
def LeavesRoom (prev node next : Node) : Prop :=
  ∃ back forward backNum carried num form formNum,
    labelTo node prev = some back ∧ labelTo node next = some forward ∧
    formNumber back node.encodingScheme = .ok backNum ∧
    formNumber back prev.encodingScheme = .ok carried ∧
    formNumber forward next.encodingScheme = .ok num ∧
    getEncodingForm forward node.encodingScheme = .ok (form, formNum) ∧
    if num < carried then
      ∀ target, node.encodingScheme.forms[carried]? = some target →
        NoneBefore node.encodingScheme backNum (rewritten forward form target)
    else backNum ≤ formNum

/-- Three nodes in a row on a route. -/
def InRow (nodes : Nodes) (revPath : List Ip6) (index : Nat) (prev node next : Node) : Prop :=
  revPath[index]?.bind nodes.lookup = some prev ∧
    revPath[index + 1]?.bind nodes.lookup = some node ∧
    revPath[index + 2]?.bind nodes.lookup = some next

/-- What a hop of the newer way says about the labels of its two nodes. -/
theorem newHop_ok {last node : Node} {formNum carried : Nat} {hop : Hop}
    (made : newHop last node formNum = .ok (hop, carried)) :
    ∃ labelYg labelGy numYg, labelTo last node = some labelYg ∧ labelTo node last = some labelGy ∧
      formNumber labelYg node.encodingScheme = .ok numYg ∧
      formNumber labelGy last.encodingScheme = .ok carried ∧
      if numYg < formNum then
        reEncode labelYg last.encodingScheme (some formNum) = .ok hop.label
      else labelYg = hop.label := by
  rw [newHop] at made
  split at made
  · cases made
  next greta gretaFound =>
    split at made
    · cases made
    next yury yuryFound =>
      simp only [Outcome.bind_ok_iff, labelOf_ok_iff, raiseForm_ok_iff] at made
      obtain ⟨_, -, labelYg, ygBuilt, labelGy, gyBuilt, numYg, ygFound, numGy, gyFound, label,
        raised, returned⟩ := made
      cases returned
      refine ⟨labelYg, labelGy, numYg, ?_, ?_, ygFound, gyFound, raised⟩
      · rw [labelTo, yuryFound]
        exact ygBuilt
      · rw [labelTo, gretaFound]
        exact gyBuilt

/-- A re-encoded label is recognized from a form on exactly when no form before is
matched by the rewritten one. -/
theorem recognizedFrom_reEncode_iff {label result : RoutingLabel 64} {scheme : EncodingScheme}
    {num : Nat} (encoded : reEncode label scheme (some num) = .ok result) (start : Nat) :
    RecognizedFrom result scheme start ↔
      ∃ form formNum, getEncodingForm label scheme = .ok (form, formNum) ∧
        ∀ target, scheme.forms[num]? = some target →
          NoneBefore scheme start (rewritten label form target) := by
  obtain ⟨form, formNum, target, recognized, placed, sameForms⟩ :=
    reEncode_matches_iff (by decide) encoded
  have matchesTarget : Matches result.bits target :=
    (sameForms num target placed).mpr (FormRecognition.encodeDirector_matches _ _ _)
  have sameBefore : NoneBefore scheme start result.bits ↔
      NoneBefore scheme start (rewritten label form target) :=
    forall₂_congr fun earlier _ => forall₂_congr fun other placedOther =>
      not_congr (sameForms earlier other placedOther)
  rw [recognizedFrom_iff, sameBefore]
  constructor
  · rintro ⟨-, unmatched⟩
    refine ⟨form, formNum, recognized, fun other placedOther => ?_⟩
    cases placed.symm.trans placedOther
    exact unmatched
  · rintro ⟨other, otherNum, recognizedOther, unmatched⟩
    cases recognized.symm.trans recognizedOther
    exact ⟨⟨num, target, placed, matchesTarget⟩, unmatched target placed⟩

/-- Of two hops made one after the other, the second one has room for the way back
exactly when the forms seen from the neighbours leave it.

Proof: both sides speak of the forms of the same labels, which the two hops have recognized, so
they are the same comparison of bits. -/
theorem reverseFits_iff {prev node next : Node} {formNum carried later : Nat} {before hop : Hop}
    (arrived : newHop prev node formNum = .ok (before, carried))
    (left : newHop node next carried = .ok (hop, later)) :
    ReverseFits prev node hop ↔ LeavesRoom prev node next := by
  obtain ⟨-, back, -, -, toPrev, -, seenByPrev, -⟩ := newHop_ok arrived
  obtain ⟨forward, -, num, toNext, -, seenByNext, -, raised⟩ := newHop_ok left
  have fits_iff : ReverseFits prev node hop ↔ ∃ backNum,
      formNumber back node.encodingScheme = .ok backNum ∧
        RecognizedFrom hop.label node.encodingScheme backNum := by
    simp only [ReverseFits, toPrev, Option.some.injEq]
    constructor
    · rintro ⟨_, backNum, rfl, fits⟩
      exact ⟨backNum, fits⟩
    · rintro ⟨backNum, fits⟩
      exact ⟨back, backNum, rfl, fits⟩
  have room_iff : LeavesRoom prev node next ↔ ∃ backNum,
      formNumber back node.encodingScheme = .ok backNum ∧
        ∃ form ownNum, getEncodingForm forward node.encodingScheme = .ok (form, ownNum) ∧
          if num < carried then
            ∀ target, node.encodingScheme.forms[carried]? = some target →
              NoneBefore node.encodingScheme backNum (rewritten forward form target)
          else backNum ≤ ownNum := by
    constructor
    · rintro ⟨_, _, backNum, _, _, form, ownNum, toPrev', toNext', backFound, seenByPrev',
        seenByNext', recognized, room⟩
      cases toPrev.symm.trans toPrev'
      cases toNext.symm.trans toNext'
      cases seenByPrev.symm.trans seenByPrev'
      cases seenByNext.symm.trans seenByNext'
      exact ⟨backNum, backFound, form, ownNum, recognized, room⟩
    · rintro ⟨backNum, backFound, form, ownNum, recognized, room⟩
      exact ⟨back, forward, backNum, carried, num, form, ownNum, toPrev, toNext, backFound,
        seenByPrev, seenByNext, recognized, room⟩
  rw [fits_iff, room_iff]
  refine exists_congr fun backNum => and_congr_right fun _ => ?_
  split at raised
  · next lower =>
    simp only [if_pos lower]
    exact recognizedFrom_reEncode_iff raised backNum
  · next higher =>
    simp only [if_neg higher]
    rw [← raised]
    rfl

/-- The hops along three nodes in a row are made one after the other. -/
theorem hopsAlong_inRow {hopOf : Node → Node → Nat → Outcome RoutingError (Hop × Nat)}
    {formNum : Nat} {last : Node} {path : List Node} {hops : List Hop}
    (made : hopsAlong hopOf formNum last path = .ok hops) {index : Nat} {prev node next : Node}
    (prevAt : (last :: path)[index]? = some prev) (nodeAt : path[index]? = some node)
    (nextAt : path[index + 1]? = some next) :
    ∃ earlier carried later before hop, hops[index + 1]? = some hop ∧
      hopOf prev node earlier = .ok (before, carried) ∧
      hopOf node next carried = .ok (hop, later) := by
  induction index generalizing formNum last path hops with
  | zero =>
    obtain _ | ⟨head, _ | ⟨second, path⟩⟩ := path
    · cases nodeAt
    · cases nextAt
    · cases prevAt
      cases nodeAt
      cases nextAt
      simp only [hopsAlong, Outcome.bind_ok_iff, Outcome.pure_def, Outcome.ok.injEq] at made
      obtain ⟨⟨before, carried⟩, first, _, ⟨⟨hop, later⟩, second, others, -, rfl⟩, rfl⟩ := made
      exact ⟨formNum, carried, later, before, hop, rfl, first, second⟩
  | succ index inductionHypothesis =>
    cases path with
    | nil => cases nodeAt
    | cons head path =>
      simp only [hopsAlong, Outcome.bind_ok_iff, Outcome.pure_def, Outcome.ok.injEq] at made
      obtain ⟨⟨before, carried⟩, -, others, rest, rfl⟩ := made
      exact inductionHypothesis rest prevAt nodeAt nextAt

/-- **The hops of the newer way leave room for the way back exactly when the forms seen
from the neighbours do, at every node between the ends of the route.**

Proof: the loop over the route is read at one place of it: the hop that is made there is written
in the higher of the two forms, and that is all that the way back depends on. -/
theorem newer_labels_fit_iff (nodes : Nodes) (revPath : List Ip6) (label : RoutingLabel 64)
    (hops : List Hop) (computed : computeRoutingLabel nodes revPath false = .ok (label, hops)) :
    (∀ index prev node next hop, InRow nodes revPath index prev node next →
        hops[index + 1]? = some hop → ReverseFits prev node hop) ↔
      ∀ index prev node next, InRow nodes revPath index prev node next →
        LeavesRoom prev node next := by
  obtain ⟨made, looped, afterLoop⟩ := (Outcome.bind_ok_iff _ _ _).mp computed
  obtain ⟨_, -, returned⟩ := (Outcome.bind_ok_iff _ _ _).mp afterLoop
  cases returned
  rw [if_neg Bool.false_ne_true] at looped
  have inRow : ∀ index prev node next, InRow nodes revPath index prev node next →
      ∃ hop, hops[index + 1]? = some hop ∧
        (ReverseFits prev node hop ↔ LeavesRoom prev node next) := by
    intro index prev node next ⟨prevAt, nodeAt, nextAt⟩
    obtain ⟨path, visits⟩ := visits_of_routeLoop looped
    rw [visits.getElem?_bind] at prevAt nodeAt nextAt
    cases path with
    | nil => cases prevAt
    | cons first path =>
      rw [routeLoop_none visits] at looped
      obtain ⟨_, carried, later, _, hop, hopAt, arrived, left⟩ :=
        hopsAlong_inRow looped prevAt nodeAt nextAt
      exact ⟨hop, hopAt, reverseFits_iff arrived left⟩
  constructor
  · intro fits index prev node next row
    obtain ⟨hop, hopAt, iff⟩ := inRow index prev node next row
    exact iff.mp (fits index prev node next hop row hopAt)
  · intro room index prev node next hop row hopAt
    obtain ⟨other, otherAt, iff⟩ := inRow index prev node next row
    cases hopAt.symm.trans otherAt
    exact iff.mpr (room index prev node next row)

/-- A node of three forms. Its label back is in the last form, its label to the next node
in the first. -/
def narrowNode : Node :=
  Sample.node 2 v358 [(1, Sample.link ⟨0x19, by decide, by decide⟩ 0 0x404),
    (3, Sample.link ⟨0x19, by decide, by decide⟩ 0 0x15)]

/-- A neighbour of this node, of one form only. -/
def neighbour (last : UInt8) : Node :=
  Sample.node last Sample.f4 [(2, Sample.link ⟨0x19, by decide, by decide⟩ 0 0x15)]

def narrowTable : Nodes := Sample.table [neighbour 1, narrowNode, neighbour 3]

def narrowRoute : List Ip6 := [Sample.ip 1, Sample.ip 2, Sample.ip 3]

/-- The label to the next node is kept as it is. -/
theorem narrow_route_computed :
    ∃ label hops, computeRoutingLabel narrowTable narrowRoute false = .ok (label, hops) ∧
      (hops[1]?.map fun hop => hop.label.bits) = some 0x15 := by
  obtain ⟨⟨label, hops⟩, computed, kept⟩ := Outcome.exists_ok_of_any
    (computeRoutingLabel narrowTable narrowRoute false)
    (fun result => (result.2[1]?.map fun hop => hop.label.bits) == some 0x15) (by decide)
  exact ⟨label, hops, computed, eq_of_beq kept⟩

/-- On the sample route all labels back fit exactly where room is left for them. -/
theorem narrow_route_fit_iff :
    ∃ label hops, computeRoutingLabel narrowTable narrowRoute false = .ok (label, hops) ∧
      ((∀ index prev node next hop, InRow narrowTable narrowRoute index prev node next →
          hops[index + 1]? = some hop → ReverseFits prev node hop) ↔
        ∀ index prev node next, InRow narrowTable narrowRoute index prev node next →
          LeavesRoom prev node next) := by
  obtain ⟨label, hops, computed, -⟩ := narrow_route_computed
  exact ⟨label, hops, computed, newer_labels_fit_iff _ _ _ _ computed⟩

/-- It leaves no room for the label back, which is two forms higher. -/
theorem narrow_route_does_not_fit :
    ∃ label hops, computeRoutingLabel narrowTable narrowRoute false = .ok (label, hops) ∧
      InRow narrowTable narrowRoute 0 (neighbour 1) narrowNode (neighbour 3) ∧
      ∃ hop, hops[1]? = some hop ∧ ¬ReverseFits (neighbour 1) narrowNode hop := by
  obtain ⟨label, hops, computed, kept⟩ := narrow_route_computed
  obtain ⟨hop, hopAt, bits⟩ := Option.map_eq_some_iff.mp kept
  refine ⟨label, hops, computed, ⟨rfl, rfl, rfl⟩, hop, hopAt, ?_⟩
  rintro ⟨back, backNum, toPrev, backFound, form, formNum, recognized, high⟩
  have isBack : labelTo narrowNode (neighbour 1) = some ⟨0x404, by decide, by decide⟩ := by decide
  cases isBack.symm.trans toPrev
  have lastForm : formNumber ⟨0x404, by decide, by decide⟩ v358 = .ok 2 := by decide
  cases lastForm.symm.trans backFound
  have isKept : hop.label = ⟨0x15, by decide, by decide⟩ := RoutingLabel.ext bits
  rw [isKept] at recognized
  have firstForm : formNumber ⟨0x15, by decide, by decide⟩ v358 = .ok 0 := by decide
  cases firstForm.symm.trans ((formNumber_ok_iff _ _ _).mpr ⟨form, recognized⟩)
  omega

end RouteServer.Snode
