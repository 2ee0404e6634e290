import RouteServer.Core.FormRecognition
import RouteServer.Snode.Route

/-!
# The older labels and those of paths

The older way to compute the label of a route and the label of a path of hops should be
the same when both are given what the nodes have announced: the label to each next node,
and the form of the label back. One compares the numbers of forms and the other their
widths, so they agree where forms get wider with their numbers. The older way also looks
up the first label, which has no label back to be compared with.
-/

namespace RouteServer.Snode

open Rust Keys Encoding Labels Splice

/-- `as u64` on the bits of a label. -/
def widen (label : RoutingLabel 32) : RoutingLabel 64 where
  bits := label.bits
  nonzero := label.nonzero
  bounded := label.bounded.trans (by decide)

/-- A hop has the label announced for the link to the next node. -/
def LeadsBy (link : Link) (hop : PathHop 64) : Prop := hop.labelN = some (widen link.label)

/-- A hop has a label back whose form is the one announced for the link that leads to it. -/
def LedToBy (link : Link) (hop : PathHop 64) : Prop :=
  ∃ labelP form, hop.labelP = some labelP ∧
    getEncodingForm labelP hop.encodingScheme = .ok (form, link.encodingFormNumber.toNat)

/-- The hops from a node on, between and last, after a link that leads to it. -/
inductive AnnouncedFrom : Link → Node → List Node → List (PathHop 64) → PathHop 64 → Prop
  | last {link : Link} {node : Node} {lastHop : PathHop 64}
      (scheme : lastHop.encodingScheme = node.encodingScheme) (back : LedToBy link lastHop)
      (noNext : lastHop.labelN = none) : AnnouncedFrom link node [] [] lastHop
  | mid {link nextLink : Link} {node next : Node} {path : List Node} {hop lastHop : PathHop 64}
      {midHops : List (PathHop 64)} (scheme : hop.encodingScheme = node.encodingScheme)
      (back : LedToBy link hop) (found : firstLink next node.ipv6 = some nextLink)
      (forward : LeadsBy nextLink hop) (rest : AnnouncedFrom nextLink next path midHops lastHop) :
      AnnouncedFrom link node (next :: path) (hop :: midHops) lastHop

/-- The hops of a route of two nodes or more, as announced. -/
inductive Announced : List Node → List (PathHop 64) → Prop
  | route {link : Link} {first next : Node} {path : List Node} {firstHop lastHop : PathHop 64}
      {midHops : List (PathHop 64)} (scheme : firstHop.encodingScheme = first.encodingScheme)
      (noPrev : firstHop.labelP = none) (found : firstLink next first.ipv6 = some link)
      (forward : LeadsBy link firstHop) (rest : AnnouncedFrom link next path midHops lastHop) :
      Announced (first :: next :: path) (firstHop :: (midHops ++ [lastHop]))

/-- The widths of the forms of a scheme, by their numbers. -/
def formWidths (scheme : EncodingScheme) : List Nat :=
  scheme.forms.map EncodingSchemeForm.sizeBits

/-- Forms take more bits the higher their numbers are. -/
def Widening (scheme : EncodingScheme) : Prop := (formWidths scheme).Pairwise (· < ·)

instance (scheme : EncodingScheme) : Decidable (Widening scheme) :=
  inferInstanceAs (Decidable (List.Pairwise _ _))

/-- The label to the second hop is recognized in the scheme of the first. -/
def FirstRecognized (pathHops : List (PathHop 64)) : Prop :=
  ∃ hop ∈ pathHops.head?, ∃ label ∈ hop.labelN, ∃ found,
    getEncodingForm label hop.encodingScheme = .ok found

/-- The label of a hop of the older way, after a label back of some form. -/
def OldLabel (scheme : EncodingScheme) (link : Link) (formNum : Nat) (label : RoutingLabel 64) :
    Prop :=
  ∃ form cur, getEncodingForm (widen link.label) scheme = .ok (form, cur) ∧
    if cur < formNum then reEncode (widen link.label) scheme (some formNum) = .ok label
    else widen link.label = label

/-- Where forms only get wider, a higher number means more bits. -/
theorem Widening.sizeBits_lt {scheme : EncodingScheme} (widening : Widening scheme)
    {lower higher : Nat} {first second : EncodingSchemeForm} (order : lower < higher)
    (firstPlaced : scheme.forms[lower]? = some first)
    (secondPlaced : scheme.forms[higher]? = some second) : first.sizeBits < second.sizeBits := by
  obtain ⟨inside, rfl⟩ := List.getElem?_eq_some_iff.mp firstPlaced
  obtain ⟨laterInside, rfl⟩ := List.getElem?_eq_some_iff.mp secondPlaced
  exact List.pairwise_iff_getElem.mp (List.pairwise_map.mp widening) lower higher inside
    laterInside order

/-- The label of a link can be made 64 bits wide. -/
theorem labelOf_label (link : Link) : labelOf 64 link.label.bits = .ok (widen link.label) := by
  have fits : link.label.bits < 2 ^ 64 := (widen link.label).bounded
  rw [labelOf_ok_iff, labelOfWord, RoutingLabel.tryNew]
  simp only [Nat.mod_eq_of_lt fits]
  exact dif_pos link.label.nonzero

/-- A hop of the older computation has the older label and carries its form on. -/
theorem oldHop_ok_iff {last node : Node} {link : Link}
    (found : firstLink node last.ipv6 = some link) (formNum carried : Nat)
    (label : RoutingLabel 64) :
    (∃ hop, oldHop last node formNum = .ok (hop, carried) ∧ hop.label = label) ↔
      OldLabel last.encodingScheme link formNum label ∧
        carried = link.encodingFormNumber.toNat := by
  rw [oldHop, found]
  simp only [labelOf_label, Outcome.ok_bind, Outcome.bind_ok_iff, formNumber_ok_iff,
    raiseForm_ok_iff, Outcome.pure_def, Outcome.ok.injEq, Prod.mk.injEq]
  constructor
  · rintro ⟨_, ⟨cur, ⟨form, recognized⟩, raised, raises, rfl, rfl⟩, rfl⟩
    exact ⟨⟨form, cur, recognized, raises⟩, rfl⟩
  · rintro ⟨⟨form, cur, recognized, raises⟩, rfl⟩
    exact ⟨_, ⟨cur, ⟨form, recognized⟩, label, raises, rfl, rfl⟩, rfl⟩

/-- The older labels along a route, one by one. -/
theorem hopsAlong_cons_iff {last node : Node} {path : List Node} {link : Link}
    (found : firstLink node last.ipv6 = some link) (formNum : Nat)
    (labels : List (RoutingLabel 64)) :
    (∃ hops, hopsAlong oldHop formNum last (node :: path) = .ok hops ∧
        hops.map Hop.label = labels) ↔
      ∃ label, OldLabel last.encodingScheme link formNum label ∧
        ∃ rest, (∃ hops, hopsAlong oldHop link.encodingFormNumber.toNat node path = .ok hops ∧
          hops.map Hop.label = rest) ∧ label :: rest = labels := by
  simp only [hopsAlong, Outcome.bind_ok_iff, Outcome.pure_def, Outcome.ok.injEq]
  constructor
  · rintro ⟨_, ⟨⟨hop, carried⟩, made, hops, others, rfl⟩, rfl⟩
    obtain ⟨used, rfl⟩ := (oldHop_ok_iff found formNum carried hop.label).mp ⟨hop, made, rfl⟩
    exact ⟨hop.label, used, hops.map Hop.label, ⟨hops, others, rfl⟩, rfl⟩
  · rintro ⟨label, used, _, ⟨hops, others, rfl⟩, rfl⟩
    obtain ⟨hop, made, rfl⟩ := (oldHop_ok_iff found formNum _ label).mpr ⟨used, rfl⟩
    exact ⟨hop :: hops, ⟨(hop, _), made, hops, others, rfl⟩, rfl⟩

/-- With forms that get wider the older label of a hop is that of a path.

Proof: in such a scheme the wider of two forms is the later one, so both rules choose the same
form for the label. -/
theorem oldLabel_iff_midLabel {link nextLink : Link} {hop : PathHop 64}
    (widening : Widening hop.encodingScheme) (back : LedToBy link hop)
    (forward : LeadsBy nextLink hop) (label : RoutingLabel 64) :
    OldLabel hop.encodingScheme nextLink link.encodingFormNumber.toNat label ↔
      midLabel hop = .ok label := by
  obtain ⟨labelP, formP, hasPrev, recognizedP⟩ := back
  obtain ⟨placedP, -, -⟩ := (getEncodingForm_ok_iff _ _ _ _).mp recognizedP
  have wider_iff {form : EncodingSchemeForm} {cur : Nat}
      (placed : hop.encodingScheme.forms[cur]? = some form) :
      formP.bitCount + formP.prefixLen > form.bitCount + form.prefixLen ↔
        cur < link.encodingFormNumber.toNat := by
    rcases Nat.lt_trichotomy cur link.encodingFormNumber.toNat with lower | same | higher
    · exact iff_of_true (widening.sizeBits_lt lower placed placedP) lower
    · subst same
      cases placed.symm.trans placedP
      exact iff_of_false (lt_irrefl _) (lt_irrefl _)
    · exact iff_of_false (widening.sizeBits_lt higher placedP placed).asymm higher.asymm
  rw [midLabel, hasPrev, forward]
  simp only [recognizedP, Outcome.ok_bind, Outcome.bind_ok_iff, OldLabel]
  constructor
  · rintro ⟨form, cur, recognized, raises⟩
    obtain ⟨placed, -, -⟩ := (getEncodingForm_ok_iff _ _ _ _).mp recognized
    refine ⟨(form, cur), recognized, ?_⟩
    simp only [wider_iff placed]
    split at raises
    · next lower => rwa [if_pos lower]
    · next notLower => rw [if_neg notLower, raises]
  · rintro ⟨⟨form, cur⟩, recognized, chosen⟩
    obtain ⟨placed, -, -⟩ := (getEncodingForm_ok_iff _ _ _ _).mp recognized
    refine ⟨form, cur, recognized, ?_⟩
    simp only [wider_iff placed] at chosen
    split at chosen
    · next lower => rwa [if_pos lower]
    · next notLower =>
      rw [if_neg notLower]
      exact Outcome.ok.inj chosen

/-- The older labels from a node on are those of the hops between. -/
theorem hopsAlong_iff_midLabels {link : Link} {node : Node} {path : List Node}
    {midHops : List (PathHop 64)} {lastHop : PathHop 64}
    (announced : AnnouncedFrom link node path midHops lastHop)
    (widening : ∀ other ∈ node :: path, Widening other.encodingScheme)
    (labels : List (RoutingLabel 64)) :
    (∃ hops, hopsAlong oldHop link.encodingFormNumber.toNat node path = .ok hops ∧
        hops.map Hop.label = labels) ↔ midLabels midHops = .ok labels := by
  induction announced generalizing labels with
  | last scheme back noNext =>
    simp only [hopsAlong, midLabels, Outcome.ok.injEq, exists_eq_left', List.map_nil]
  | mid scheme back found forward rest inductionHypothesis =>
    have widens := widening _ List.mem_cons_self
    rw [← scheme] at widens
    have later := inductionHypothesis fun other member =>
      widening other (List.mem_cons_of_mem _ member)
    simp only [midLabels, Outcome.bind_ok_iff, Outcome.pure_def, Outcome.ok.injEq, ← later,
      ← oldLabel_iff_midLabel widens back forward]
    rw [hopsAlong_cons_iff found, scheme]

/-- The last hop of an announced path has a label back and none onwards. -/
theorem AnnouncedFrom.ends {link : Link} {node : Node} {path : List Node}
    {midHops : List (PathHop 64)} {lastHop : PathHop 64}
    (announced : AnnouncedFrom link node path midHops lastHop) :
    lastHop.labelP.isSome ∧ lastHop.labelN = none := by
  induction announced with
  | last scheme back noNext =>
    obtain ⟨labelP, form, hasPrev, -⟩ := back
    exact ⟨by rw [hasPrev]; rfl, noNext⟩
  | mid scheme back found forward rest inductionHypothesis => exact inductionHypothesis

/-- The first label is looked up but never re-encoded. -/
theorem oldLabel_zero_iff (scheme : EncodingScheme) (link : Link) (label : RoutingLabel 64) :
    OldLabel scheme link 0 label ↔
      (∃ found, getEncodingForm (widen link.label) scheme = .ok found) ∧
        widen link.label = label := by
  simp only [OldLabel, Nat.not_lt_zero, if_false]
  constructor
  · rintro ⟨form, cur, recognized, same⟩
    exact ⟨⟨_, recognized⟩, same⟩
  · rintro ⟨⟨⟨form, cur⟩, recognized⟩, same⟩
    exact ⟨form, cur, recognized, same⟩

/-- The label of a route is the splice of the labels of its hops, behind a
self-reference. -/
theorem computeRoutingLabel_iff (nodes : Nodes) (revPath : List Ip6) (label : RoutingLabel 64)
    (labels : List (RoutingLabel 64)) :
    (∃ hops, computeRoutingLabel nodes revPath true = .ok (label, hops) ∧
        hops.map Hop.label = labels) ↔
      (∃ hops, routeLoop oldHop nodes none 0 revPath = .ok hops ∧ hops.map Hop.label = labels) ∧
        splice (selfReference :: labels.reverse) = .ok label := by
  have reversed (hops : List Hop) : (hops.map Hop.label ++ [selfReference]).reverse =
      selfReference :: (hops.map Hop.label).reverse := List.reverse_concat
  simp only [computeRoutingLabel, if_true, Outcome.bind_ok_iff, Outcome.mapErr_ok_iff,
    Outcome.pure_def, Outcome.ok.injEq, Prod.mk.injEq, reversed]
  constructor
  · rintro ⟨_, ⟨hops, looped, _, spliced, rfl, rfl⟩, rfl⟩
    exact ⟨⟨hops, looped, rfl⟩, spliced⟩
  · rintro ⟨⟨hops, looped, rfl⟩, spliced⟩
    exact ⟨hops, ⟨hops, looped, label, spliced, rfl, rfl⟩, rfl⟩

/-- **With forms that get wider, the older way and the label of the path agree**, both on
whether there is a label and on all labels, as long as the first label is recognized. If
it is not, the older way alone fails.

Proof: the cases follow the announced path: the older way carries the number of the form back from
hop to hop, and with forms that get wider the higher number is the wider form. What is spliced in
the end is the same but for a reference to oneself. -/
theorem older_labels_agree (nodes : Nodes) (revPath : List Ip6) (path : List Node)
    (pathHops : List (PathHop 64)) (visits : Visits nodes revPath path)
    (announced : Announced path pathHops)
    (widening : ∀ node ∈ path, Widening node.encodingScheme) (label : RoutingLabel 64)
    (labels : List (RoutingLabel 64)) :
    (∃ hops, computeRoutingLabel nodes revPath true = .ok (label, hops) ∧
        hops.map Hop.label = labels) ↔
      buildLabel pathHops = .ok (label, labels) ∧ FirstRecognized pathHops := by
  cases announced with
  | @route link first next path firstHop lastHop midHops scheme noPrev found forward rest =>
    obtain ⟨hasPrev, noNext⟩ := rest.ends
    have later := hopsAlong_iff_midLabels rest fun other member =>
      widening other (List.mem_cons_of_mem first member)
    have recognized_iff : FirstRecognized (firstHop :: (midHops ++ [lastHop])) ↔
        ∃ found, getEncodingForm (widen link.label) first.encodingScheme = .ok found := by
      simp only [FirstRecognized, List.head?_cons, Option.mem_def, Option.some.injEq,
        exists_eq_left', scheme]
      rw [forward]
      simp
    have splices (others : List (RoutingLabel 64)) :
        splice (selfReference :: (widen link.label :: others).reverse) =
          spliceGroup (widen link.label :: others).reverse := by
      refine splice_selfReference_cons (by simp) fun single only => ?_
      have isFirst : [widen link.label] = [single] := by
        have whole := List.reverse_eq_iff.mp only
        rw [List.reverse_singleton] at whole
        rw [← whole, (List.cons.inj whole).2]
      cases isFirst
      have bound : link.label.bits.log2 < 32 :=
        (Nat.log2_lt link.label.nonzero).mpr link.label.bounded
      rw [labelHighestSetBit_eq]
      exact Nat.le_of_lt (bound.trans (by decide))
    rw [computeRoutingLabel_iff, routeLoop_none visits, hopsAlong_cons_iff found,
      buildLabel_of_ends forward hasPrev noPrev noNext, recognized_iff]
    simp only [oldLabel_zero_iff, later, Outcome.bind_ok_iff, Outcome.pure_def,
      Outcome.ok.injEq, Prod.mk.injEq]
    constructor
    · rintro ⟨⟨_, ⟨recognized, rfl⟩, others, used, rfl⟩, spliced⟩
      rw [splices] at spliced
      exact ⟨⟨others, used, label, spliced, rfl, rfl⟩, recognized⟩
    · rintro ⟨⟨others, used, _, spliced, rfl, rfl⟩, recognized⟩
      rw [← splices] at spliced
      exact ⟨⟨_, ⟨recognized, rfl⟩, others, used, rfl⟩, spliced⟩

/-- A route of three nodes, the first two of the schemes given. The labels to the second
and to the third node are given, with the form of the label back from the second. -/
def routeVia (first second : EncodingScheme) (toSecond toThird : RoutingLabel 32)
    (back : UInt8) : List Node :=
  [Sample.node 1 first [],
    Sample.node 2 second [(1, Sample.link toSecond back 1)],
    Sample.node 3 Sample.f4 [(2, Sample.link toThird 0 1)]]

def routeIps : List Ip6 := [Sample.ip 1, Sample.ip 2, Sample.ip 3]

/-- The hops of this route, with a label back from the second node. -/
def hopsVia (first second : EncodingScheme) (toSecond toThird : RoutingLabel 32)
    (back : RoutingLabel 64) : List (PathHop 64) :=
  [⟨none, some (widen toSecond), first⟩, ⟨some back, some (widen toThird), second⟩,
    ⟨some labelBack, none, Sample.f4⟩]

section RouteVia

variable (first second : EncodingScheme) (toSecond toThird : RoutingLabel 32)

/-- The sample table has all nodes of the route. -/
theorem visits_routeVia (back : UInt8) :
    Visits (Sample.table (routeVia first second toSecond toThird back)) routeIps
      (routeVia first second toSecond toThird back) :=
  .cons rfl (.cons rfl (.cons rfl .nil))

/-- The hops of the sample route are those that its links announce. -/
theorem announced_hopsVia {back : RoutingLabel 64} {form : EncodingSchemeForm} {formNum : UInt8}
    (recognized : getEncodingForm back second = .ok (form, formNum.toNat)) :
    Announced (routeVia first second toSecond toThird formNum)
      (hopsVia first second toSecond toThird back) := by
  have last : LedToBy (Sample.link toThird 0 1)
      ⟨some labelBack, none, Sample.f4⟩ := ⟨_, _, rfl, rfl⟩
  have between : AnnouncedFrom (Sample.link toSecond formNum 1)
      (Sample.node 2 second [(1, Sample.link toSecond formNum 1)])
      [Sample.node 3 Sample.f4 [(2, Sample.link toThird 0 1)]]
      [⟨some back, some (widen toThird), second⟩]
      ⟨some labelBack, none, Sample.f4⟩ :=
    .mid rfl ⟨back, form, rfl, recognized⟩ rfl rfl (.last rfl last rfl)
  have forward : LeadsBy (Sample.link toSecond formNum 1)
      ⟨none, some (widen toSecond), first⟩ := rfl
  exact .route rfl rfl rfl forward between

/-- What holds of the schemes of the sample route, checked node by node. -/
theorem schemes_routeVia (holds : EncodingScheme → Prop) (back : UInt8)
    (firstHolds : holds first) (secondHolds : holds second) (lastHolds : holds Sample.f4) :
    ∀ node ∈ routeVia first second toSecond toThird back, holds node.encodingScheme := by
  intro node member
  simp only [routeVia, List.mem_cons, List.not_mem_nil, or_false] at member
  rcases member with rfl | rfl | rfl
  · exact firstHolds
  · exact secondHolds
  · exact lastHolds

end RouteVia

/-- Through a node of three forms, the label to the third node is re-encoded in the same
way. -/
theorem route_via_v358_agrees :
    ∃ hops, computeRoutingLabel
          (Sample.table (routeVia Sample.f4 v358 ⟨0x15, by decide, by decide⟩
            ⟨0x1b, by decide, by decide⟩ 1)) routeIps true =
        .ok (⟨0x925, by decide, by decide⟩, hops) ∧
      hops.map Hop.label = [⟨0x15, by decide, by decide⟩, ⟨0x92, by decide, by decide⟩] := by
  have back : getEncodingForm (⟨0xee, by decide, by decide⟩ : RoutingLabel 64) v358 =
      .ok (⟨5, 2, 2, by decide, by decide, by decide, by decide⟩, (1 : UInt8).toNat) := by decide
  have widening := schemes_routeVia Sample.f4 v358 ⟨0x15, by decide, by decide⟩
    ⟨0x1b, by decide, by decide⟩ Widening 1 (by decide) (by decide) (by decide)
  refine (older_labels_agree _ _ _ _ (visits_routeVia _ _ _ _ _)
    (announced_hopsVia _ _ _ _ back) widening _ _).mpr ⟨by decide, ?_⟩
  exact ⟨_, rfl, _, rfl, _, rfl⟩

/-- Two forms of five bits each. -/
def evenForms : EncodingScheme :=
  ⟨formsOf [(3, 2, 2), (4, 1, 1)], by decide⟩

/-- A form of five bits and one of ten. Labels that end with `10` have neither. -/
def sparseForms : EncodingScheme :=
  ⟨formsOf [(4, 1, 1), (8, 2, 0)], by decide⟩

/-- A scheme whose forms can be told apart and do not get narrower. -/
def Orderly (scheme : EncodingScheme) : Prop :=
  FormRecognition.PrefixFree scheme ∧ (formWidths scheme).Pairwise (· ≤ ·)

/-- Where two forms are equally wide, only the older way re-encodes a label. Where the
first label is not recognized, only the older way fails.

Proof: two tables whose routes are evaluated both ways. -/
theorem older_labels_differ :
    (∃ path pathHops label hops other labels, Visits (Sample.table path) routeIps path ∧
        Announced path pathHops ∧ (∀ node ∈ path, Orderly node.encodingScheme) ∧
        computeRoutingLabel (Sample.table path) routeIps true = .ok (label, hops) ∧
        buildLabel pathHops = .ok (other, labels) ∧ label ≠ other ∧
        hops.map Hop.label ≠ labels) ∧
      ∃ path pathHops label labels, Visits (Sample.table path) routeIps path ∧
        Announced path pathHops ∧ (∀ node ∈ path, Orderly node.encodingScheme) ∧
        (∀ result, computeRoutingLabel (Sample.table path) routeIps true ≠ .ok result) ∧
        buildLabel pathHops = .ok (label, labels) := by
  have orderly {scheme : EncodingScheme}
      (separate : scheme.forms.Pairwise fun first second => ¬FormRecognition.Overlap first second)
      (widths : (formWidths scheme).Pairwise (· ≤ ·)) : Orderly scheme :=
    ⟨FormRecognition.prefixFree_of_pairwise separate, widths⟩
  have single : Orderly Sample.f4 := orderly (by decide) (by decide)
  constructor
  · have back : getEncodingForm (⟨0x13, by decide, by decide⟩ : RoutingLabel 64) evenForms =
        .ok (⟨4, 1, 1, by decide, by decide, by decide, by decide⟩, (1 : UInt8).toNat) := by decide
    refine ⟨routeVia Sample.f4 evenForms ⟨0x15, by decide, by decide⟩
      ⟨0x26, by decide, by decide⟩ 1, _, ⟨0x235, by decide, by decide⟩, _,
      ⟨0x265, by decide, by decide⟩, _, visits_routeVia _ _ _ _ _, announced_hopsVia _ _ _ _ back,
      schemes_routeVia _ _ _ _ Orderly 1 single (orderly (by decide) (by decide)) single, rfl, rfl,
      by decide, by decide⟩
  · have back : getEncodingForm (⟨0x13, by decide, by decide⟩ : RoutingLabel 64) Sample.f4 =
        .ok (⟨4, 0, 0, by decide, by decide, by decide, by decide⟩, (0 : UInt8).toNat) := by decide
    have fails : computeRoutingLabel (Sample.table (routeVia sparseForms Sample.f4
          ⟨0x12, by decide, by decide⟩ ⟨0x13, by decide, by decide⟩ 0)) routeIps true =
        .err (.getEncodingFormFailed "Can't detect form") := by decide
    refine ⟨routeVia sparseForms Sample.f4 ⟨0x12, by decide, by decide⟩
      ⟨0x13, by decide, by decide⟩ 0, _, ⟨0x132, by decide, by decide⟩, _,
      visits_routeVia _ _ _ _ _, announced_hopsVia _ _ _ _ back,
      schemes_routeVia _ _ _ _ Orderly 0 (orderly (by decide) (by decide)) single single, ?_, rfl⟩
    rw [fails]
    exact fun result impossible => by cases impossible

end RouteServer.Snode
