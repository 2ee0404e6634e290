import RouteServer.Core.BuildLabel
import RouteServer.Snode.Server

/-!
# Labels of routes

The label of a route is computed from the links between the nodes on it. For each node
but the last there is a label to the next one, which must not be in a lower form than
the label back to the node before, and is re-encoded otherwise. The number of the form
is carried from one hop to the next. The older way takes labels and forms from the
links; the newer one takes peer numbers for labels and finds out their forms.

The nodes of a route come in its order. The labels in the source's list are those of the
hops. Locks are left out.
-/

namespace RouteServer.Snode

open Rust Keys Encoding Labels Splice

/-- `Hop`. -/
structure Hop where
  label : RoutingLabel 64
  origLabel : RoutingLabel 32
  scheme : EncodingScheme
  inverseFormNum : Nat
deriving DecidableEq

/-- `RoutingError`, as far as labels are concerned. -/
inductive RoutingError where
  | routingLabelTryNewFailed (bits : UInt16)
  | getEncodingFormFailed (reason : String)
  | reEncodeFailed (reason : String)
  | noNodeByIp (ip : Ip6)
  | noInwardLinksByIp (node : String) (ip : Ip6)
  | splice (reason : String)
deriving DecidableEq

/-- The first link into a node from an address. -/
def firstLink (node : Node) (ip : Ip6) : Option Link :=
  (node.inwardLinksByIp.lookup ip).bind (fun links => links[0]?)

/-- A label of a word, or the failure that names its low bits. -/
def labelOf (width bits : Nat) : Outcome RoutingError (RoutingLabel width) :=
  match labelOfWord width bits with
  | some label => .ok label
  | none => .err (.routingLabelTryNewFailed (UInt16.ofNat bits))

/-- The number of the form of a label in a scheme. -/
def formNumber (label : RoutingLabel 64) (scheme : EncodingScheme) : Outcome RoutingError Nat := do
  let (_, formNum) ← Outcome.mapErr (fun err => .getEncodingFormFailed err.text)
    (getEncodingForm label scheme)
  return formNum

/-- A label that is re-encoded if its form is lower than the one to be reached. -/
def raiseForm (label : RoutingLabel 64) (scheme : EncodingScheme) (curFormNum formNum : Nat) :
    Outcome RoutingError (RoutingLabel 64) :=
  if curFormNum < formNum then
    Outcome.mapErr (fun err => .reEncodeFailed err.text) (reEncode label scheme (some formNum))
  else .ok label

/-- One hop of the older way, with the number carried on. -/
def oldHop (last node : Node) (formNum : Nat) : Outcome RoutingError (Hop × Nat) :=
  match firstLink node last.ipv6 with
  | none => .err (.noInwardLinksByIp "node" last.ipv6)
  | some link => do
    let label ← labelOf 64 link.label.bits
    let curFormNum ← formNumber label last.encodingScheme
    let label ← raiseForm label last.encodingScheme curFormNum formNum
    return (
      { label, origLabel := link.label, scheme := last.encodingScheme, inverseFormNum := formNum },
      link.encodingFormNumber.toNat)

/-- One hop of the newer way, from Yury to Greta: `last` is Yury and `node` is Greta. -/
def newHop (last node : Node) (formNum : Nat) : Outcome RoutingError (Hop × Nat) :=
  match firstLink node last.ipv6 with
  | none => .err (.noInwardLinksByIp "node" last.ipv6)
  | some gretaOpinionLink =>
    match firstLink last node.ipv6 with
    | none => .err (.noInwardLinksByIp "last" node.ipv6)
    | some yuryOpinionLink => do
      let labelYg32 ← labelOf 32 yuryOpinionLink.peerNum.toNat
      let labelYg ← labelOf 64 yuryOpinionLink.peerNum.toNat
      let labelGy ← labelOf 64 gretaOpinionLink.peerNum.toNat
      let curFormNumYg ← formNumber labelYg node.encodingScheme
      let curFormNumGy ← formNumber labelGy last.encodingScheme
      let label ← raiseForm labelYg last.encodingScheme curFormNumYg formNum
      return (
        { label, origLabel := labelYg32, scheme := last.encodingScheme, inverseFormNum := formNum },
        curFormNumGy)

/-- The loop of `compute_routing_label`, one way or the other. -/
def routeLoop (hopOf : Node → Node → Nat → Outcome RoutingError (Hop × Nat)) (nodes : Nodes)
    (last : Option Node) (formNum : Nat) : List Ip6 → Outcome RoutingError (List Hop)
  | [] => .ok []
  | nip :: revPath =>
    match nodes.lookup nip with
    | none => .err (.noNodeByIp nip)
    | some node =>
      match last with
      | none => routeLoop hopOf nodes (some node) formNum revPath
      | some last => do
        let (hop, formNum) ← hopOf last node formNum
        let hops ← routeLoop hopOf nodes (some node) formNum revPath
        return hop :: hops

/-- `compute_routing_label`. -/
def computeRoutingLabel (nodes : Nodes) (revPath : List Ip6) (useOldImpl : Bool) :
    Outcome RoutingError (RoutingLabel 64 × List Hop) := do
  let hops ← routeLoop (if useOldImpl then oldHop else newHop) nodes none 0 revPath
  let labels := (hops.map Hop.label ++ [selfReference]).reverse
  let spliced ← Outcome.mapErr
    (fun err => .splice (err.text ++ ", label.len: " ++ toString labels.length)) (splice labels)
  return (spliced, hops)

/-- `Route`. -/
structure Route where
  label : RoutingLabel 64
  hops : List Hop
  path : List Ip6
deriving DecidableEq

/-- `Route::identity`. -/
def Route.identity : Route := ⟨selfReference, [], []⟩

/-- The hops along a list of nodes. -/
def hopsAlong (hopOf : Node → Node → Nat → Outcome RoutingError (Hop × Nat)) :
    Nat → Node → List Node → Outcome RoutingError (List Hop)
  | _, _, [] => .ok []
  | formNum, last, node :: path => do
    let (hop, formNum) ← hopOf last node formNum
    let hops ← hopsAlong hopOf formNum node path
    return hop :: hops

/-- The nodes of a route. -/
def Visits (nodes : Nodes) : List Ip6 → List Node → Prop :=
  List.Forall₂ fun nip node => nodes.lookup nip = some node

variable {hopOf : Node → Node → Nat → Outcome RoutingError (Hop × Nat)} {nodes : Nodes}

/-- The nodes of a path are those of its addresses, place by place. -/
theorem Visits.getElem?_bind {revPath : List Ip6} {path : List Node}
    (visits : Visits nodes revPath path) (index : Nat) :
    revPath[index]?.bind nodes.lookup = path[index]? := by
  induction visits generalizing index with
  | nil => rfl
  | cons found rest inductionHypothesis =>
    cases index with
    | zero => exact found
    | succ index => exact inductionHypothesis index

/-- With all its nodes known, the loop goes along them. -/
theorem routeLoop_some {revPath : List Ip6} {path : List Node}
    (visits : Visits nodes revPath path) (last : Node) (formNum : Nat) :
    routeLoop hopOf nodes (some last) formNum revPath = hopsAlong hopOf formNum last path := by
  induction visits generalizing last formNum with
  | nil => rfl
  | cons found rest inductionHypothesis =>
    rw [routeLoop, found, hopsAlong]
    simp only [inductionHypothesis]

/-- The loop along a path of known nodes is the fold over its hops. -/
theorem routeLoop_none {revPath : List Ip6} {first : Node} {path : List Node}
    (visits : Visits nodes revPath (first :: path)) (formNum : Nat) :
    routeLoop hopOf nodes none formNum revPath = hopsAlong hopOf formNum first path := by
  cases visits with
  | cons found rest =>
    rw [routeLoop, found]
    exact routeLoop_some rest first formNum

/-- The loop fails if a node is not known. -/
theorem visits_of_routeLoop {revPath : List Ip6} {last : Option Node} {formNum : Nat}
    {hops : List Hop} (looped : routeLoop hopOf nodes last formNum revPath = .ok hops) :
    ∃ path, Visits nodes revPath path := by
  induction revPath generalizing last formNum hops with
  | nil => exact ⟨[], .nil⟩
  | cons nip revPath inductionHypothesis =>
    rw [routeLoop] at looped
    split at looped
    · cases looped
    · next node found =>
      have rest : ∃ last formNum hops,
          routeLoop hopOf nodes last formNum revPath = .ok hops := by
        split at looped
        · exact ⟨_, _, _, looped⟩
        · obtain ⟨⟨hop, next⟩, -, afterHop⟩ := (Outcome.bind_ok_iff _ _ _).mp looped
          obtain ⟨hops, rest, -⟩ := (Outcome.bind_ok_iff _ _ _).mp afterHop
          exact ⟨_, _, _, rest⟩
      obtain ⟨last, formNum, hops, rest⟩ := rest
      obtain ⟨path, visits⟩ := inductionHypothesis rest
      exact ⟨node :: path, .cons found visits⟩

/-- The number of a form is that of the one that is recognized. -/
theorem formNumber_ok_iff (label : RoutingLabel 64) (scheme : EncodingScheme) (formNum : Nat) :
    formNumber label scheme = .ok formNum ↔
      ∃ form, getEncodingForm label scheme = .ok (form, formNum) := by
  simp only [formNumber, Outcome.bind_ok_iff, Outcome.mapErr_ok_iff, Outcome.pure_def,
    Outcome.ok.injEq]
  constructor
  · rintro ⟨⟨form, found⟩, recognized, rfl⟩
    exact ⟨form, recognized⟩
  · rintro ⟨form, recognized⟩
    exact ⟨(form, formNum), recognized, rfl⟩

/-- A label is made of every word that has a bit set. -/
theorem labelOf_ok_iff (width bits : Nat) (label : RoutingLabel width) :
    labelOf width bits = .ok label ↔ labelOfWord width bits = some label := by
  rw [labelOf]
  cases labelOfWord width bits <;> simp

/-- A label is written in another form only if that has the higher number. -/
theorem raiseForm_ok_iff (label result : RoutingLabel 64) (scheme : EncodingScheme)
    (curFormNum formNum : Nat) :
    raiseForm label scheme curFormNum formNum = .ok result ↔
      if curFormNum < formNum then reEncode label scheme (some formNum) = .ok result
      else label = result := by
  rw [raiseForm]
  split
  · exact Outcome.mapErr_ok_iff _ _ _
  · simp

/-! ## Sample nodes -/

namespace Sample

/-- The address that ends with a byte. -/
def ip (last : UInt8) : Ip6 where
  bytes := 0xfc :: List.replicate 14 0 ++ [last]
  valid := by simp [isIp6]

/-- A link of a label, a form and a number. -/
def link (label : RoutingLabel 32) (encodingFormNumber : UInt8) (peerNum : UInt16) : Link where
  label := label
  encodingFormNumber := encodingFormNumber
  peerNum := peerNum
  linkState := ∅
  createTime := 0
  mutState := ⟨0, 0, 0, 0, 0⟩

/-- A node of a scheme, with links from the addresses given. -/
def node (last : UInt8) (scheme : EncodingScheme) (links : List (UInt8 × Link)) : Node where
  nodeType := .node
  version := 22
  key := ⟨List.replicate 32 9, by simp⟩
  ipv6 := ip last
  encodingScheme := scheme
  inwardLinksByIp := links.foldr (fun entry links => links.insert (ip entry.1) [entry.2]) ∅
  mutState := ⟨0, [], none, none⟩

/-- A table of nodes. -/
def table (nodes : List Node) : Nodes :=
  nodes.foldr (fun node table => table.insert node.ipv6 node) ∅

/-- `schemes::F4`. -/
def f4 : EncodingScheme := ⟨formsOf [(4, 0, 0)], by decide⟩

end Sample

end RouteServer.Snode
