import RouteServer.Pns.Events

/-!
# Resolution of names

A query names something below `pkt`, with or without a further top-level domain.
The table is searched in iteration order, and the first domain whose name is a
suffix of the query at a dot answers it, with or without records. Its answer is
computed from the records it stores for the query and from the name server records
it stores for the query and the names above it.

The order of iteration is that of a hash map, so it is arbitrary. It is irrelevant
to a query if all domains whose names match it store the same for it: the same records
of its type, and the same name server records for each of the names above it.
-/

namespace RouteServer.Pns

open Rust

variable {hickory : Hickory}

/-- Why a query is not below `pkt`. -/
inductive ParseNameError where
  | onlyOneLabel (name : Text)
  | notInPkt
  | stripSuffixFailed (name : Text)
  | stripDotFailed (name : Text)
deriving DecidableEq

/-- `parse_name`: the part below `pkt` and the top-level domain after it. -/
def parseName (name : Text) : Except ParseNameError (Text × Option Text) :=
  let name := (stripSuffix ['.'] name).getD name
  match stripSuffix ['.', 'p', 'k', 't'] name with
  | some name => .ok (name, none)
  | none =>
    match (name.splitOn '.').reverse with
    | tld :: pkt :: _ =>
      if pkt ≠ ['p', 'k', 't'] then .error .notInPkt
      else match stripSuffix (['p', 'k', 't', '.'] ++ tld) name with
        | none => .error (.stripSuffixFailed name)
        | some [] => .ok ([], some tld)
        | some sub =>
          match stripSuffix ['.'] sub with
          | none => .error (.stripDotFailed name)
          | some sub => .ok (sub, some tld)
    | _ => .error (.onlyOneLabel name)

/-- `fix_pkt_names1`: a name that ends in `pkt`, extended. -/
def fixPktNames1 (n pkt tld : hickory.Name) : Except hickory.ProtoError (Option hickory.Name) :=
  if (hickory.labels n).reverse.head? = (hickory.labels pkt).head? then do
    let fixed ← hickory.appendDomain n tld
    return some fixed
  else return none

/-- Replace the name of record data if it ends in `pkt`. -/
def fixName (n pkt tld : hickory.Name)
    (rebuild : hickory.Name → RData hickory.Name hickory.Parameters hickory.Opaque)
    (rec : hickory.Record) : Except hickory.ProtoError hickory.Record := do
  match ← fixPktNames1 n pkt tld with
  | some n => return { rec with data := some (rebuild n) }
  | none => return rec

/-- The match of `fix_pkt_names0` on the data of a record. -/
def fixData (pkt tld : hickory.Name) (rec : hickory.Record) :
    Except hickory.ProtoError hickory.Record :=
  match rec.data with
  | some (.aname n) => fixName n pkt tld .aname rec
  | some (.cname n) => fixName n pkt tld .cname rec
  | some (.ns n) => fixName n pkt tld .ns rec
  | some (.mx preference exchange) => fixName exchange pkt tld (.mx preference) rec
  | some (.ptr n) => fixName n pkt tld .ptr rec
  | some (.srv priority weight port target) =>
    fixName target pkt tld (.srv priority weight port) rec
  | some (.svcb svcPriority targetName svcParams) =>
    fixName targetName pkt tld (fun target => .svcb svcPriority target svcParams) rec
  | _ => .ok rec

/-- `fix_pkt_names0`. Without a top-level domain it returns after the first
record. -/
def fixPktNames0 (pkt : hickory.Name) (tld : Option hickory.Name) :
    List hickory.Record → Except hickory.ProtoError (List hickory.Record)
  | [] => .ok []
  | rec :: rest => do
    let name ← hickory.appendDomain rec.name pkt
    match tld with
    | none => return { rec with name := name } :: rest
    | some top =>
      let name ← hickory.appendDomain name top
      let fixed ← fixData pkt top { rec with name := name }
      let others ← fixPktNames0 pkt tld rest
      return fixed :: others

/-- `Records`. -/
structure Records (hickory : Hickory) where
  records : List hickory.Record
  nameservers : List hickory.Record

/-- `Records::fix_pkt_names`. -/
def Records.fixPktNames (out : Records hickory) (tld : Option Text) :
    Except hickory.ProtoError (Records hickory) := do
  let pkt ← hickory.fromUtf8 ['p', 'k', 't']
  let tld ← match tld with
    | some tld => do
      let tld ← hickory.fromUtf8 tld
      pure (some tld)
    | none => pure none
  let records ← fixPktNames0 pkt tld out.records
  let nameservers ← fixPktNames0 pkt tld out.nameservers
  return { records := records, nameservers := nameservers }

/-- The records pushed for the query itself: those of its type, or aliases if there
are none. -/
def pushRecords (t : RecordType) (recs records : List hickory.Record) : List hickory.Record :=
  let records := records ++ recs.filter (fun rec => rec.recordType = t ∨ t = .any)
  if records.isEmpty then records ++ recs.filter (fun rec => rec.recordType = .cname) else records

/-- Whether the name of a domain is the query or a suffix of it after a dot. -/
def Domain.matchesSub (dom : Domain hickory) (sub : Text) : Bool :=
  match stripSuffix dom.name sub with
  | some ssub => ssub.isEmpty || ssub.getLast? == some '.'
  | none => false

/-- The loop over the query and the names above it, pushing name servers. -/
def pushNameservers (dom : Domain hickory) (ssub : Text) (nameservers : List hickory.Record) :
    List hickory.Record :=
  let nameservers := match OrderedMap.get ssub dom.records with
    | some recs => nameservers ++ recs.filter (fun rec => rec.recordType = .ns)
    | none => nameservers
  match _above : afterDot ssub with
  | some ssub => pushNameservers dom ssub nameservers
  | none => nameservers
termination_by ssub.length
decreasing_by exact afterDot_length _above

/-- What the loop of `get_records` returns at a domain that matches. -/
def answerFrom (dom : Domain hickory) (sub : Text) (tld : Option Text) (t : RecordType) :
    Except hickory.ProtoError (Records hickory) :=
  let records := match OrderedMap.get sub dom.records with
    | some recs => pushRecords t recs []
    | none => []
  Records.fixPktNames { records := records, nameservers := pushNameservers dom sub [] } tld

/-- The loop of `get_records` over the values of the table. -/
def searchDomains (sub : Text) (tld : Option Text) (t : RecordType) :
    List (Domain hickory) → Except hickory.ProtoError (Option (Records hickory))
  | [] => .ok none
  | dom :: rest =>
    if dom.matchesSub sub then do
      let out ← answerFrom dom sub tld t
      return some out
    else searchDomains sub tld t rest

/-- The values of a table in iteration order. -/
def tableValues (doms : Table hickory) : List (Domain hickory) := doms.entries.map Sigma.snd

/-- `Pns::get_records`, once the table is there. -/
def getRecords (doms : Table hickory) (name : hickory.Name) (t : RecordType) :
    Except hickory.ProtoError (Option (Records hickory)) :=
  match parseName (hickory.toText name) with
  | .ok (sub, tld) => searchDomains sub tld t (tableValues doms)
  | .error _ => .ok none

/-- The names above a name: what follows each of its dots. -/
def namesAbove : Text → List Text
  | [] => []
  | character :: rest => if character = '.' then rest :: namesAbove rest else namesAbove rest

/-- What a domain stores under a name. -/
def Domain.stored (dom : Domain hickory) (name : Text) : List hickory.Record :=
  (OrderedMap.get name dom.records).getD []

/-- The records of the type asked for, or the aliases if there are none. -/
def directOrAliases (t : RecordType) (recs : List hickory.Record) : List hickory.Record :=
  let direct := recs.filter (fun rec => rec.recordType = t ∨ t = .any)
  if direct.isEmpty then recs.filter (fun rec => rec.recordType = .cname) else direct

/-- What a domain stores in answer to the query itself. -/
def Domain.matching (dom : Domain hickory) (sub : Text) (t : RecordType) : List hickory.Record :=
  directOrAliases t (dom.stored sub)

/-- The name server records stored for a name and for every name above it. -/
def Domain.delegations (dom : Domain hickory) (sub : Text) : List hickory.Record :=
  (sub :: namesAbove sub).flatMap
    (fun name => (dom.stored name).filter (fun rec => rec.recordType = .ns))

/-- What of the records under a name a query of a type looks at: those of the type and, if
there are none, the aliases. -/
structure SameDirect (t : RecordType) (first second : List hickory.Record) : Prop where
  asked : first.filter (fun rec => rec.recordType = t ∨ t = .any) =
    second.filter (fun rec => rec.recordType = t ∨ t = .any)
  aliases : first.filter (fun rec => rec.recordType = t ∨ t = .any) = [] →
    first.filter (fun rec => rec.recordType = .cname) =
      second.filter (fun rec => rec.recordType = .cname)

/-- Two domains store the same for a query: under its name what a query of the type looks at,
and under its name and each name above it the same name server records. -/
structure Domain.StoresSame (first second : Domain hickory) (sub : Text) (t : RecordType) :
    Prop where
  direct : SameDirect t (first.stored sub) (second.stored sub)
  nameservers : ∀ name ∈ sub :: namesAbove sub,
    (first.stored name).filter (fun rec => rec.recordType = .ns) =
      (second.stored name).filter (fun rec => rec.recordType = .ns)

/-- The names above one are what follows its first dot and the names above that. -/
theorem namesAbove_afterDot (text : Text) :
    namesAbove text =
      match afterDot text with
      | some rest => rest :: namesAbove rest
      | none => [] := by
  induction text with
  | nil => rfl
  | cons character rest inductionHypothesis =>
    rw [namesAbove, afterDot]
    split
    · rfl
    · exact inductionHypothesis

/-- The loop pushes the name servers of the name it starts from and of every name
above it. -/
theorem pushNameservers_eq (dom : Domain hickory) (ssub : Text)
    (nameservers : List hickory.Record) :
    pushNameservers dom ssub nameservers = nameservers ++ dom.delegations ssub := by
  fun_induction pushNameservers dom ssub nameservers with
  | case1 ssub nameservers pushed above found inductionHypothesis =>
    rw [inductionHypothesis, Domain.delegations, Domain.delegations, namesAbove_afterDot ssub,
      found]
    simp only [List.flatMap_cons, ← List.append_assoc]
    congr 2
    simp only [pushed, Domain.stored]
    cases OrderedMap.get ssub dom.records <;> simp
  | case2 ssub nameservers pushed found =>
    rw [Domain.delegations, namesAbove_afterDot ssub, found]
    simp only [List.flatMap_cons, List.flatMap_nil, List.append_nil, pushed, Domain.stored]
    cases OrderedMap.get ssub dom.records <;> simp

/-- With no records pushed before, those of the type come out, or aliases where there are none. -/
theorem pushRecords_nil (t : RecordType) (recs : List hickory.Record) :
    pushRecords t recs [] = directOrAliases t recs := by
  rw [pushRecords, directOrAliases]
  simp only [List.nil_append]
  split
  · next empty => rw [List.isEmpty_iff.mp empty, List.nil_append]
  · rfl

/-- A domain that matches answers from what it stores for the query. -/
theorem answerFrom_eq (dom : Domain hickory) (sub : Text) (tld : Option Text) (t : RecordType) :
    answerFrom dom sub tld t =
      Records.fixPktNames ⟨dom.matching sub t, dom.delegations sub⟩ tld := by
  rw [answerFrom, pushNameservers_eq, List.nil_append, Domain.matching, Domain.stored]
  cases OrderedMap.get sub dom.records with
  | none => rfl
  | some recs => simp only [pushRecords_nil, Option.getD_some]

/-- The first domain that matches answers, if any does. -/
theorem searchDomains_eq (sub : Text) (tld : Option Text) (t : RecordType)
    (doms : List (Domain hickory)) :
    searchDomains sub tld t doms =
      match doms.find? (fun dom => dom.matchesSub sub) with
      | some dom => (answerFrom dom sub tld t).map some
      | none => .ok none := by
  induction doms with
  | nil => rfl
  | cons dom rest inductionHypothesis =>
    rw [searchDomains, List.find?_cons]
    cases dom.matchesSub sub with
    | true =>
      simp only [if_true]
      cases answerFrom dom sub tld t <;> rfl
    | false => simpa using inductionHypothesis

/-- Of the records under a name a query looks at no others. -/
theorem SameDirect.directOrAliases_eq {t : RecordType} {first second : List hickory.Record}
    (same : SameDirect t first second) : directOrAliases t first = directOrAliases t second := by
  obtain ⟨asked, aliases⟩ := same
  rw [directOrAliases, directOrAliases, ← asked]
  split
  · next empty => exact aliases (List.isEmpty_iff.mp empty)
  · rfl

/-- Domains that store the same for a query give the same answer. -/
theorem Domain.StoresSame.answerFrom_eq {first second : Domain hickory} {sub : Text}
    {t : RecordType} (same : first.StoresSame second sub t) (tld : Option Text) :
    answerFrom first sub tld t = answerFrom second sub tld t := by
  have delegations : first.delegations sub = second.delegations sub :=
    List.flatMap_congr fun name above => same.nameservers name above
  rw [Pns.answerFrom_eq, Pns.answerFrom_eq, delegations, Domain.matching, Domain.matching,
    same.direct.directOrAliases_eq]

/-- The answer to a query is the same in every iteration order of the table if all domains
whose name is a suffix of the query at a dot store the same for it. The first match of any
order is one of them.

Proof: either no order has a match, or each order has a first one. The two first matches store the
same, so the answer is computed from the same. -/
theorem getRecords_order_independent (doms : Table hickory) (name : hickory.Name)
    (t : RecordType)
    (same : ∀ sub tld, parseName (hickory.toText name) = .ok (sub, tld) →
      ∀ first ∈ tableValues doms, ∀ second ∈ tableValues doms,
        first.matchesSub sub → second.matchesSub sub → first.StoresSame second sub t)
    (reordered : Table hickory) (rearranged : reordered.entries.Perm doms.entries) :
    getRecords reordered name t = getRecords doms name t := by
  rw [getRecords, getRecords]
  cases parsed : parseName (hickory.toText name) with
  | error _ => rfl
  | ok query =>
    obtain ⟨sub, tld⟩ := query
    have values : (tableValues reordered).Perm (tableValues doms) := rearranged.map _
    simp only [searchDomains_eq]
    cases found : (tableValues doms).find? (fun dom => dom.matchesSub sub) with
    | none =>
      rw [List.find?_eq_none] at found
      have notFound : (tableValues reordered).find? (fun dom => dom.matchesSub sub) = none :=
        List.find?_eq_none.mpr (fun dom inside => found dom (values.mem_iff.mp inside))
      rw [notFound]
    | some second =>
      have secondInside := List.mem_of_find?_eq_some found
      have secondMatches : second.matchesSub sub := by simpa using List.find?_some found
      obtain ⟨first, foundFirst⟩ := Option.isSome_iff_exists.mp
        (List.find?_isSome (p := fun dom : Domain hickory => dom.matchesSub sub) |>.mpr
          ⟨second, values.mem_iff.mpr secondInside, secondMatches⟩)
      have firstInside := values.mem_iff.mp (List.mem_of_find?_eq_some foundFirst)
      have firstMatches : first.matchesSub sub := by simpa using List.find?_some foundFirst
      have alike := same sub tld parsed first firstInside second secondInside firstMatches
        secondMatches
      rw [foundFirst]
      dsimp only
      rw [alike.answerFrom_eq tld]

/-- The domain `cjd`, whose record for `foo` is one address, and its subdomain
`foo.cjd`, whose own record is another. -/
def withSubdomain : Table plainNames :=
  let registered := (registerDomain 1 5 [99, 106, 100]
    [5, 21, 3, 102, 111, 111, 0, 0, 1, 0, 1, 0, 0, 0, 60, 0, 4, 1, 2, 3, 4] ∅).1
  (createSubdomain 2 1 [102, 111, 111, 46, 99, 106, 100]
    [5, 17, 0, 0, 1, 0, 1, 0, 0, 0, 60, 0, 4, 5, 6, 7, 8] registered).1

/-- No domain of the table stores a text for `foo.cjd`, so the answer to a query for texts does
not depend on the order, although two domains match.

Proof: the values of the table are checked one by one, and none has a text or an alias for the
name. -/
theorem text_independent_of_order :
    (∀ sub tld, parseName (plainNames.toText ⟨["foo".toList, "cjd".toList, "pkt".toList], true⟩) =
        .ok (sub, tld) →
      ∀ first ∈ tableValues withSubdomain, ∀ second ∈ tableValues withSubdomain,
        first.matchesSub sub → second.matchesSub sub →
          first.StoresSame second sub (.other 16)) ∧
      ∀ reordered : Table plainNames, reordered.entries.Perm withSubdomain.entries →
        getRecords reordered ⟨["foo".toList, "cjd".toList, "pkt".toList], true⟩ (.other 16) =
          getRecords withSubdomain ⟨["foo".toList, "cjd".toList, "pkt".toList], true⟩
            (.other 16) := by
  have isParsed : parseName
      (plainNames.toText ⟨["foo".toList, "cjd".toList, "pkt".toList], true⟩) =
        .ok ("foo.cjd".toList, none) := by
    decide +kernel
  have nothing : (tableValues withSubdomain).all fun dom =>
      ((dom.stored "foo.cjd".toList).filter fun rec =>
        rec.recordType = .other 16 ∨ (.other 16 : RecordType) = .any).isEmpty &&
      ((dom.stored "foo.cjd".toList).filter fun rec => rec.recordType = .cname).isEmpty &&
      ("foo.cjd".toList :: namesAbove "foo.cjd".toList).all fun name =>
        ((dom.stored name).filter fun rec => rec.recordType = .ns).isEmpty := by
    decide +kernel
  have same : ∀ sub tld,
      parseName (plainNames.toText ⟨["foo".toList, "cjd".toList, "pkt".toList], true⟩) =
        .ok (sub, tld) →
      ∀ first ∈ tableValues withSubdomain, ∀ second ∈ tableValues withSubdomain,
        first.matchesSub sub → second.matchesSub sub →
          first.StoresSame second sub (.other 16) := by
    intro sub tld parsed first firstInside second secondInside _ _
    cases isParsed.symm.trans parsed
    simp only [List.all_eq_true, Bool.and_eq_true, List.isEmpty_iff] at nothing
    obtain ⟨⟨firstAsked, firstAliases⟩, firstServers⟩ := nothing first firstInside
    obtain ⟨⟨secondAsked, secondAliases⟩, secondServers⟩ := nothing second secondInside
    refine ⟨⟨firstAsked.trans secondAsked.symm, fun _ => firstAliases.trans secondAliases.symm⟩,
      fun name above => ?_⟩
    rw [firstServers name above, secondServers name above]
  exact ⟨same, getRecords_order_independent withSubdomain _ (.other 16) same⟩

/-- The addresses in an answer. -/
def addresses (answer : Except Unit (Option (Records plainNames))) : List (List UInt8) :=
  match answer with
  | .ok (some out) => out.records.map fun rec =>
    match rec.data with
    | some (.other address) => address
    | _ => []
  | _ => []

/-- The address of `foo.cjd.pkt` is that of the subdomain or the one its parent
gives, depending on which of the two is iterated first. -/
theorem address_depends_on_order :
    ∃ reordered : Table plainNames, reordered.entries.Perm withSubdomain.entries ∧
      getRecords reordered ⟨["foo".toList, "cjd".toList, "pkt".toList], true⟩ (.other 1) ≠
        getRecords withSubdomain ⟨["foo".toList, "cjd".toList, "pkt".toList], true⟩ (.other 1) := by
  refine ⟨⟨withSubdomain.entries.reverse, ?_⟩, List.reverse_perm _, ?_⟩
  · exact (List.perm_nodupKeys (List.reverse_perm _)).mpr withSubdomain.nodupKeys
  · intro same
    have differ : addresses (getRecords ⟨withSubdomain.entries.reverse,
        (List.perm_nodupKeys (List.reverse_perm _)).mpr withSubdomain.nodupKeys⟩
          ⟨["foo".toList, "cjd".toList, "pkt".toList], true⟩ (.other 1)) ≠
        addresses (getRecords withSubdomain
          ⟨["foo".toList, "cjd".toList, "pkt".toList], true⟩ (.other 1)) := by
      decide +kernel
    exact differ (congrArg addresses same)

end RouteServer.Pns
