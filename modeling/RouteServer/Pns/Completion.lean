import Mathlib.Data.List.Forall2
import RouteServer.Pns.Resolve

/-!
# Completed names

The names of the records in an answer are completed by `pkt` and the further top-level
domain of the query, and so are the names below `pkt` that the data of a record refers to.
Without a further domain only the first record of a list is completed.

Of the DNS library it is used that appending a domain appends its labels.
-/

namespace RouteServer.Pns

open Rust

variable {hickory : Hickory}

/-- The label `pkt`. -/
def pktLabel : List UInt8 := [112, 107, 116]

/-- The name that record data refers to, where it may be completed. -/
def RData.target {Name Parameters Opaque : Type} :
    RData Name Parameters Opaque → Option Name
  | aname n => some n
  | cname n => some n
  | ns n => some n
  | mx _ exchange => some exchange
  | ptr n => some n
  | srv _ _ _ target => some target
  | svcb _ targetName _ => some targetName
  | other _ => none

/-- Record data with another name to refer to. -/
def RData.withTarget {Name Parameters Opaque : Type} (name : Name) :
    RData Name Parameters Opaque → RData Name Parameters Opaque
  | aname _ => aname name
  | cname _ => cname name
  | ns _ => ns name
  | mx preference _ => mx preference name
  | ptr _ => ptr name
  | srv priority weight port _ => srv priority weight port name
  | svcb svcPriority _ svcParams => svcb svcPriority name svcParams
  | other data => other data

/-- The labels of the top-level domain of a query. -/
def tldLabels (hickory : Hickory) (tld : Option Text) : Option (List (List UInt8)) :=
  tld.bind fun text => (hickory.fromUtf8 text).toOption.map hickory.labels

/-- A record with its names completed, and all else as it was. -/
structure Completed (tld : Option (List (List UInt8))) (rec fixed : hickory.Record) : Prop where
  name : hickory.labels fixed.name = hickory.labels rec.name ++ [pktLabel] ++ tld.getD []
  target : ∀ top data n, tld = some top → rec.data = some data → data.target = some n →
    (hickory.labels n).getLast? = some pktLabel →
    ∃ extended, fixed.data = some (data.withTarget extended) ∧
      hickory.labels extended = hickory.labels n ++ top
  untouched : (tld = none ∨ ∀ data n, rec.data = some data → data.target = some n →
    (hickory.labels n).getLast? ≠ some pktLabel) → fixed.data = rec.data
  kept : fixed.recordType = rec.recordType ∧ fixed.dnsClass = rec.dnsClass ∧ fixed.ttl = rec.ttl

/-- All records of an answer are completed, in their order. -/
structure AllCompleted (tld : Option (List (List UInt8))) (out fixed : Records hickory) :
    Prop where
  records : List.Forall₂ (Completed tld) out.records fixed.records
  nameservers : List.Forall₂ (Completed tld) out.nameservers fixed.nameservers

/-- Appending a domain appends its labels. -/
def AppendsLabels (hickory : Hickory) : Prop :=
  ∀ name domain result, hickory.appendDomain name domain = .ok result →
    hickory.labels result = hickory.labels name ++ hickory.labels domain

/-- The name `pkt` is the label `pkt`. -/
def PktIsOneLabel (hickory : Hickory) : Prop :=
  ∀ pkt, hickory.fromUtf8 ['p', 'k', 't'] = .ok pkt → hickory.labels pkt = [pktLabel]

/-- The match on the data of a record does the same with every name. -/
theorem fixData_eq (pkt tld : hickory.Name) (rec : hickory.Record) :
    fixData pkt tld rec =
      match rec.data with
      | none => .ok rec
      | some data =>
        match data.target with
        | none => .ok rec
        | some n => fixName n pkt tld (fun extended => data.withTarget extended) rec := by
  rw [fixData]
  cases rec.data with
  | none => rfl
  | some data => cases data <;> rfl

section

variable {pkt : hickory.Name} {rec fixed : hickory.Record}

/-- A name is extended if it ends in `pkt`. -/
theorem fixName_ok (appends : AppendsLabels hickory) (isPkt : hickory.labels pkt = [pktLabel])
    {n top : hickory.Name}
    {rebuild : hickory.Name → RData hickory.Name hickory.Parameters hickory.Opaque}
    (done : fixName n pkt top rebuild rec = .ok fixed) :
    ((hickory.labels n).getLast? = some pktLabel ∧ ∃ extended,
        hickory.labels extended = hickory.labels n ++ hickory.labels top ∧
        fixed = { rec with data := some (rebuild extended) }) ∨
      (hickory.labels n).getLast? ≠ some pktLabel ∧ fixed = rec := by
  rw [fixName, fixPktNames1, isPkt, List.head?_reverse, List.head?_cons] at done
  split_ifs at done with below
  · cases appended : hickory.appendDomain n top with
    | error fault =>
      rw [appended] at done
      cases done
    | ok extended =>
      rw [appended] at done
      cases done
      exact Or.inl ⟨below, extended, appends n top extended appended, rfl⟩
  · cases done
    exact Or.inr ⟨below, rfl⟩

/-- The name that the data of a record refers to is extended if it ends in `pkt`.

Proof: by the kind of the data, of which only some refer to a name, and by whether that name
ends in `pkt`. -/
theorem fixData_ok (appends : AppendsLabels hickory) (isPkt : hickory.labels pkt = [pktLabel])
    {top : hickory.Name} (done : fixData pkt top rec = .ok fixed) :
    (∃ data n extended, rec.data = some data ∧ data.target = some n ∧
        (hickory.labels n).getLast? = some pktLabel ∧
        hickory.labels extended = hickory.labels n ++ hickory.labels top ∧
        fixed = { rec with data := some (data.withTarget extended) }) ∨
      (∀ data n, rec.data = some data → data.target = some n →
        (hickory.labels n).getLast? ≠ some pktLabel) ∧ fixed = rec := by
  rw [fixData_eq] at done
  cases found : rec.data with
  | none =>
    rw [found] at done
    cases done
    exact Or.inr ⟨nofun, rfl⟩
  | some data =>
    rw [found] at done
    dsimp only at done
    cases refers : data.target with
    | none =>
      rw [refers] at done
      cases done
      refine Or.inr ⟨?_, rfl⟩
      rintro _ n ⟨⟩ refersTo
      cases refers.symm.trans refersTo
    | some n =>
      rw [refers] at done
      rcases fixName_ok appends isPkt done with ⟨below, extended, labels, rfl⟩ | ⟨outside, rfl⟩
      · exact Or.inl ⟨data, n, extended, rfl, refers, below, labels, rfl⟩
      · refine Or.inr ⟨?_, rfl⟩
        rintro _ other ⟨⟩ refersTo
        cases refers.symm.trans refersTo
        exact outside

/-- The data of a record whose name is completed is completed with the top-level domain. -/
theorem fixData_completed (appends : AppendsLabels hickory)
    (isPkt : hickory.labels pkt = [pktLabel]) {top name : hickory.Name}
    (named : hickory.labels name = hickory.labels rec.name ++ [pktLabel] ++ hickory.labels top)
    (done : fixData pkt top { rec with name := name } = .ok fixed) :
    Completed (some (hickory.labels top)) rec fixed := by
  rcases fixData_ok appends isPkt done with
    ⟨data, n, extended, found, refers, below, labels, rfl⟩ | ⟨outside, rfl⟩
  · refine ⟨named, ?_, ?_, rfl, rfl, rfl⟩
    · rintro _ other m ⟨⟩ held refersTo -
      cases found.symm.trans held
      cases refers.symm.trans refersTo
      exact ⟨extended, rfl, labels⟩
    · rintro (none | outside)
      · cases none
      · exact absurd below (outside data n found refers)
  · exact ⟨named, fun _ data n _ found refers below => absurd below (outside data n found refers),
      fun _ => rfl, rfl, rfl, rfl⟩

/-- With a top-level domain every record of a list is completed. -/
theorem fixPktNames0_some (appends : AppendsLabels hickory)
    (isPkt : hickory.labels pkt = [pktLabel]) {top : hickory.Name}
    {recs fixedRecs : List hickory.Record}
    (done : fixPktNames0 pkt (some top) recs = .ok fixedRecs) :
    List.Forall₂ (Completed (some (hickory.labels top))) recs fixedRecs := by
  induction recs generalizing fixedRecs with
  | nil =>
    cases done
    exact List.Forall₂.nil
  | cons rec rest inductionHypothesis =>
    rw [fixPktNames0] at done
    obtain ⟨pktName, withPkt, done⟩ := (except_bind_ok_iff _ _ _).mp done
    obtain ⟨name, withTop, done⟩ := (except_bind_ok_iff _ _ _).mp done
    obtain ⟨fixed, data, done⟩ := (except_bind_ok_iff _ _ _).mp done
    obtain ⟨fixedRest, others, done⟩ := (except_bind_ok_iff _ _ _).mp done
    cases done
    have named : hickory.labels name =
        hickory.labels rec.name ++ [pktLabel] ++ hickory.labels top := by
      rw [appends _ _ _ withTop, appends _ _ _ withPkt, isPkt]
    exact List.Forall₂.cons (fixData_completed appends isPkt named data)
      (inductionHypothesis others)

/-- Without one the first record of a list is completed, and no other. -/
theorem fixPktNames0_none (appends : AppendsLabels hickory)
    (isPkt : hickory.labels pkt = [pktLabel]) {recs fixedRecs : List hickory.Record}
    (done : fixPktNames0 pkt none recs = .ok fixedRecs) :
    List.Forall₂ (Completed none) recs fixedRecs ↔ recs.length ≤ 1 := by
  cases recs with
  | nil =>
    cases done
    exact ⟨fun _ => Nat.zero_le _, fun _ => List.Forall₂.nil⟩
  | cons rec rest =>
    rw [fixPktNames0] at done
    obtain ⟨name, withPkt, done⟩ := (except_bind_ok_iff _ _ _).mp done
    cases done
    rw [List.forall₂_cons]
    cases rest with
    | nil =>
      refine ⟨fun _ => Nat.le_refl _, fun _ => ⟨⟨?_, nofun, fun _ => rfl, rfl, rfl, rfl⟩, ?_⟩⟩
      · rw [appends _ _ _ withPkt, isPkt]
        exact (List.append_nil _).symm
      · exact List.Forall₂.nil
    | cons second others =>
      rw [List.forall₂_cons]
      constructor
      · rintro ⟨-, completed, -⟩
        have same := completed.name
        simp at same
      · intro short
        simp at short

end

/-- Both lists are completed with the same names. -/
theorem fixPktNames_ok {out fixed : Records hickory} {tld : Option Text}
    (done : out.fixPktNames tld = .ok fixed) :
    ∃ pkt top, hickory.fromUtf8 ['p', 'k', 't'] = .ok pkt ∧
      top.map hickory.labels = tldLabels hickory tld ∧ top.isSome = tld.isSome ∧
      fixPktNames0 pkt top out.records = .ok fixed.records ∧
      fixPktNames0 pkt top out.nameservers = .ok fixed.nameservers := by
  rw [Records.fixPktNames] at done
  obtain ⟨pkt, asPkt, done⟩ := (except_bind_ok_iff _ _ _).mp done
  have lists : ∀ top : Option hickory.Name,
      (do
        let records ← fixPktNames0 pkt top out.records
        let nameservers ← fixPktNames0 pkt top out.nameservers
        return ({ records, nameservers } : Records hickory)) = .ok fixed →
      fixPktNames0 pkt top out.records = .ok fixed.records ∧
        fixPktNames0 pkt top out.nameservers = .ok fixed.nameservers := by
    intro top done
    obtain ⟨records, fixedRecords, done⟩ := (except_bind_ok_iff _ _ _).mp done
    obtain ⟨nameservers, fixedNameservers, done⟩ := (except_bind_ok_iff _ _ _).mp done
    cases done
    exact ⟨fixedRecords, fixedNameservers⟩
  cases tld with
  | none => exact ⟨pkt, none, asPkt, rfl, rfl, lists none done⟩
  | some text =>
    obtain ⟨top, asTop, done⟩ := (except_bind_ok_iff _ _ _).mp done
    refine ⟨pkt, some top, asPkt, ?_, rfl, lists (some top) done⟩
    rw [tldLabels, Option.bind_some, asTop]
    rfl

/-- All records of an answer are completed exactly if the query names a further top-level
domain or no list has a second record.

Proof: with a further top-level domain the loop runs through both lists. Without one it returns
after its first record, so it is complete exactly where there is no second. -/
theorem allCompleted_iff (appends : AppendsLabels hickory) (isPkt : PktIsOneLabel hickory)
    {out fixed : Records hickory} {tld : Option Text}
    (done : out.fixPktNames tld = .ok fixed) :
    AllCompleted (tldLabels hickory tld) out fixed ↔
      tld.isSome ∨ out.records.length ≤ 1 ∧ out.nameservers.length ≤ 1 := by
  obtain ⟨pkt, top, asPkt, labels, both, records, nameservers⟩ := fixPktNames_ok done
  have isPktLabel := isPkt pkt asPkt
  rw [← labels, ← both]
  cases top with
  | none =>
    have recordsIff := fixPktNames0_none appends isPktLabel records
    have nameserversIff := fixPktNames0_none appends isPktLabel nameservers
    constructor
    · rintro ⟨first, second⟩
      exact Or.inr ⟨recordsIff.mp first, nameserversIff.mp second⟩
    · rintro (none | ⟨first, second⟩)
      · cases none
      · exact ⟨recordsIff.mpr first, nameserversIff.mpr second⟩
  | some top =>
    refine ⟨fun _ => Or.inl rfl, fun _ => ⟨?_, ?_⟩⟩
    · exact fixPktNames0_some appends isPktLabel records
    · exact fixPktNames0_some appends isPktLabel nameservers

/-- The sample names append labels by putting them in a row. -/
theorem plainNames_appendsLabels : AppendsLabels plainNames := by
  rintro name domain _ ⟨⟩
  exact List.map_append

/-- The suffix is one label of the sample names. -/
theorem plainNames_pktIsOneLabel : PktIsOneLabel plainNames := by
  rintro _ ⟨⟩
  decide

/-- A mail server below `pkt`, and an address. -/
def mailRecord : plainNames.Record where
  name := ⟨["cjd".toList], false⟩
  recordType := .other 15
  dnsClass := 1
  ttl := 60
  data := some (.mx 10 ⟨["mail".toList, "cjd".toList, "pkt".toList], false⟩)

def mailAddress : plainNames.Record where
  name := ⟨["mail".toList, "cjd".toList], false⟩
  recordType := .other 1
  dnsClass := 1
  ttl := 60
  data := some (.other [10, 0, 0, 1])

def mailRecords : Records plainNames := ⟨[mailRecord, mailAddress], []⟩

/-- Below a top level domain all names of the sample are completed. -/
theorem mail_completed_below_tld :
    ∃ fixed, mailRecords.fixPktNames (some "org".toList) = .ok fixed ∧
      AllCompleted (tldLabels plainNames (some "org".toList)) mailRecords fixed :=
  ⟨_, rfl, (allCompleted_iff plainNames_appendsLabels plainNames_pktIsOneLabel rfl).mpr
    (Or.inl rfl)⟩

/-- Without a top level domain the name of a second record is left as it is. -/
theorem second_record_not_completed :
    ¬∀ (out fixed : Records plainNames) (tld : Option Text), out.fixPktNames tld = .ok fixed →
      AllCompleted (tldLabels plainNames tld) out fixed := by
  intro claimed
  have completed := claimed mailRecords _ none rfl
  cases completed.records with
  | cons _ rest =>
    cases rest with
    | cons second _ =>
      have name := second.name
      revert name
      decide

end RouteServer.Pns
