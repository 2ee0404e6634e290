import Mathlib.Data.List.AList
import RouteServer.Machine.Runs
import RouteServer.Pns.Domain

/-!
# The table of domains under contract events and reloads

The table is rebuilt as a whole by reloads and changed one domain at a time by the
events of the contract. An event waits until a table is there; a handler that fails
has the table discarded, which leads to the next reload. Tasks interleave between
these steps: several reloads may run at once, and a failure is reported after the
lock of its handler has been released.

Five of the six events keep every cache coherent. Takeover replaces the raw records
and keeps the cache of the records replaced, so it is coherent exactly when both
compute to the same cache. Subdomain counts are bytes that wrap, as in a release
build.
-/

namespace RouteServer.Pns

open Rust

variable {hickory : Hickory}

/-- `HashMap<u64, Arc<Domain>>`. -/
abbrev Table (hickory : Hickory) : Type := AList (fun _ : UInt64 => Domain hickory)

/-- The events of the contract, with the fields their handlers read. -/
inductive ContractEvent where
  | register (id lockupId : UInt64) (name records : List UInt8)
  | updateRecords (id : UInt64) (records : List UInt8)
  | takeover (id newLockupId : UInt64) (records : List UInt8)
  | createSubdomain (id parentId : UInt64) (name records : List UInt8)
  | destroy (id : UInt64)
  | blacklist (id : UInt64) (isBlacklisted : Bool)

/-- Why a handler fails. -/
inductive PnsError where
  | domain (id : UInt64)
  | domainForTakeover (id : UInt64)
  | parentForCreatingSubdomain (id : UInt64)
  | parentToDecrement (id : UInt64)
  | domainForDestruction (id : UInt64)
  | domainForBlacklisting (id : UInt64)
deriving DecidableEq

/-- The message of a failure. -/
def PnsError.message : PnsError → String
  | domain id => s!"Unable to find domain with id {id}"
  | domainForTakeover id => s!"Unable to find domain with id {id} for takeover"
  | parentForCreatingSubdomain id =>
    s!"Unable to find parent domain with id {id} for creating subdomain"
  | parentToDecrement id =>
    s!"Unable to find parent domain with id {id} to decrement subdomain count"
  | domainForDestruction id => s!"Unable to find domain with id {id} for destruction"
  | domainForBlacklisting id => s!"Unable to find domain with id {id} for blacklisting"

/-- A handler leaves a table in any case, and may have failed. -/
abbrev Handled (hickory : Hickory) : Type := Table hickory × Option PnsError

/-- `filter_register_domain`. -/
def registerDomain (id lockupId : UInt64) (name records : List UInt8) (units : Table hickory) :
    Handled hickory :=
  (units.insert id (Domain.new id {
    owner := lockupId
    name := name
    records := records
    subdomains := 0
    blacklisted := false }), none)

/-- `filter_update_records`. -/
def updateRecords (id : UInt64) (records : List UInt8) (units : Table hickory) :
    Handled hickory :=
  match units.lookup id with
  | some d => (units.insert id
      (Domain.updateRecords { d with d := { d.d with records := records } }), none)
  | none => (units, some (.domain id))

/-- `filter_takeover`. -/
def takeover (id newLockupId : UInt64) (records : List UInt8) (units : Table hickory) :
    Handled hickory :=
  match units.lookup id with
  | some d =>
    (units.insert id { d with d := { d.d with owner := newLockupId, records := records } }, none)
  | none => (units, some (.domainForTakeover id))

/-- `filter_create_subdomain`. -/
def createSubdomain (id parentId : UInt64) (name records : List UInt8) (units : Table hickory) :
    Handled hickory :=
  match units.lookup parentId with
  | some parent =>
    let newSubdomain := Domain.new id {
      owner := parentId
      name := name
      records := records
      subdomains := 0xff
      blacklisted := parent.d.blacklisted }
    let pd := { parent with d := { parent.d with subdomains := parent.d.subdomains + 1 } }
    ((units.insert parentId pd).insert id newSubdomain, none)
  | none => (units, some (.parentForCreatingSubdomain parentId))

/-- `filter_destroy`. The domain is gone even when its parent is not found. -/
def destroy (id : UInt64) (units : Table hickory) : Handled hickory :=
  match units.lookup id with
  | some domain =>
    let units := units.erase id
    if domain.d.subdomains = 0xff then
      match units.lookup domain.d.owner with
      | some parent => (units.insert domain.d.owner
          { parent with d := { parent.d with subdomains := parent.d.subdomains - 1 } }, none)
      | none => (units, some (.parentToDecrement domain.d.owner))
    else (units, none)
  | none => (units, some (.domainForDestruction id))

/-- `filter_blacklist`. -/
def blacklist (id : UInt64) (isBlacklisted : Bool) (units : Table hickory) : Handled hickory :=
  match units.lookup id with
  | some domain =>
    (units.insert id { domain with d := { domain.d with blacklisted := isBlacklisted } }, none)
  | none => (units, some (.domainForBlacklisting id))

/-- The handler of an event. -/
def handle : ContractEvent → Table hickory → Handled hickory
  | .register id lockupId name records => registerDomain id lockupId name records
  | .updateRecords id records => updateRecords id records
  | .takeover id newLockupId records => takeover id newLockupId records
  | .createSubdomain id parentId name records => createSubdomain id parentId name records
  | .destroy id => destroy id
  | .blacklist id isBlacklisted => blacklist id isBlacklisted

/-- `UNITS_PER_REQ`. -/
def unitsPerReq : Nat := 16

/-- The answers to one request of `get_all_domains`. -/
def insertOwned (out : Table hickory) (answers : List (RawDomain × UInt64)) : Table hickory :=
  answers.foldl
    (fun out answer =>
      if 0 < answer.1.owner then out.insert answer.2 (Domain.new answer.2 answer.1) else out) out

/-- `get_all_domains`, given what the contract answers to each request. -/
def getAllDomains (nextDomainId : UInt64) (getDomains : List UInt64 → List RawDomain) :
    Table hickory :=
  let chks := ((List.range nextDomainId.toNat).map UInt64.ofNat).toChunks unitsPerReq
  chks.foldl (fun out v => insertOwned out ((getDomains v).zip v)) ∅

/-- `Domains`. -/
inductive Domains (hickory : Hickory) where
  | domains (units : Table hickory)
  | updating
  | errored

/-- The table, with the reloads in progress and the failures not yet reported. -/
structure State (hickory : Hickory) where
  domains : Domains hickory
  reloads : Nat
  failures : Nat

/-- What can happen next. A reload ends with the answers of the contract or with
an error of the connection. -/
inductive Event where
  | contract (event : ContractEvent)
  | reportFailure
  | reloadStart
  | reloadDone (nextDomainId : UInt64) (getDomains : List UInt64 → List RawDomain)
  | reloadFailed

/-- One step. Contract events wait in `with_domains` until a table is there. -/
def step (state : State hickory) : Event → Option (State hickory)
  | .contract event =>
    match state.domains with
    | .domains units =>
      let (units, failure) := handle event units
      some { state with
        domains := .domains units
        failures := state.failures + if failure.isSome then 1 else 0 }
    | _ => none
  | .reportFailure =>
    if 0 < state.failures then
      some { state with domains := .errored, failures := state.failures - 1 }
    else none
  | .reloadStart => some { state with domains := .updating, reloads := state.reloads + 1 }
  | .reloadDone nextDomainId getDomains =>
    if 0 < state.reloads then
      some { state with
        domains := .domains (getAllDomains nextDomainId getDomains)
        reloads := state.reloads - 1 }
    else none
  | .reloadFailed =>
    if 0 < state.reloads then
      some { state with domains := .errored, reloads := state.reloads - 1 }
    else none

/-- The table from its creation in `Pns::new`. -/
def pns (hickory : Hickory) : Machine.System (State hickory) Event where
  initial := { domains := .errored, reloads := 0, failures := 0 }
  step := step

/-- Every entry of a table is coherent. -/
def TableCoherent (units : Table hickory) : Prop :=
  ∀ id domain, units.lookup id = some domain → domain.Coherent

/-- Every entry of the present table is coherent. -/
def State.Coherent (state : State hickory) : Prop :=
  match state.domains with
  | .domains units => TableCoherent units
  | _ => True

/-- The records of a takeover compute to the same cache as those they replace. -/
def CacheKept (state : State hickory) (event : Event) : Prop :=
  match event, state.domains with
  | .contract (.takeover id _ records), .domains units =>
    ∀ domain, units.lookup id = some domain →
      (cacheOf (fromUtf8Lossy domain.d.name) records : RecordMap hickory) =
        cacheOf (fromUtf8Lossy domain.d.name) domain.d.records
  | _, _ => True

/-- Inserting into a coherent table keeps it coherent exactly when the new entry
is coherent. -/
theorem tableCoherent_insert_iff {units : Table hickory} (coherent : TableCoherent units)
    (id : UInt64) (domain : Domain hickory) :
    TableCoherent (units.insert id domain) ↔ domain.Coherent := by
  constructor
  · intro inserted
    exact inserted id domain (AList.lookup_insert units)
  · intro fresh other found lookup
    by_cases same : other = id
    · subst same
      rw [AList.lookup_insert] at lookup
      cases lookup
      exact fresh
    · rw [AList.lookup_insert_ne same] at lookup
      exact coherent other found lookup

/-- An entry put back with the name and the records it had. -/
theorem tableCoherent_putBack {units : Table hickory} (coherent : TableCoherent units)
    {id : UInt64} {domain : Domain hickory} (found : units.lookup id = some domain) (d : RawDomain)
    (name : d.name = domain.d.name) (records : d.records = domain.d.records) :
    TableCoherent (units.insert id { domain with d := d }) :=
  (tableCoherent_insert_iff coherent _ _).mpr ((coherent id domain found).of_same d name records)

/-- Taking an entry out leaves the others as they are. -/
theorem tableCoherent_erase {units : Table hickory} (coherent : TableCoherent units)
    (id : UInt64) : TableCoherent (units.erase id) := by
  intro other found lookup
  by_cases same : other = id
  · subst same
    rw [AList.lookup_erase] at lookup
    cases lookup
  · rw [AList.lookup_erase_ne same] at lookup
    exact coherent other found lookup

/-- A reload computes every cache anew. -/
theorem getAllDomains_coherent (nextDomainId : UInt64)
    (getDomains : List UInt64 → List RawDomain) :
    TableCoherent (getAllDomains nextDomainId getDomains : Table hickory) := by
  refine List.foldlRecOn _ _ ?_ ?_
  · intro id domain lookup
    cases lookup
  · intro out coherent v _
    refine List.foldlRecOn _ _ coherent ?_
    intro out coherent answer _
    split
    · exact (tableCoherent_insert_iff coherent _ _).mpr (Domain.new_coherent _ _)
    · exact coherent

/-- A handler keeps a coherent table coherent, except that a takeover must keep the
cache of the domain it takes over.

Proof: one case for each event, by the lemma about the change of the table it makes. All of them
store a domain with its cache filled, or leave the caches alone, except for the takeover. -/
theorem handle_coherent_iff (event : ContractEvent) {units : Table hickory}
    (coherent : TableCoherent units) :
    TableCoherent (handle event units).1 ↔
      ∀ id newLockupId records, event = .takeover id newLockupId records →
        ∀ domain, units.lookup id = some domain →
          (cacheOf (fromUtf8Lossy domain.d.name) records : RecordMap hickory) =
            cacheOf (fromUtf8Lossy domain.d.name) domain.d.records := by
  cases event with
  | register id lockupId name records =>
    simp only [handle, registerDomain, tableCoherent_insert_iff coherent, reduceCtorEq,
      false_implies, implies_true, iff_true]
    exact Domain.new_coherent _ _
  | updateRecords id records =>
    simp only [reduceCtorEq, false_implies, implies_true, iff_true, handle, updateRecords]
    split
    · exact (tableCoherent_insert_iff coherent _ _).mpr (Domain.updateRecords_coherent _)
    · exact coherent
  | takeover id newLockupId records =>
    simp only [handle, takeover, ContractEvent.takeover.injEq]
    cases lookup : units.lookup id with
    | none =>
      simp only [coherent, true_iff]
      rintro _ _ _ ⟨rfl, rfl, rfl⟩ domain found
      rw [lookup] at found
      cases found
    | some domain =>
      have replaced := (coherent id domain lookup).replace_records_iff newLockupId records
      simp only [tableCoherent_insert_iff coherent, replaced]
      constructor
      · rintro same _ _ _ ⟨rfl, rfl, rfl⟩ other found
        rw [lookup] at found
        cases found
        exact same
      · intro kept
        exact kept id newLockupId records ⟨rfl, rfl, rfl⟩ domain lookup
  | createSubdomain id parentId name records =>
    simp only [reduceCtorEq, false_implies, implies_true, iff_true, handle, createSubdomain]
    cases lookup : units.lookup parentId with
    | none => exact coherent
    | some parent =>
      have counted := tableCoherent_putBack coherent lookup
        { parent.d with subdomains := parent.d.subdomains + 1 } rfl rfl
      exact (tableCoherent_insert_iff counted _ _).mpr (Domain.new_coherent _ _)
  | destroy id =>
    simp only [reduceCtorEq, false_implies, implies_true, iff_true, handle, destroy]
    have erased : TableCoherent (units.erase id) := tableCoherent_erase coherent id
    cases units.lookup id with
    | none => exact coherent
    | some domain =>
      dsimp only
      split
      · cases lookup : (units.erase id).lookup domain.d.owner with
        | none => exact erased
        | some parent =>
          exact tableCoherent_putBack erased lookup
            { parent.d with subdomains := parent.d.subdomains - 1 } rfl rfl
      · exact erased
  | blacklist id isBlacklisted =>
    simp only [reduceCtorEq, false_implies, implies_true, iff_true, handle, blacklist]
    cases lookup : units.lookup id with
    | none => exact coherent
    | some domain =>
      exact tableCoherent_putBack coherent lookup
        { domain.d with blacklisted := isBlacklisted } rfl rfl

/-- A step from a coherent state leads to a coherent state exactly when it keeps
the cache of a domain taken over.

Proof: one case for each kind of step; events and reloads are handled in a table that is
coherent, and a failure changes no table. -/
theorem step_coherent_iff (state next : State hickory) (event : Event)
    (coherent : state.Coherent) (possible : step state event = some next) :
    next.Coherent ↔ CacheKept state event := by
  obtain ⟨domains, reloads, failures⟩ := state
  cases event with
  | contract event =>
    cases domains with
    | domains units =>
      cases possible
      have handled := handle_coherent_iff event coherent
      apply handled.trans
      cases event with
      | takeover id newLockupId records =>
        constructor
        · intro kept
          exact kept id newLockupId records rfl
        · rintro kept _ _ _ ⟨rfl, rfl, rfl⟩
          exact kept
      | _ => simp [CacheKept]
    | _ => cases possible
  | reportFailure =>
    simp only [step, Option.ite_none_right_eq_some] at possible
    obtain ⟨-, same⟩ := possible
    cases same
    simp [State.Coherent, CacheKept]
  | reloadStart =>
    cases possible
    simp [State.Coherent, CacheKept]
  | reloadDone nextDomainId getDomains =>
    simp only [step, Option.ite_none_right_eq_some] at possible
    obtain ⟨-, same⟩ := possible
    cases same
    simp only [CacheKept, iff_true]
    exact getAllDomains_coherent nextDomainId getDomains
  | reloadFailed =>
    simp only [step, Option.ite_none_right_eq_some] at possible
    obtain ⟨-, same⟩ := possible
    cases same
    simp [State.Coherent, CacheKept]

/-- Throughout a run of contract events and reloads every entry of the table is
coherent if and only if every takeover of a domain in the table brings records that
compute to the cache of the records they replace.

Proof: the run is reduced to its steps, each of which changes one entry or builds the table anew. -/
theorem table_coherent_iff (events : List Event) :
    (∀ state, (pns hickory).Reached events state → state.Coherent) ↔
      ∀ state event next, (pns hickory).Taken events state event next → CacheKept state event :=
  Machine.System.always_iff (pns hickory) events (fun _ => True) State.Coherent CacheKept trivial
    trivial (fun _ _ _ _ _ _ _ => trivial)
    (fun state event next _ _ coherent possible =>
      step_coherent_iff state next event coherent possible)

/-- What is registered: the name `cjd` and one address record. -/
def addressRecord : List UInt8 := [5, 17, 0, 0, 1, 0, 1, 0, 0, 0, 60, 0, 4, 1, 2, 3, 4]

/-- A domain registered after a reload of an empty table, and taken over by an
owner without records. -/
def takenOver : List Event :=
  [.reloadStart, .reloadDone 0 (fun _ => []),
    .contract (.register 1 5 [99, 106, 100] addressRecord),
    .contract (.takeover 1 6 [])]

/-- After the takeover the table still serves the address of the earlier owner. -/
theorem takeover_keeps_old_records :
    ∃ state, (pns plainNames).Reached takenOver state ∧ ¬state.Coherent := by
  refine ⟨_, ⟨takenOver, [], by simp, rfl⟩, ?_⟩
  intro coherent
  obtain ⟨records, -⟩ := coherent 1 _ rfl
  have served : (cacheOf (fromUtf8Lossy [99, 106, 100]) addressRecord :
      RecordMap plainNames).length = 1 := by decide +kernel
  have stored : (cacheOf (fromUtf8Lossy [99, 106, 100]) [] :
      RecordMap plainNames).length = 0 := by decide +kernel
  have same := congrArg List.length records
  exact absurd (served.symm.trans (same.trans stored)) (by decide)

end RouteServer.Pns
