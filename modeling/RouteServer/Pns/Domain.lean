import Mathlib.Data.Char
import Mathlib.Data.List.Lex
import RouteServer.Pns.Record
import RouteServer.Rust.OrderedMap

/-!
# Domains and their cached records

A domain of the table holds what the contract stores about it and two values
derived from that: its name as text, and its records by their full name. Both are
computed together, and a record that cannot be decoded leaves the cache empty.
-/

namespace RouteServer.Pns

open Rust

/-- `IPNS::Domain`, as stored by the contract. -/
structure RawDomain where
  owner : UInt64
  name : List UInt8
  records : List UInt8
  subdomains : UInt8
  blacklisted : Bool
deriving DecidableEq

variable (hickory : Hickory)

/-- The map from full names to records. -/
abbrev RecordMap : Type := List (Text × List hickory.Record)

/-- `Domain`. -/
structure Domain where
  id : UInt64
  d : RawDomain
  records : RecordMap hickory
  name : Text

variable {hickory}

/-- The loop of `update_records`: the domain name is appended to each record name,
and a record whose name cannot be extended is left out. -/
def collectRecords (name : hickory.Name) (collected : RecordMap hickory) :
    List hickory.Record → RecordMap hickory
  | [] => collected
  | r :: rest =>
    match hickory.appendName r.name name with
    | .error _ => collectRecords name collected rest
    | .ok n =>
      collectRecords name (OrderedMap.push (hickory.toText n) { r with name := n } collected) rest

/-- The records `update_records` computes from raw ones under a domain name. -/
def cacheOf (name : Text) (records : List UInt8) : RecordMap hickory :=
  match decodeRecords records with
  | .ok recs =>
    match hickory.fromUtf8 name with
    | .ok name => collectRecords name [] recs
    | .error _ => []
  | .error _ => []

/-- `Domain::update_records`. -/
def Domain.updateRecords (domain : Domain hickory) : Domain hickory :=
  let name := fromUtf8Lossy domain.d.name
  { domain with name := name, records := cacheOf name domain.d.records }

/-- `Domain::new`. -/
def Domain.new (id : UInt64) (d : RawDomain) : Domain hickory :=
  Domain.updateRecords { id := id, d := d, records := [], name := [] }

/-- The cached values are those `Domain::new` computes from the raw ones. -/
def Domain.Coherent (domain : Domain hickory) : Prop :=
  let computed : Domain hickory := Domain.new domain.id domain.d
  domain.records = computed.records ∧ domain.name = computed.name

/-- A new domain has the records of what was read. -/
theorem Domain.new_coherent (id : UInt64) (d : RawDomain) :
    (Domain.new id d : Domain hickory).Coherent := ⟨rfl, rfl⟩

/-- Records that are computed anew are those of the domain. -/
theorem Domain.updateRecords_coherent (domain : Domain hickory) :
    domain.updateRecords.Coherent := ⟨rfl, rfl⟩

/-- A change to raw fields other than the name and the records keeps coherence. -/
theorem Domain.Coherent.of_same {domain : Domain hickory} (coherent : domain.Coherent)
    (d : RawDomain) (name : d.name = domain.d.name) (records : d.records = domain.d.records) :
    Domain.Coherent { domain with d := d } := by
  obtain ⟨sameRecords, sameName⟩ := coherent
  refine ⟨sameRecords.trans ?_, sameName.trans ?_⟩
  · simp only [Domain.new, Domain.updateRecords, name, records]
  · simp only [Domain.new, Domain.updateRecords, name]

/-- New raw records under a kept cache are coherent exactly when they compute to
the cache of the records they replace. -/
theorem Domain.Coherent.replace_records_iff {domain : Domain hickory}
    (coherent : domain.Coherent) (owner : UInt64) (records : List UInt8) :
    Domain.Coherent { domain with d := { domain.d with owner := owner, records := records } } ↔
      (cacheOf (fromUtf8Lossy domain.d.name) records : RecordMap hickory) =
        cacheOf (fromUtf8Lossy domain.d.name) domain.d.records := by
  obtain ⟨sameRecords, sameName⟩ := coherent
  constructor
  · rintro ⟨newRecords, _⟩
    exact newRecords.symm.trans sameRecords
  · intro same
    exact ⟨sameRecords.trans same.symm, sameName⟩

end RouteServer.Pns
