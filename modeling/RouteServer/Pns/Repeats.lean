import RouteServer.Pns.Events

/-!
# Events that are applied twice

A reload returns the state of the contract at some block. An event from before that block
may still be delivered, and then meets a table that reflects it already: the entry that it
assigns has the values that it carries. Four of the events assign just these values or
remove, and change nothing. A registration also assigns what it does not carry, no
subdomains and no blacklisting, and forgets what has happened since. The creation of a
subdomain adds one to the count of its parent, so it counts twice whenever the parent is in
the table.
-/

namespace RouteServer.Pns

open Rust

variable {hickory : Hickory}

/-- The number of subdomain entries of a domain. -/
def subdomainEntries (units : Table hickory) (parentId : UInt64) : Nat :=
  units.entries.countP fun entry =>
    entry.2.d.subdomains == 0xff && entry.2.d.owner == parentId

/-- The table reflects an event: the entry it is about has the values the event carries,
with the cached values that belong to them, or is gone. -/
def Reflects (event : ContractEvent) (units : Table hickory) : Prop :=
  match event with
  | .register id lockupId name records =>
    ∃ domain, units.lookup id = some domain ∧ domain.id = id ∧ domain.Coherent ∧
      domain.d.owner = lockupId ∧ domain.d.name = name ∧ domain.d.records = records
  | .updateRecords id records =>
    ∃ domain, units.lookup id = some domain ∧ domain.Coherent ∧ domain.d.records = records
  | .takeover id newLockupId records =>
    ∃ domain, units.lookup id = some domain ∧ domain.d.owner = newLockupId ∧
      domain.d.records = records
  | .createSubdomain id parentId name records =>
    ∃ domain, units.lookup id = some domain ∧ domain.id = id ∧ domain.Coherent ∧
      domain.d.owner = parentId ∧ domain.d.name = name ∧ domain.d.records = records ∧
      domain.d.subdomains = 0xff
  | .destroy id => units.lookup id = none
  | .blacklist id isBlacklisted =>
    ∃ domain, units.lookup id = some domain ∧ domain.d.blacklisted = isBlacklisted

/-- Tables with the same entries. -/
def Same (units others : Table hickory) : Prop := ∀ id, others.lookup id = units.lookup id

/-- The contract after the creation of the subdomain 2 of the domain 1. -/
def snapshot : List RawDomain :=
  [{ owner := 0, name := [], records := [], subdomains := 0, blacklisted := false },
    { owner := 5, name := [99, 106, 100], records := [], subdomains := 1, blacklisted := false },
    { owner := 1, name := [97], records := [], subdomains := 0xff, blacklisted := false }]

/-- The table after a reload that saw it. -/
def reloaded : Table plainNames := getAllDomains 3 fun _ => snapshot

/-- The creation that the snapshot includes. -/
def created : ContractEvent := .createSubdomain 2 1 [97] []

/-- The registration that the snapshot includes. -/
def registered : ContractEvent := .register 1 5 [99, 106, 100] []

/-- The registration of the parent is delivered to that table. The parent counts no
subdomains and has one, and when that one is destroyed the parent looks like a subdomain. -/
theorem registered_again_forgets :
    Reflects registered reloaded ∧
      ((handle registered reloaded).1.lookup 1).map (fun domain => domain.d.subdomains) =
        some 0 ∧
      subdomainEntries (handle registered reloaded).1 1 = 1 ∧
      ((handle (.destroy 2) (handle registered reloaded).1).1.lookup 1).map
        (fun domain => domain.d.subdomains) = some 0xff := by
  refine ⟨⟨_, rfl, rfl, ⟨rfl, rfl⟩, rfl, rfl, rfl⟩, ?_, ?_, ?_⟩
  · decide +kernel
  · decide +kernel
  · decide +kernel

end RouteServer.Pns
