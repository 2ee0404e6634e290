import RouteServer.Bencode.Dict

/-!
# Repairing the order of lists

Configurations that were read by an older parser have all their lists in reverse order.
The order is told by the security settings, whose last item says that the setup is
complete: where it comes first, all lists are reversed again. The code asks for a
dictionary under that key, but its value is a number, so the lookup fails and nothing is
repaired. The repair itself, which is then never reached, would give the configuration back.
-/

namespace RouteServer.Bencode

open Rust

/-- Why a configuration is not checked. -/
inductive ConfError where
  | incorrectType
  | expectedDict
  | expectedList
deriving DecidableEq

/-- The message of an error. -/
def ConfError.message : ConfError → String
  | incorrectType => "Incorrect type"
  | expectedDict => "Expected dict as first item in security list"
  | expectedList => "Expected list as security field"

/-- `TryFrom` for a dictionary. -/
def Object.intoDict (obj : Object) : Except ConfError Dict :=
  obj.asDict.mapError fun _ => .incorrectType

/-- `TryFrom` for a list. -/
def Object.intoList (obj : Object) : Except ConfError (List Object) :=
  obj.asList.mapError fun _ => .incorrectType

/-- The keys that are read. -/
def securityKey : Bstr := ⟨[115, 101, 99, 117, 114, 105, 116, 121], by decide⟩
def setupCompleteKey : Bstr :=
  ⟨[115, 101, 116, 117, 112, 67, 111, 109, 112, 108, 101, 116, 101], by decide⟩

mutual

/-- `conf_fix_list_order_quirk`. -/
def confFixListOrderQuirk : Object → Except ConfError Object
  | .dict d => do
    let d ← fixValues d
    return .dict d
  | .list l => do
    let l ← fixItems l
    return .list l.reverse
  | .bytes content => .ok (.bytes content)
  | .integer number => .ok (.integer number)

/-- The loop over the values of a dictionary. -/
def fixValues : Dict → Except ConfError Dict
  | [] => .ok []
  | (key, value) :: rest => do
    let value ← confFixListOrderQuirk value
    let rest ← fixValues rest
    return (key, value) :: rest

/-- The loop over the items of a list. -/
def fixItems : List Object → Except ConfError (List Object)
  | [] => .ok []
  | item :: rest => do
    let item ← confFixListOrderQuirk item
    let rest ← fixItems rest
    return item :: rest

end

/-- `should_swap`: what the first of the security settings says. -/
def shouldSwap (conf : Dict) : Except ConfError Bool :=
  match tryGet Object.intoList (OrderedMap.get securityKey conf) with
  | .ok (some security) =>
    match tryGet Object.intoDict security[0]? with
    | .ok (some first) =>
      Option.isSome <$> tryGet Object.intoDict (OrderedMap.get setupCompleteKey first)
    | _ => .error .expectedDict
  | _ => .error .expectedList

/-- `conf_check_fix_list_order_quirk`. -/
def confCheckFixListOrderQuirk (conf : Dict) : Except ConfError Dict := do
  if ← shouldSwap conf then fixValues conf else return conf

mutual

/-- Every list of the object, at every depth, the other way round. -/
def Object.reversed : Object → Object
  | .bytes content => .bytes content
  | .dict entries => .dict (reversedEntries entries)
  | .integer number => .integer number
  | .list items => .list (reversedItems items).reverse

/-- The items of a list, each reversed. -/
def reversedItems : List Object → List Object
  | [] => []
  | item :: rest => item.reversed :: reversedItems rest

/-- The values of a dictionary, each reversed. -/
def reversedEntries : Dict → Dict
  | [] => []
  | (key, value) :: rest => (key, value.reversed) :: reversedEntries rest

end

/-- The items of a reversed list are reversed themselves, one by one. -/
theorem reversedItems_eq (items : List Object) :
    reversedItems items = items.map Object.reversed := by
  induction items with
  | nil => rfl
  | cons item rest inductionHypothesis =>
    rw [reversedItems, inductionHypothesis, List.map_cons]

/-- A dictionary is reversed in its values. -/
theorem reversedEntries_eq (entries : Dict) :
    reversedEntries entries = entries.map (fun entry => (entry.1, entry.2.reversed)) := by
  induction entries with
  | nil => rfl
  | cons entry rest inductionHypothesis =>
    rw [reversedEntries, inductionHypothesis, List.map_cons]

/-- Reversing twice gives the object back. -/
theorem Object.reversed_reversed (object : Object) : object.reversed.reversed = object := by
  induction object using Object.tree_induction with
  | bytes content => rfl
  | integer number => rfl
  | list items each =>
    have back : items.map (fun item => item.reversed.reversed) = items :=
      (List.map_congr_left each).trans (List.map_id _)
    rw [Object.reversed, Object.reversed, reversedItems_eq, reversedItems_eq, List.map_reverse,
      List.reverse_reverse, List.map_map]
    exact congrArg Object.list back
  | dict entries each =>
    have back : entries.map (fun entry => (entry.1, entry.2.reversed.reversed)) = entries :=
      (List.map_congr_left fun entry member =>
        congrArg (Prod.mk entry.1) (each entry member)).trans (List.map_id _)
    rw [Object.reversed, Object.reversed, reversedEntries_eq, reversedEntries_eq, List.map_map]
    exact congrArg Object.dict back

/-- Reversing twice gives the dictionary back, value by value. -/
theorem reversedEntries_reversed (conf : Dict) : reversedEntries (reversedEntries conf) = conf := by
  have whole := Object.reversed_reversed (.dict conf)
  rw [Object.reversed, Object.reversed] at whole
  exact Object.dict.inj whole

/-- A value of a reversed dictionary is the reversed value. -/
theorem get_reversedEntries (key : Bstr) (conf : Dict) :
    OrderedMap.get key (reversedEntries conf) = (OrderedMap.get key conf).map Object.reversed := by
  induction conf with
  | nil => rfl
  | cons entry rest inductionHypothesis =>
    obtain ⟨present, value⟩ := entry
    rw [reversedEntries, OrderedMap.get, OrderedMap.get]
    split
    · rfl
    · exact inductionHypothesis

/-- If every item is repaired by reversing it, so are all of them, by induction on the list. -/
theorem fixItems_eq {items : List Object}
    (each : ∀ item ∈ items, confFixListOrderQuirk item = .ok item.reversed) :
    fixItems items = .ok (reversedItems items) := by
  induction items with
  | nil => rfl
  | cons item rest inductionHypothesis =>
    obtain ⟨first, others⟩ := List.forall_mem_cons.mp each
    rw [fixItems, first, inductionHypothesis others]
    rfl

/-- If every value is repaired by reversing it, so is the dictionary, by induction on the entries.
-/
theorem fixValues_eq {entries : Dict}
    (each : ∀ entry ∈ entries, confFixListOrderQuirk entry.2 = .ok entry.2.reversed) :
    fixValues entries = .ok (reversedEntries entries) := by
  induction entries with
  | nil => rfl
  | cons entry rest inductionHypothesis =>
    obtain ⟨first, others⟩ := List.forall_mem_cons.mp each
    rw [fixValues, first, inductionHypothesis others]
    rfl

/-- The repair reverses, and never fails. -/
theorem confFixListOrderQuirk_eq (conf : Object) :
    confFixListOrderQuirk conf = .ok conf.reversed := by
  induction conf using Object.tree_induction with
  | bytes content => rfl
  | integer number => rfl
  | list items each =>
    rw [confFixListOrderQuirk, fixItems_eq each]
    rfl
  | dict entries each =>
    rw [confFixListOrderQuirk, fixValues_eq each]
    rfl

/-- With a dictionary in front, whether to swap depends on its entry for the complete setup alone.
-/
theorem shouldSwap_eq {conf first : Dict} {others : List Object}
    (security : OrderedMap.get securityKey conf = some (.list (.dict first :: others))) :
    shouldSwap conf =
      Option.isSome <$> tryGet Object.intoDict (OrderedMap.get setupCompleteKey first) := by
  rw [shouldSwap, security]
  rfl

/-- The security settings are dictionaries, at least two, and the last of them alone has
the number that tells the order. -/
def SetUpLast (conf : Dict) : Prop :=
  ∃ (front : List Dict) (last : Dict) (number : Int64), front ≠ [] ∧
    OrderedMap.get securityKey conf = some (.list (front.map Object.dict ++ [.dict last])) ∧
    (∀ item ∈ front, OrderedMap.get setupCompleteKey item = none) ∧
    OrderedMap.get setupCompleteKey last = some (.integer number)

/-- A configuration is given back from its reversed form, and left as it is itself. -/
def Repaired (conf : Dict) : Prop :=
  confCheckFixListOrderQuirk (reversedEntries conf) = .ok conf ∧
    confCheckFixListOrderQuirk conf = .ok conf

/-- Where the check of the reversed dictionary fails it is not repaired. -/
theorem not_repaired {conf : Dict} {fault : ConfError}
    (fails : confCheckFixListOrderQuirk (reversedEntries conf) = .error fault) :
    ¬ Repaired conf := by
  rintro ⟨repaired, -⟩
  cases fails.symm.trans repaired

/-- The check fails on the reversed form of every configuration, although what it would go
on with is the repair. The configuration itself is left as it is.

Proof: reversing brings the last item to the front, with a number where the check asks for a
dictionary. Reversing twice gives the configuration back. -/
theorem reversed_never_repaired {conf : Dict} (setUp : SetUpLast conf) :
    ¬ Repaired conf ∧
      confCheckFixListOrderQuirk (reversedEntries conf) = .error .incorrectType ∧
      fixValues (reversedEntries conf) = .ok conf ∧
      confCheckFixListOrderQuirk conf = .ok conf := by
  obtain ⟨front, last, number, several, security, without, complete⟩ := setUp
  have undone : fixValues (reversedEntries conf) = .ok conf := by
    rw [fixValues_eq fun entry _ => confFixListOrderQuirk_eq entry.2, reversedEntries_reversed]
  have fails : confCheckFixListOrderQuirk (reversedEntries conf) = .error .incorrectType := by
    -- the last item comes first, with a number where a dictionary is asked for
    have securityReversed : OrderedMap.get securityKey (reversedEntries conf) =
        some (.list (.dict (reversedEntries last) ::
          (reversedItems (front.map Object.dict)).reverse)) := by
      rw [get_reversedEntries, security, Option.map_some, Object.reversed, reversedItems_eq,
        List.map_append, List.reverse_append, reversedItems_eq]
      rfl
    rw [confCheckFixListOrderQuirk, shouldSwap_eq securityReversed, get_reversedEntries, complete]
    rfl
  have unchanged : confCheckFixListOrderQuirk conf = .ok conf := by
    obtain _ | ⟨first, rest⟩ := front
    · exact absurd rfl several
    rw [confCheckFixListOrderQuirk, shouldSwap_eq security, without first List.mem_cons_self]
    rfl
  exact ⟨not_repaired fails, fails, undone, unchanged⟩

/-- Settings with two items, the second of which says that the setup is complete. -/
def twoSettings : Dict :=
  [(securityKey, .list [.dict [(⟨[107], by decide⟩, .integer 3)],
    .dict [(setupCompleteKey, .integer 1)]])]

/-- The sample has its complete setup in the last item. -/
theorem twoSettings_setUp : SetUpLast twoSettings :=
  ⟨[[(⟨[107], by decide⟩, .integer 3)]], [(setupCompleteKey, .integer 1)], 1, by decide, rfl,
    by decide +kernel, rfl⟩

/-- The check fails on these settings in reversed order. -/
theorem two_settings_fail :
    SetUpLast twoSettings ∧
      confCheckFixListOrderQuirk (reversedEntries twoSettings) = .error .incorrectType ∧
      ¬ Repaired twoSettings := by
  have fails : confCheckFixListOrderQuirk (reversedEntries twoSettings) =
      .error .incorrectType := rfl
  exact ⟨twoSettings_setUp, fails, not_repaired fails⟩

/-- In the wrong order the check of these settings fails, although the repair would put the order
right; in the right order it leaves them alone. -/
theorem two_settings_never_repaired :
    ¬ Repaired twoSettings ∧
      confCheckFixListOrderQuirk (reversedEntries twoSettings) = .error .incorrectType ∧
      fixValues (reversedEntries twoSettings) = .ok twoSettings ∧
      confCheckFixListOrderQuirk twoSettings = .ok twoSettings :=
  reversed_never_repaired twoSettings_setUp

end RouteServer.Bencode
