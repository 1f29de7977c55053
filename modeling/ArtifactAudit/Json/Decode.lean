import ArtifactAudit.Json
import ArtifactAudit.NameMap

/-!
This module contains the reading of JSON values as values of other kinds.
-/

namespace ArtifactAudit.Json

def toText? : Json → Option String
  | .string s => s
  | _ => none

def toBool? : Json → Option Bool
  | .bool value => some value
  | _ => none

def toNat? (bound : Nat) : Json → Option Nat
  | .number (.ofNat n) => if n < bound then some n else none
  | _ => none

def toList? {α : Type} (read : Json → Option α) : Json → Option (List α)
  | .array items => items.mapM read
  | _ => none

def toNameSet? (value : Json) : Option NameSet :=
  (value.toList? toText?).map .ofList

def toNameMap? {α : Type} (read : Json → Option α) : Json → Option (NameMap α)
  | .object members => do
    return .ofList (← members.mapM fun member => do return (← member.1, ← read member.2))
  | _ => none

/--
The values of the fields of a structure: the members of an object, where other members do not count
but no field may be given twice, or the items of an array in the order of the fields. What is left
out has no value.
-/
def fields? (names : List String) : Json → Option (List (Option Json))
  | .object members => do
    let members ← members.mapM fun member => do return (← member.1, member.2)
    names.mapM fun name =>
      match members.filter (·.1 == name) with
      | [] => some none
      | [member] => some (some member.2)
      -- The field is given twice.
      | _ => none
  | .array items =>
    if names.length < items.length then none
    else some (items.map some ++ List.replicate (names.length - items.length) none)
  | _ => none

def ofNameMap {α : Type} (write : α → Json) (map : NameMap α) : Json :=
  .record (map.entries.map fun entry => (entry.1, write entry.2))

def ofNameSet (set : NameSet) : Json :=
  .texts set.names

end ArtifactAudit.Json
