/-!
This module contains TOML values and the building of tables from the statements of a document.
-/

namespace ArtifactAudit

inductive Toml.Origin where
  | header
  | implied
  | dotted
  | inline
deriving DecidableEq, Repr

inductive Toml where
  | text (value : String)
  | flag (value : Bool)
  | scalar (written : String)
  | array (items : List Toml)
  | table (origin : Toml.Origin) (entries : List (String × Toml))
  | tables (all : List (List (String × Toml)))

namespace Toml

instance : Inhabited Toml := ⟨.flag false⟩

abbrev Entries := List (String × Toml)

def replace (key : String) (value : Toml) (entries : Entries) : Entries :=
  entries.map fun entry => if entry.1 = key then (key, value) else entry

/--
Adds a key with a value. The key must be new, and the tables that lead to it may only be those of
other dotted keys.
-/
def assign (key : String) (value : Toml) : (path : List String) → Entries → Option Entries
  | [], entries => if (entries.lookup key).isSome then none else some (entries ++ [(key, value)])
  | step :: path, entries =>
    match entries.lookup step with
    | none => do return entries ++ [(step, .table .dotted (← assign key value path []))]
    | some (.table .dotted inner) => do
      return replace step (.table .dotted (← assign key value path inner)) entries
    | some _ => none

/--
Changes the table that some headers lead to, which does not lead through tables that are values.
Where several tables have the same name the last one is meant.
-/
def changeAt (change : Entries → Option Entries) : (path : List String) → Entries → Option Entries
  | [], entries => change entries
  | step :: path, entries =>
    match entries.lookup step with
    | none => do return entries ++ [(step, .table .implied (← changeAt change path []))]
    | some (.table .inline _) => none
    | some (.table origin inner) => do
      return replace step (.table origin (← changeAt change path inner)) entries
    | some (.tables all) => do
      let inner ← changeAt change path (all.getLastD [])
      return replace step (.tables (all.dropLast ++ [inner])) entries
    | some _ => none

def start (key : String) (entries : Entries) : Option Entries :=
  match entries.lookup key with
  | none => some (entries ++ [(key, .table .header [])])
  | some (.table .implied inner) => some (replace key (.table .header inner) entries)
  | some _ => none

def startNext (key : String) (entries : Entries) : Option Entries :=
  match entries.lookup key with
  | none => some (entries ++ [(key, .tables [[]])])
  | some (.tables all) => some (replace key (.tables (all ++ [[]])) entries)
  | some _ => none

inductive Statement where
  | header (path : List String) (key : String)
  | nextHeader (path : List String) (key : String)
  | assignment (path : List String) (key : String) (value : Toml)

def build : (current : List String) → Entries → List Statement → Option Entries
  | _, root, [] => some root
  | _, root, .header path key :: rest => do
    build (path ++ [key]) (← changeAt (start key) path root) rest
  | _, root, .nextHeader path key :: rest => do
    build (path ++ [key]) (← changeAt (startNext key) path root) rest
  | current, root, .assignment path key value :: rest => do
    build current (← changeAt (assign key value path) current root) rest

end Toml

end ArtifactAudit
