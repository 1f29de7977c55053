import ArtifactAudit.NameMap
import ArtifactAudit.Text.Split

/-!
This module contains tries of dotted class names and their compaction: where all classes below a
package have the same label one pattern `package.**` stands for them, and where all classes directly
in a package have the same label one pattern `package.*` does.
-/

namespace ArtifactAudit

/--
The name under which a trie keeps the one label of all classes directly in a package.
-/
def packageWildcard : String := "*"

/--
The name under which a trie keeps the one label of all classes in and below a package.
-/
def subtreeWildcard : String := "**"

/--
A package with the labels of the classes directly in it and with the packages below it. Both lists
are kept in increasing order of the names.
-/
inductive PackageTrie (α : Type) where
  | node (classes : List (String × α)) (packages : List (String × PackageTrie α))

namespace PackageTrie

variable {α : Type}

def empty : PackageTrie α := .node [] []

instance : Inhabited (PackageTrie α) := ⟨empty⟩

def classes : PackageTrie α → List (String × α)
  | .node classes _ => classes

def packages : PackageTrie α → List (String × PackageTrie α)
  | .node _ packages => packages

def insertAt (name : String) (label : α) : List String → PackageTrie α → PackageTrie α
  | [], .node classes packages => .node (NameMap.insertEntry name label classes) packages
  | segment :: path, .node classes packages =>
    -- A package that has no classes yet is not in the trie.
    let package := (packages.lookup segment).getD empty
    .node classes (NameMap.insertEntry segment (insertAt name label path package) packages)

def segments (name : String) : List String × String :=
  let parts := Text.parts '.' name
  (parts.dropLast, parts.getLastD "")

def insert (trie : PackageTrie α) (name : String) (label : α) : PackageTrie α :=
  let (path, simpleName) := segments name
  trie.insertAt simpleName label path

def ofList (entries : List (String × α)) : PackageTrie α :=
  entries.foldl (fun trie entry => trie.insert entry.1 entry.2) empty

mutual

def labels : PackageTrie α → List α
  | .node classes packages => classes.map Prod.snd ++ labelsOfAll packages

def labelsOfAll : List (String × PackageTrie α) → List α
  | [] => []
  | (_, package) :: rest => labels package ++ labelsOfAll rest

end

def single? [DecidableEq α] : List α → Option α
  | [] => none
  | label :: rest => if rest.all (· = label) then some label else none

def collapse [DecidableEq α] (classes : List (String × α))
    (packages : List (String × PackageTrie α)) : PackageTrie α :=
  -- The pattern for everything below a package makes those for single packages needless.
  match single? (labels (.node classes packages)) with
  | some label => .node [(subtreeWildcard, label)] []
  | none =>
    match single? (classes.map Prod.snd) with
    | some label => .node [(packageWildcard, label)] packages
    | none => .node classes packages

mutual

def compact [DecidableEq α] : PackageTrie α → PackageTrie α
  | .node classes packages => collapse classes (compactAll packages)

def compactAll [DecidableEq α] : List (String × PackageTrie α) → List (String × PackageTrie α)
  | [] => []
  | (segment, package) :: rest => (segment, compact package) :: compactAll rest

end

def joinName (package member : String) : String :=
  if package.isEmpty then member else package ++ "." ++ member

mutual

def entriesBelow (name : String) : PackageTrie α → List (String × α)
  | .node classes packages =>
    classes.map (fun entry => (joinName name entry.1, entry.2)) ++ entriesBelowAll name packages

def entriesBelowAll (name : String) : List (String × PackageTrie α) → List (String × α)
  | [] => []
  | (segment, package) :: rest =>
    entriesBelow (joinName name segment) package ++ entriesBelowAll name rest

end

/--
The map of a trie's dotted names. Of two entries with the same dotted name the later one counts.
-/
def flatten (trie : PackageTrie α) : NameMap α :=
  .ofList (trie.entriesBelow "")

/--
The fewest patterns that give each class of a list its label.
-/
def compactEntries [DecidableEq α] (entries : List (String × α)) : NameMap α :=
  (ofList entries).compact.flatten

end PackageTrie

end ArtifactAudit
