import ArtifactAudit.PackageTrie

/-!
This module contains usage maps, which tell for class names and for patterns of class names by which
artifacts the classes are provided.
-/

namespace ArtifactAudit

/--
The names of the artifacts that provide the classes of a pattern. Classes of the runtime have none.
-/
abbrev UsageMap := NameMap NameSet

namespace UsageMap

def pattern (package : List String) (wildcard : String) : String :=
  ".".intercalate (package ++ [wildcard])

def enclosing (package : List String) : List (List String) :=
  (List.range (package.length + 1)).reverse.map package.take

/--
The artifacts that provide a class. The class itself counts before its package, its package before
the packages that enclose it, and an inner one of these before an outer one.
-/
def lookup (map : UsageMap) (className : String) : Option NameSet :=
  let package := (PackageTrie.segments className).1
  (map.get? className).or <|
    (map.get? (pattern package packageWildcard)).or <|
      (enclosing package).findSome? fun outer => map.get? (pattern outer subtreeWildcard)

/--
The patterns by the artifacts that provide them, in increasing order of the sets of artifacts. The
patterns of the runtime come last.
-/
def groups (map : UsageMap) : List (NameSet × List String) :=
  let origins := (map.entries.map Prod.snd).eraseDups.mergeSort fun a b => !decide (b < a)
  -- The empty set stands for the runtime.
  let (runtime, provided) := origins.partition NameSet.isEmpty
  (provided ++ runtime).map fun set =>
    (set, (map.entries.filter fun entry => entry.2 = set).map Prod.fst)

end UsageMap

end ArtifactAudit
