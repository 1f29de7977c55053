import ArtifactAudit.Coordinate
import ArtifactAudit.UsageMap

/-!
This module contains the summaries of audited artifacts and the sets of them. A set is kept in the
order in which its members came, and of two summaries with the same coordinate the first one counts.
-/

namespace ArtifactAudit

structure Summary where
  coordinate : Coordinate
  declared : List Summary
  /-- The dependencies that the artifact has, directly or through others. -/
  flattened : List Summary
  defined : NameSet
  usages : UsageMap
  unused : List Summary
  /-- The dependencies of which classes are used but which are not declared. -/
  undeclared : List Summary

/--
A set of summaries, of which no two have the same coordinate.
-/
abbrev DependencySet := List Summary

namespace DependencySet

def contains (set : DependencySet) (c : Coordinate) : Bool :=
  set.any (·.coordinate = c)

def get? (set : DependencySet) (c : Coordinate) : Option Summary :=
  set.find? (·.coordinate = c)

def insert (set : DependencySet) (summary : Summary) : DependencySet :=
  if contains set summary.coordinate then set else set ++ [summary]

def insertAll (set : DependencySet) (summaries : List Summary) : DependencySet :=
  summaries.foldl insert set

def ofList (summaries : List Summary) : DependencySet :=
  insertAll [] summaries

def coordinates (set : DependencySet) : List Coordinate :=
  set.map Summary.coordinate

def names (set : DependencySet) : NameSet :=
  .ofList (set.map (·.coordinate.name))

/--
The set with all dependencies of its members: each member is followed by those of its dependencies
that are not there yet.
-/
def closure (set : DependencySet) : DependencySet :=
  set.foldl (fun found summary => insertAll (insert found summary) summary.flattened) []

/--
Whether two sets have members for the same coordinates.
-/
def same (left right : DependencySet) : Bool :=
  left.length == right.length && left.all fun summary => contains right summary.coordinate

end DependencySet

namespace Summary

def hasIssues (summary : Summary) : Bool :=
  !summary.unused.isEmpty || !summary.undeclared.isEmpty

/--
Summaries are told apart by their coordinates alone.
-/
def same (left right : Summary) : Bool :=
  left.coordinate = right.coordinate

end Summary

end ArtifactAudit
