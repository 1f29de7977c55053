import ArtifactAudit.DependencySet

/-!
This module contains catalogs, which list summaries by their coordinates.
-/

namespace ArtifactAudit

/--
Some summaries in increasing order of their coordinates, of which no two are the same.
-/
abbrev Catalog := List Summary

namespace Catalog

def insert (summary : Summary) : Catalog → Catalog
  | [] => [summary]
  | other :: rest =>
    if summary.coordinate < other.coordinate then summary :: other :: rest
    else if other.coordinate < summary.coordinate then other :: insert summary rest
    else summary :: rest

def ofList (summaries : List Summary) : Catalog :=
  summaries.foldl (fun catalog summary => insert summary catalog) []

def hasIssues (catalog : Catalog) : Bool :=
  catalog.any Summary.hasIssues

end Catalog

end ArtifactAudit
