import ArtifactAudit.Coordinate.Json
import ArtifactAudit.DependencySet

/-!
This module contains the records in which summaries are stored. A record names the dependencies of
an artifact by their coordinates, so their summaries have to be there before the one of the artifact
can be completed.
-/

namespace ArtifactAudit

structure RecordMetadata where
  cacheVersion : Nat
  toolVersion : String
  createdAt : Nat
deriving DecidableEq, Repr

namespace RecordMetadata

def currentVersion : Nat := 2

def currentTool : String := "0.1.0"

def current (createdAt : Nat) : RecordMetadata := ⟨currentVersion, currentTool, createdAt⟩

def absent : RecordMetadata := ⟨0, "", 0⟩

def compatible (metadata : RecordMetadata) : Bool :=
  metadata.cacheVersion == currentVersion

def toJson (metadata : RecordMetadata) : Json :=
  .record [("cache_version", .number metadata.cacheVersion),
    ("tool_version", .text metadata.toolVersion),
    ("created_at", .number metadata.createdAt)]

def ofJson? (value : Json) : Option RecordMetadata := do
  match ← value.fields? ["cache_version", "tool_version", "created_at"] with
  | [some version, some tool, time] =>
    return ⟨← version.toNat? UInt32.size, ← tool.toText?,
      ← time.elim (some 0) (Json.toNat? UInt64.size)⟩
  | _ => none

end RecordMetadata

structure DependencyRecord where
  coordinate : Coordinate
  /-- Whether the artifact has the dependency only through others. -/
  transitive : Bool
deriving DecidableEq, Repr

namespace DependencyRecord

def toJson (dependency : DependencyRecord) : Json :=
  .record [("coordinate", dependency.coordinate.toJson),
    ("transitive", .bool dependency.transitive)]

def ofJson? (value : Json) : Option DependencyRecord := do
  match ← value.fields? ["coordinate", "transitive"] with
  | [some coordinate, some transitive] =>
    return ⟨← Coordinate.ofJson? coordinate, ← transitive.toBool?⟩
  | _ => none

end DependencyRecord

/--
The stored form of a summary. Unused and undeclared dependencies are stored by the names of their
artifacts.
-/
structure Record where
  metadata : RecordMetadata
  coordinate : Coordinate
  classes : NameSet
  usages : UsageMap
  unused : NameSet
  undeclared : NameSet
  dependencies : List DependencyRecord
deriving DecidableEq

namespace Record

def ofSummary (createdAt : Nat) (summary : Summary) : Record where
  metadata := .current createdAt
  coordinate := summary.coordinate
  classes := summary.defined
  usages := summary.usages
  unused := DependencySet.names summary.unused
  undeclared := DependencySet.names summary.undeclared
  dependencies := summary.flattened.map fun d =>
    ⟨d.coordinate, !DependencySet.contains summary.declared d.coordinate⟩

def direct (record : Record) : List Coordinate :=
  (record.dependencies.filter (!·.transitive)).map (·.coordinate)

def complete (record : Record) (declared : DependencySet) : Summary :=
  let flattened := DependencySet.closure declared
  { coordinate := record.coordinate
    declared
    flattened
    defined := record.classes
    usages := record.usages
    unused := declared.filter fun d => d.coordinate.name ∈ record.unused
    -- A declared dependency is never undeclared, whatever the record says.
    undeclared := flattened.filter fun d =>
      !DependencySet.contains declared d.coordinate && d.coordinate.name ∈ record.undeclared }

def toJson (record : Record) : Json :=
  .record [("metadata", record.metadata.toJson), ("coordinate", record.coordinate.toJson),
    ("classes", .ofNameSet record.classes), ("usages", .ofNameMap .ofNameSet record.usages),
    ("unused", .ofNameSet record.unused), ("undeclared", .ofNameSet record.undeclared),
    ("dependencies", .array (record.dependencies.map DependencyRecord.toJson))]

def ofJson? (value : Json) : Option Record := do
  let names := ["metadata", "coordinate", "classes", "usages", "unused", "undeclared",
    "dependencies"]
  match ← value.fields? names with
  | [metadata, some coordinate, some classes, some usages, some unused, some undeclared,
      some dependencies] =>
    return {
      metadata := ← metadata.elim (some .absent) RecordMetadata.ofJson?
      coordinate := ← Coordinate.ofJson? coordinate
      classes := ← classes.toNameSet?
      usages := ← usages.toNameMap? Json.toNameSet?
      unused := ← unused.toNameSet?
      undeclared := ← undeclared.toNameSet?
      dependencies := ← dependencies.toList? DependencyRecord.ofJson? }
  | _ => none

end Record

end ArtifactAudit
