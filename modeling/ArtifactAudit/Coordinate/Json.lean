import ArtifactAudit.Coordinate
import ArtifactAudit.Json.Decode

/-!
This module contains the form in which coordinates are stored.
-/

namespace ArtifactAudit.Coordinate

def toJson (c : Coordinate) : Json :=
  .record [("groupId", .text c.group), ("artifactId", .text c.artifact),
    ("version", .text c.version), ("packagingType", .text c.packaging),
    ("classifier", .text c.classifier)]

def ofJson? (value : Json) : Option Coordinate := do
  let names := ["groupId", "artifactId", "version", "packagingType", "classifier"]
  match ← value.fields? names with
  | [some group, some artifact, some version, some packaging, some classifier] =>
    return ⟨← group.toText?, ← artifact.toText?, ← version.toText?, ← packaging.toText?,
      ← classifier.toText?⟩
  | _ => none

end ArtifactAudit.Coordinate
