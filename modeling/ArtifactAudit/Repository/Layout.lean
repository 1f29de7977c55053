import ArtifactAudit.Coordinate
import ArtifactAudit.Path

/-!
This module contains the layout of repositories, which says where the file of a coordinate is.
-/

namespace ArtifactAudit.Repository

def fileExtension (packaging : String) : String :=
  if packaging = "pom" then "pom" else if packaging = "war" then "war" else "jar"

def fileName (c : Coordinate) : String :=
  c.artifact ++ "-" ++ c.version ++ (if c.classifier.isEmpty then "" else "-" ++ c.classifier) ++
    "." ++ fileExtension c.packaging

def artifactPath (root : Path) (c : Coordinate) : Path :=
  (Text.parts '.' c.group ++ [c.artifact, c.version, fileName c]).foldl Path.child root

end ArtifactAudit.Repository
