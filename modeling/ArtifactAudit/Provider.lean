import ArtifactAudit.Error
import ArtifactAudit.FileTree

/-!
This module contains providers, which know where the classes of artifacts are and what the artifacts
declare as dependencies.
-/

namespace ArtifactAudit

structure Artifact where
  location : Path
  dependencies : List Coordinate
deriving DecidableEq, Repr, Inhabited

/--
A provider. It may remember what it has read from files between questions.
-/
structure Provider (Memory : Type) where
  fetch : FileTree → Coordinate → ExceptT AuditError (StateM Memory) Artifact
  dependencyList : FileTree → Path → ExceptT AuditError (StateM Memory) (List Coordinate)

end ArtifactAudit
