import ArtifactAudit.CoordinateMap
import ArtifactAudit.Provider

/-!
This module contains inventories, which provide a fixed list of artifacts.
-/

namespace ArtifactAudit

abbrev Inventory := CoordinateMap Artifact

namespace Inventory

def fetch (inventory : Inventory) (c : Coordinate) : Except AuditError Artifact :=
  match inventory.get? c with
  | some artifact => .ok artifact
  | none => .error (.provider c.text .artifactNotFound)

def provider {Memory : Type} (inventory : Inventory) : Provider Memory where
  fetch _ c := ExceptT.mk (pure (inventory.fetch c))
  dependencyList _ document := throw (.invalidInput (.noDependencyLists document))

end Inventory

end ArtifactAudit
