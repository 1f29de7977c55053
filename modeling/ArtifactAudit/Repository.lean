import ArtifactAudit.Config
import ArtifactAudit.Pom.Loader
import ArtifactAudit.Provider

/-!
This module contains repositories as providers: the classes of an artifact are in its file, and its
dependencies are in its descriptor. Nothing is fetched from elsewhere.
-/

namespace ArtifactAudit

structure Repository where
  root : Path
  scopes : List String := defaultArtifactScopes
  listScopes : List String := defaultProjectScopes
  [listing : Pom.Listing]

namespace Repository

def defaultRoot (home : Path) : Path :=
  (home.child ".m2").child "repository"

def pathOf (repository : Repository) (c : Coordinate) : Path :=
  artifactPath repository.root c

def loader (repository : Repository) (tree : FileTree) : Pom.Loader :=
  { tree, repository := repository.root, listing := repository.listing }

def fetch (repository : Repository) (tree : FileTree) (c : Coordinate) : Pom.Loading Artifact := do
  let location := repository.pathOf c
  if tree.exists? location then
    let pom ← (repository.loader tree).load c
    return ⟨location, pom.dependenciesIn repository.scopes⟩
  else throw (.provider c.text (.artifactNotFoundAt location))

def dependencyList (repository : Repository) (tree : FileTree) (document : Path) :
    Pom.Loading (List Coordinate) := do
  return (← (repository.loader tree).loadFile document).dependenciesIn repository.listScopes

def provider (repository : Repository) : Provider Pom.Memo where
  fetch := repository.fetch
  dependencyList := repository.dependencyList

end Repository

end ArtifactAudit
