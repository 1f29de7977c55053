import ArtifactAudit.Repository
import ArtifactAudit.Resolver

/-!
This module contains the settings of audits, and audits of the three kinds of targets.
-/

namespace ArtifactAudit

structure Environment where
  home : Option Path := none
  time : Nat := 0
  /-- What the names of files that are being written are marked with. -/
  mark : String := "0.0"
  run : String → CommandResult := fun _ => .notRunnable "not found"
  [listing : Pom.Listing]

structure Settings where
  repository : Option Path := none
  /-- The directory of the cache, if it is not in the repository. -/
  cacheDirectory : Option Path := none
  useCache : Bool := true
  skipDebug : Bool := false
  artifactScopes : List String := defaultArtifactScopes
  /-- The scopes that are taken from local modules and dependency lists. -/
  projectScopes : List String := defaultProjectScopes
  compile : Bool := false
deriving DecidableEq, Repr

inductive Target where
  /-- A published artifact, given by the text of its coordinate. -/
  | coordinate (text : String)
  | dependencyList (document : Path)
  | project (path : Path)
deriving DecidableEq, Repr

namespace Settings

def ofConfig (config : Config) : Settings where
  repository := config.repository
  cacheDirectory := config.cacheDirectory
  useCache := config.cacheEnabled
  skipDebug := config.skipDebug
  artifactScopes := config.artifactScopes
  projectScopes := config.projectScopes

def compileCommand : String := "mvn"

def repositoryRoot (settings : Settings) (environment : Environment) : Except AuditError Path :=
  match settings.repository <|> environment.home.map Repository.defaultRoot with
  | some root => .ok root
  | none => .error (.invalidInput .noRepository)

def cache (settings : Settings) (environment : Environment) (repository : Path) : Option Cache :=
  if settings.useCache then
    some {
      directory := settings.cacheDirectory.getD (Cache.inRepository repository)
      time := environment.time
      mark := environment.mark }
  else none

def resolver (settings : Settings) (environment : Environment) (tree : FileTree) :
    Except AuditError (Resolver Pom.Memo) := do
  let root ← settings.repositoryRoot environment
  let repository : Repository := {
    root
    scopes := settings.artifactScopes
    listScopes := settings.projectScopes
    listing := environment.listing }
  return {
    provider := repository.provider
    memory := []
    tree
    cache := settings.cache environment root
    skipDebug := settings.skipDebug }

def modules (settings : Settings) (environment : Environment) (tree : FileTree) (path : Path) :
    Except AuditError (List ProjectModule) := do
  let builder : ProjectBuilder := {
    repository := ← settings.repositoryRoot environment
    scopes := settings.projectScopes
    command :=
      if settings.compile then some (compileCommand, environment.run compileCommand) else none
    listing := environment.listing }
  builder.build tree path

def audit (settings : Settings) (environment : Environment) (tree : FileTree) :
    Target → Except AuditError (Resolving Pom.Memo Unit)
  | .coordinate text => do
    let c ← Coordinate.parse text
    return discard (Resolver.addRoot c)
  | .dependencyList document => return Resolver.addDependencyList document
  | .project path => return Resolver.addModules (← settings.modules environment tree path)

def run (settings : Settings) (environment : Environment) (tree : FileTree) (target : Target) :
    Except AuditError (Resolver Pom.Memo) × FileTree :=
  -- What is wrong with the target is found before anything else.
  let start : Except AuditError (Resolving Pom.Memo Unit × Resolver Pom.Memo) := do
    let audit ← settings.audit environment tree target
    return (audit, ← settings.resolver environment tree)
  match start with
  | .error error => (.error error, tree)
  | .ok (audit, resolver) =>
    let (result, resolver) := audit.run resolver
    (result.map fun _ => resolver, resolver.tree)

end Settings

end ArtifactAudit
