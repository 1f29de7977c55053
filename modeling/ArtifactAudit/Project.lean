import ArtifactAudit.Config
import ArtifactAudit.Pom.Loader
import ArtifactAudit.Provider

/-!
This module contains local projects. The descriptor of a project names the projects that are modules
of it, and these come before it.
-/

namespace ArtifactAudit

inductive CommandResult where
  | success
  | exited (status : Nat)
  | notRunnable (text : String)
deriving DecidableEq, Repr

structure ProjectModule where
  coordinate : Coordinate
  artifact : Artifact
deriving DecidableEq, Repr

structure ProjectBuilder where
  /-- Where parents and imports are looked for that are not in the tree. -/
  repository : Path
  scopes : List String := defaultProjectScopes
  /-- The command that compiles the projects first, with what comes of running it. -/
  command : Option (String × CommandResult) := none
  [listing : Pom.Listing]

namespace ProjectBuilder

open Pom (Loader Loading)

def projectFile (tree : FileTree) (path : Path) : Path :=
  if tree.isDirectory path then path.child Loader.fileName else path

/--
Where the compiled classes of the project in a directory are: in a directory of their own, or in an
archive if there is only that.
-/
def classesOf (tree : FileTree) (directory : Path) (c : Coordinate) : Path :=
  let target := directory.child "target"
  let classes := target.child "classes"
  let archive := target.child (c.artifact ++ "-" ++ c.version ++ ".jar")
  if !tree.isDirectory classes && tree.isFile archive then archive else classes

def directoryOf (file : Path) : Path :=
  file.parent?.getD ⟨"."⟩

def moduleOf (builder : ProjectBuilder) (tree : FileTree) (file : Path) (pom : Pom.Effective) :
    ProjectModule :=
  let location :=
    if pom.coordinate.packaging = "pom" then file
    else classesOf tree (directoryOf file) pom.coordinate
  ⟨pom.coordinate, location, pom.dependenciesIn builder.scopes⟩

structure Walk where
  visited : List Path
  found : List ProjectModule

/--
Reads the project of a file after the modules it names, unless it was met before. Each step goes
down to a module, by a path that was not met before.
-/
def collect (builder : ProjectBuilder) (loader : Loader) :
    (steps : Nat) → Walk → Path → Loading Walk
  | 0, _, file => throw (.build file (.other "too many modules"))
  | steps + 1, walk, file => do
    if file.tidy ∈ walk.visited then return walk
    let walk := { walk with visited := file.tidy :: walk.visited }
    let pom ← loader.loadFile file
    let walk ← pom.modules.foldlM (fun walk name => do
      let child := projectFile loader.tree ((directoryOf file).join ⟨name⟩)
      if loader.tree.isFile child then builder.collect loader steps walk child
      else throw (.build file (.moduleWithoutFile name))) walk
    return { walk with found := walk.found ++ [builder.moduleOf loader.tree file pom] }

/--
How many modules can be met in a row. Their paths are different ones, and each place of a path that
can be used holds a byte or nothing.
-/
def rowLimit : Nat :=
  Nat.pow 257 FileTree.pathLimit

def compile (builder : ProjectBuilder) (file : Path) : Except AuditError Unit :=
  match builder.command with
  | none | some (_, .success) => .ok ()
  | some (command, .exited status) => .error (.build file (.exited command status))
  | some (command, .notRunnable text) => .error (.build file (.notRunnable command text))

def loaderOf (builder : ProjectBuilder) (tree : FileTree) : Loader :=
  { tree, repository := builder.repository, listing := builder.listing }

def build (builder : ProjectBuilder) (tree : FileTree) (project : Path) :
    Except AuditError (List ProjectModule) := do
  let file := projectFile tree project
  if !tree.isFile file then throw (.build project .noProjectFile)
  builder.compile file
  let walk := builder.collect (builder.loaderOf tree) rowLimit ⟨[], []⟩ file
  return (← (walk.run []).1).found

end ProjectBuilder

end ArtifactAudit
