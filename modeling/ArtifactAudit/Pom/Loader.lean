import ArtifactAudit.FileTree
import ArtifactAudit.Pom.Effective
import ArtifactAudit.Repository.Layout

/-!
This module contains the loading of effective descriptors from files. Parents and imports are looked
for in the project and in a repository. A descriptor that has been loaded is not read again.
-/

namespace ArtifactAudit.Pom

abbrev Memo := List (List String × Effective)

abbrev Loading (α : Type) := ExceptT AuditError (StateM Memo) α

/--
The orders in which tables list their entries. A loader makes the table of a file once, so an order is
told by where the file is. No more is known of it than that it is an order of the entries. Where it is
not given the entries are listed by their names.
-/
class Listing where
  entries : (location : List String) → Management → List ((String × String) × Managed)
  perm : ∀ location table, (entries location table).Perm table.entries

instance : Listing where
  entries _ table := table.entries
  perm _ _ := .rfl

structure Loader where
  tree : FileTree
  repository : Path
  [listing : Listing]

namespace Loader

def pathOf (loader : Loader) (group artifact version : String) : Path :=
  Repository.artifactPath loader.repository (.withPackaging group artifact version "pom")

def fileName : String := "pom.xml"

/--
Where the parent of a descriptor is if not in the repository and if nothing else is said.
-/
def defaultParentPath : String := "../pom.xml"

def parentFile? (loader : Loader) (path : Path) (parent : Parent) : Option Path :=
  let relative := parent.relativePath.getD defaultParentPath
  if relative.isEmpty then none
  else
    let found := (path.parent?.getD ⟨"."⟩).join ⟨relative⟩
    let file := if loader.tree.isDirectory found then found.child fileName else found
    if loader.tree.isFile file then some file else none

/--
The parent of the descriptor at a path. A file in the project counts only if it has the parent's
group and artifact.
-/
def parentOf (loader : Loader) (load : Path → Loading Effective) (path : Path) (parent : Parent) :
    Loading Effective := do
  if let some file := loader.parentFile? path parent then
    -- A file that cannot be loaded is a failure even if it is not the parent.
    let found ← load file
    if found.coordinate.group = parent.group && found.coordinate.artifact = parent.artifact then
      return found
  let published := loader.pathOf parent.group parent.artifact parent.version
  if loader.tree.exists? published then load published
  else
    let c := Coordinate.withPackaging parent.group parent.artifact parent.version "pom"
    throw (.provider c.text (.parentNotFound published))

/--
Whether an entry stands for all that another descriptor says about dependencies.
-/
def isImport (entry : RawDependency) : Bool :=
  entry.packaging.any (Text.lowerAscii · == "pom") &&
    entry.scope.any (Text.lowerAscii · == "import")

def listed (loader : Loader) (path : Path) (found : Effective) : List ((String × String) × Managed) :=
  loader.listing.entries ((loader.tree.locate? path).getD []) found.management

def rawOf (entry : (String × String) × Managed) : RawDependency where
  group := some entry.1.1
  artifact := some entry.1.2
  version := some entry.2.version
  scope := entry.2.scope
  classifier := entry.2.classifier

/--
The entries that an entry of a project stands for: those of another descriptor if it is an import,
and itself if not.
-/
def expandImport (loader : Loader) (load : Path → Loading Effective) (c : Coordinate)
    (properties : Properties) (entry : RawDependency) : Loading (List RawDependency) := do
  if !isImport entry then return [entry]
  let (group, artifact) ← liftExcept (nameOf c properties entry)
  match resolve? properties entry.version with
  | none => throw (.provider c.text (.importWithoutVersion group artifact))
  | some version =>
    let published := loader.pathOf group artifact version
    if loader.tree.exists? published then
      return (loader.listed published (← load published)).map rawOf
    else
      let imported := Coordinate.withPackaging group artifact version "pom"
      throw (.provider imported.text (.importNotFound published))
where
  liftExcept {α : Type} (result : Except AuditError α) : Loading α := ExceptT.mk (pure result)

def modelAt (loader : Loader) (path : Path) : Except AuditError Model :=
  match loader.tree.readText? path with
  | none => .error (.provider path.text (.unreadableDescriptor "not a readable text"))
  | some text =>
    match Model.parse text with
    | .ok model => .ok model
    | .error cause => .error (.provider path.text cause)

def effective (loader : Loader) (load : Path → Loading Effective) (path : Path) (model : Model) :
    Loading Effective := do
  let parent ← model.parent.mapM (loader.parentOf load path)
  let c ← ExceptT.mk (pure (coordinateOf path model parent))
  let properties := propertiesOf c model parent
  let management ← model.management.mapM (loader.expandImport load c properties)
  let complete := { model with management := management.flatten }
  ExceptT.mk (pure (Effective.ofModel c properties complete parent))

/--
Loads the descriptor at a path while others are being loaded, which must not need each other. Each
step adds a file to those.
-/
def loadWithin (loader : Loader) :
    (steps : Nat) → (visiting : List (List String)) → Path → Loading Effective
  | 0, _, path => throw (.provider path.text .descriptorCycle)
  | steps + 1, visiting, path => do
    match loader.tree.locate? path with
    | none => throw (.provider path.text (.unreadableDescriptor "not found"))
    | some location =>
      if let some found := (← get).lookup location then return found
      if location ∈ visiting then throw (.provider path.text .descriptorCycle)
      let model ← ExceptT.mk (pure (loader.modelAt path))
      let found ← loader.effective (loader.loadWithin steps (location :: visiting)) path model
      modify ((location, found) :: ·)
      return found

/--
Loads the descriptor at a path. The files that are being loaded at a time are different ones, so
their number bounds the steps.
-/
def loadFile (loader : Loader) (path : Path) : Loading Effective :=
  loader.loadWithin (loader.tree.root.fileCount + 2) [] path

def load (loader : Loader) (c : Coordinate) : Loading Effective := do
  let path := loader.pathOf c.group c.artifact c.version
  if loader.tree.exists? path then loader.loadFile path
  else throw (.provider c.text (.noDescriptor path))

end Loader

end ArtifactAudit.Pom
