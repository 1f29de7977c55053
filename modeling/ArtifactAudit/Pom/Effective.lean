import ArtifactAudit.Pom.Management
import ArtifactAudit.Pom.Model

/-!
This module contains effective descriptors, in which everything is inherited, interpolated and
filled in that a descriptor leaves to others.
-/

namespace ArtifactAudit.Pom

structure Dependency where
  coordinate : Coordinate
  scope : String
  isOptional : Bool
deriving DecidableEq, Repr

structure Effective where
  coordinate : Coordinate
  properties : Properties
  management : Management
  dependencies : List Dependency
  modules : List String
deriving DecidableEq

def defaultScope : String := "compile"

def Effective.dependenciesIn (pom : Effective) (scopes : List String) : List Coordinate :=
  (pom.dependencies.filter fun d => !d.isOptional && scopes.contains d.scope).map (·.coordinate)

def addProperties (properties : Properties) (more : List (String × String)) : Properties :=
  more.foldl (fun properties entry => properties.insert entry.1 entry.2) properties

def inherited (parent : Option Effective) : Properties :=
  parent.elim ∅ (·.properties)

def required (path : Path) (field : RequiredField) (value : Option String) :
    Except AuditError String :=
  match value with
  | some value => .ok value
  | none => .error (.provider path.text (.fieldMissing field))

def coordinateOf (path : Path) (model : Model) (parent : Option Effective) :
    Except AuditError Coordinate := do
  let group ← required path .groupId (model.group <|> parent.map (·.coordinate.group))
  let artifact ← required path .artifactId model.artifact
  let version ← required path .version (model.version <|> parent.map (·.coordinate.version))
  let context := addProperties (inherited parent) model.properties
  let group ← required path .groupId (resolve context group)
  let version ← required path .version (resolve context version)
  return .withPackaging group artifact version (model.packaging.getD Coordinate.defaultPackaging)

def coordinateProperties (start : String) (c : Coordinate) : List (String × String) :=
  [(start ++ ".groupId", c.group), (start ++ ".artifactId", c.artifact),
    (start ++ ".version", c.version)]

def propertiesOf (c : Coordinate) (model : Model) (parent : Option Effective) : Properties :=
  addProperties (inherited parent) (model.properties ++ coordinateProperties "project" c ++
    parent.elim [] fun parent => coordinateProperties "project.parent" parent.coordinate)

def resolve? (properties : Properties) (text : Option String) : Option String :=
  text.bind (resolve properties)

def nameOf (c : Coordinate) (properties : Properties) (entry : RawDependency) :
    Except AuditError (String × String) := do
  let part (field : RequiredField) (text : Option String) : Except AuditError String :=
    match resolve? properties text with
    | some value => .ok value
    | none => .error (.provider c.text (.dependencyWithout field))
  return (← part .groupId entry.group, ← part .artifactId entry.artifact)

/--
Adds what a project says about dependencies. An entry without a version says nothing.
-/
def manage (c : Coordinate) (properties : Properties) (table : Management) (entry : RawDependency) :
    Except AuditError Management := do
  let name ← nameOf c properties entry
  match resolve? properties entry.version with
  | some version => return table.insert name ⟨version, entry.scope, entry.classifier⟩
  | none => return table

def dependencyOf (c : Coordinate) (properties : Properties) (table : Management)
    (entry : RawDependency) : Except AuditError Dependency := do
  let (group, artifact) ← nameOf c properties entry
  let managed := table.lookup (group, artifact)
  match resolve? properties entry.version <|> managed.map (·.version) with
  | none => throw (.provider c.text (.unknownVersion group artifact))
  | some version =>
    let packaging := (resolve? properties entry.packaging).getD Coordinate.defaultPackaging
    let classifier := (resolve? properties entry.classifier <|> managed.bind (·.classifier)).getD
      (Coordinate.defaultClassifier packaging)
    -- The scope is taken as it is written.
    let scope := (entry.scope <|> managed.bind (·.scope)).getD defaultScope
    return ⟨⟨group, artifact, version, packaging, classifier⟩, scope, entry.isOptional⟩

/--
Whether one of some written dependencies replaces an inherited one. The names are compared as they
are written.
-/
def replaces (entries : List RawDependency) (dependency : Dependency) : Bool :=
  entries.any fun entry =>
    entry.group = some dependency.coordinate.group &&
      entry.artifact = some dependency.coordinate.artifact

def Effective.ofModel (c : Coordinate) (properties : Properties) (model : Model)
    (parent : Option Effective) : Except AuditError Effective := do
  -- Those of the parent come first, so the own ones replace them.
  let management ← model.management.foldlM (manage c properties) (parent.elim ∅ (·.management))
  let inherited := parent.elim [] fun parent =>
    parent.dependencies.filter (!replaces model.dependencies ·)
  let own ← model.dependencies.mapM (dependencyOf c properties management)
  return {
    coordinate := c
    properties
    management
    dependencies := inherited ++ own
    modules := model.modules }

end ArtifactAudit.Pom
