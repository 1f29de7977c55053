import ArtifactAudit.Error
import ArtifactAudit.Pom.Interpolation
import ArtifactAudit.Xml.Parser

/-!
This module contains project descriptors as they are written, before anything is inherited.
-/

namespace ArtifactAudit.Pom

structure Parent where
  group : String
  artifact : String
  version : String
  /-- Where to look for it, seen from the directory of the other one. An empty path says nowhere. -/
  relativePath : Option String
deriving DecidableEq, Repr

structure RawDependency where
  group : Option String := none
  artifact : Option String := none
  version : Option String := none
  scope : Option String := none
  classifier : Option String := none
  packaging : Option String := none
  isOptional : Bool := false
deriving DecidableEq, Repr

structure Model where
  group : Option String
  artifact : Option String
  version : Option String
  packaging : Option String
  parent : Option Parent
  properties : List (String × String)
  /-- What is said about dependencies in case that they are declared. -/
  management : List RawDependency
  dependencies : List RawDependency
  /-- The paths of other projects, seen from the directory of the descriptor. -/
  modules : List String
deriving DecidableEq, Repr

def Parent.ofXml (node : Xml) : Except ProviderCause Parent := do
  let required (field : RequiredField) : Except ProviderCause String :=
    match node.value? field.text with
    | some value => .ok value
    | none => .error (.parentFieldMissing field)
  return {
    group := ← required .groupId
    artifact := ← required .artifactId
    version := ← required .version
    -- An element without text says that there is nowhere to look.
    relativePath := (node.child? "relativePath").map fun path => path.content?.getD "" }

def RawDependency.ofXml (node : Xml) : RawDependency where
  group := node.value? "groupId"
  artifact := node.value? "artifactId"
  version := node.value? "version"
  scope := node.value? "scope"
  classifier := node.value? "classifier"
  packaging := node.value? "type"
  isOptional := (node.value? "optional").any fun value => Text.lowerAscii value == "true"

def dependenciesIn (node : Xml) : List RawDependency :=
  match node.child? "dependencies" with
  | some list => (list.elementsNamed "dependency").map .ofXml
  | none => []

def propertiesIn (project : Xml) : List (String × String) :=
  match project.child? "properties" with
  | some list => list.elements.filterMap fun node => do return (← node.name?, ← node.content?)
  | none => []

def modulesIn (project : Xml) : List String :=
  match project.child? "modules" with
  | some list => ((list.elementsNamed "module").filterMap Xml.content?).filter (!·.isEmpty)
  | none => []

def Model.ofProject (project : Xml) : Except ProviderCause Model := do
  return {
    parent := ← (project.child? "parent").mapM Parent.ofXml
    group := project.value? "groupId"
    artifact := project.value? "artifactId"
    version := project.value? "version"
    packaging := project.value? "packaging"
    properties := propertiesIn project
    management := ((project.child? "dependencyManagement").map dependenciesIn).getD []
    dependencies := dependenciesIn project
    modules := modulesIn project }

def Model.parse (text : String) : Except ProviderCause Model :=
  match Xml.parse? text with
  | none => .error (.invalidXml "not a document")
  | some document =>
    match document.find? "project" with
    | none => .error .noProjectElement
    | some project => Model.ofProject project

end ArtifactAudit.Pom
