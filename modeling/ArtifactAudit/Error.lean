import ArtifactAudit.ClassFile.Fault
import ArtifactAudit.Coordinate
import ArtifactAudit.Path

/-!
This module contains the ways in which an audit can fail, and the messages for them. The causes that
the library tells apart have constructors of their own. `other` holds causes that it only passes on,
such as those of the file system.
-/

namespace ArtifactAudit

inductive UnreadableCause where
  | missing
  | badClass (source : String) (fault : ClassFile.Fault)
  | other (text : String)
deriving DecidableEq, Repr

inductive RequiredField where
  | groupId
  | artifactId
  | version
deriving DecidableEq, Repr

def RequiredField.text : RequiredField → String
  | .groupId => "groupId"
  | .artifactId => "artifactId"
  | .version => "version"

inductive ProviderCause where
  | artifactNotFound
  | artifactNotFoundAt (location : Path)
  | noDescriptor (location : Path)
  | unreadableDescriptor (text : String)
  | invalidXml (text : String)
  | noProjectElement
  | parentFieldMissing (field : RequiredField)
  | fieldMissing (field : RequiredField)
  | parentNotFound (location : Path)
  | importNotFound (location : Path)
  | importWithoutVersion (group artifact : String)
  | dependencyWithout (field : RequiredField)
  | unknownVersion (group artifact : String)
  | descriptorCycle
  | other (text : String)
deriving DecidableEq, Repr

inductive CorruptCause where
  | belongsTo (owner : Coordinate)
  | other (text : String)
deriving DecidableEq, Repr

inductive InputCause where
  | notACoordinate (text : String)
  /-- A class file with an array type where a class is expected. -/
  | badClass (source : String) (fault : ClassFile.Fault)
  | noDependencyLists (document : Path)
  | noRepository
  | other (text : String)
deriving DecidableEq, Repr

inductive ConfigCause where
  | unknownFormat (format : String)
  | other (text : String)
deriving DecidableEq, Repr

inductive BuildCause where
  | notRunnable (command text : String)
  | exited (command : String) (status : Nat)
  | moduleWithoutFile (name : String)
  | noProjectFile
  | other (text : String)
deriving DecidableEq, Repr

inductive AuditError where
  /-- A dependency that needs itself. The path leads from the coordinate that was met again outwards
  to the one that was asked for. -/
  | cyclicalDependency (path : List Coordinate)
  | unreadableArtifact (path : Path) (cause : UnreadableCause)
  /-- The subject is a coordinate or the path of a project descriptor. -/
  | provider (subject : String) (cause : ProviderCause)
  | corruptCache (path : Path) (cause : CorruptCause)
  | invalidInput (cause : InputCause)
  | io (path : Path) (text : String)
  | config (path : Path) (cause : ConfigCause)
  | build (path : Path) (cause : BuildCause)
deriving DecidableEq, Repr

def classMessage (source : String) (fault : ClassFile.Fault) : String :=
  source ++ ": " ++ fault.message

def UnreadableCause.message : UnreadableCause → String
  | .missing => "does not exist"
  | .badClass source fault => classMessage source fault
  | .other text => text

def ProviderCause.message : ProviderCause → String
  | .artifactNotFound => "artifact not found"
  | .artifactNotFoundAt location => "artifact not found at " ++ location.text
  | .noDescriptor location => "no POM at " ++ location.text
  | .unreadableDescriptor text => "cannot read POM: " ++ text
  | .invalidXml text => "invalid POM XML: " ++ text
  | .noProjectElement => "POM has no <project> element"
  | .parentFieldMissing field => "parent." ++ field.text ++ " is missing"
  | .fieldMissing field => "POM has no " ++ field.text
  | .parentNotFound location => "parent POM not found at " ++ location.text
  | .importNotFound location => "imported BOM not found at " ++ location.text
  | .importWithoutVersion group artifact =>
    "imported BOM " ++ group ++ ":" ++ artifact ++ " has no version"
  | .dependencyWithout field => "dependency without " ++ field.text
  | .unknownVersion group artifact => "cannot determine version of " ++ group ++ ":" ++ artifact
  | .descriptorCycle => "cycle while resolving parent or imported POMs"
  | .other text => text

def CorruptCause.message : CorruptCause → String
  | .belongsTo owner => "entry belongs to " ++ owner.text
  | .other text => text

def InputCause.message : InputCause → String
  | .notACoordinate text => "Not a valid coordinate: " ++ text
  | .badClass source fault => classMessage source fault
  | .noDependencyLists document => "provider cannot read dependency list " ++ document.text
  | .noRepository => "no local repository given and no home directory found"
  | .other text => text

def ConfigCause.message : ConfigCause → String
  | .unknownFormat format => "unknown output format " ++ Text.quoted format
  | .other text => text

def BuildCause.message : BuildCause → String
  | .notRunnable command text => "cannot run " ++ command ++ ": " ++ text
  | .exited command status => command ++ " exited with exit status: " ++ toString status
  | .moduleWithoutFile name => "module " ++ name ++ " has no pom.xml"
  | .noProjectFile => "no project file found"
  | .other text => text

namespace AuditError

def message : AuditError → String
  | .cyclicalDependency path =>
    "Found cyclical dependency: [" ++ ", ".intercalate (path.map Coordinate.text) ++ "]"
  | .unreadableArtifact path cause => "Unreadable artifact " ++ path.text ++ ": " ++ cause.message
  | .provider subject cause => "Provider failed for " ++ subject ++ ": " ++ cause.message
  | .corruptCache path cause => "Corrupt cache entry " ++ path.text ++ ": " ++ cause.message
  | .invalidInput cause => "Invalid input: " ++ cause.message
  | .io path text => "I/O error at " ++ path.text ++ ": " ++ text
  | .config path cause => "Config error at " ++ path.text ++ ": " ++ cause.message
  | .build path cause => "Build error at " ++ path.text ++ ": " ++ cause.message

def recoverable : AuditError → Bool
  | .corruptCache .. => true
  | _ => false

def path? : AuditError → Option Path
  | .unreadableArtifact path _ | .corruptCache path _ | .io path _ | .config path _
  | .build path _ => some path
  | .cyclicalDependency _ | .provider .. | .invalidInput _ => none

def cyclePath? : AuditError → Option (List Coordinate)
  | .cyclicalDependency path => some path
  | _ => none

/--
The error as it is seen from a coordinate that was resolved around the failed one: the path of a
cycle grows outwards, other errors stay.
-/
def within (error : AuditError) (c : Coordinate) : AuditError :=
  match error with
  | .cyclicalDependency path => .cyclicalDependency (path ++ [c])
  | error => error

end AuditError

def Coordinate.parse (s : String) : Except AuditError Coordinate :=
  match ofText? s with
  | some c => .ok c
  | none => .error (.invalidInput (.notACoordinate s))

end ArtifactAudit
