import ArtifactAudit.Text.Blank
import ArtifactAudit.Text.Order
import ArtifactAudit.Text.Split

/-!
This module contains coordinates, the names by which artifacts are published, and their text
`group:artifact:packaging[:classifier]:version`.
-/

namespace ArtifactAudit

structure Coordinate where
  group : String
  artifact : String
  version : String
  packaging : String
  classifier : String
deriving DecidableEq, Repr

namespace Coordinate

instance : Inhabited Coordinate := ⟨⟨"", "", "", "", ""⟩⟩

def defaultPackaging : String := "jar"

def defaultClassifier (packaging : String) : String :=
  if packaging = "test-jar" then "tests" else ""

def withPackaging (group artifact version packaging : String) : Coordinate :=
  ⟨group, artifact, version, packaging, defaultClassifier packaging⟩

def ofParts (group artifact version : String) : Coordinate :=
  withPackaging group artifact version defaultPackaging

def name (c : Coordinate) : String :=
  c.group ++ ":" ++ c.artifact

def text (c : Coordinate) : String :=
  c.group ++ ":" ++ c.artifact ++ ":" ++ c.packaging ++
    (if c.classifier.isEmpty then "" else ":" ++ c.classifier) ++ ":" ++ c.version

def ofText? (s : String) : Option Coordinate := do
  let c ← match Text.parts ':' (Text.trim s) with
    | [group, artifact, version] => some (ofParts group artifact version)
    | [group, artifact, packaging, version] => some (withPackaging group artifact version packaging)
    | [group, artifact, packaging, classifier, version] =>
      some ⟨group, artifact, version, packaging, classifier⟩
    | _ => none
  if c.group.isEmpty || c.artifact.isEmpty || c.version.isEmpty then none else some c

def fields (c : Coordinate) : List String :=
  [c.group, c.artifact, c.version, c.packaging, c.classifier]

instance : LT Coordinate where
  lt a b := Text.listPrecedes a.fields b.fields

instance (a b : Coordinate) : Decidable (a < b) :=
  inferInstanceAs (Decidable (Text.listPrecedes a.fields b.fields = true))

def le (a b : Coordinate) : Bool := !decide (b < a)

def sortDistinct (cs : List Coordinate) : List Coordinate :=
  cs.eraseDups.mergeSort le

end Coordinate

end ArtifactAudit
