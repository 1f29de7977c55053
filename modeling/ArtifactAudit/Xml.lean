import ArtifactAudit.Text.Blank

/-!
This module contains the parts of XML documents that tell something: elements by their names without
namespaces, and the texts in them.
-/

namespace ArtifactAudit

inductive Xml where
  | element (name : String) (children : List Xml)
  | text (content : String)
  /-- A comment or a processing instruction, which tells nothing but separates texts. -/
  | mark

namespace Xml

instance : Inhabited Xml := ⟨.mark⟩

def children : Xml → List Xml
  | .element _ children => children
  | _ => []

def name? : Xml → Option String
  | .element name _ => some name
  | _ => none

def elements (node : Xml) : List Xml :=
  node.children.filter (·.name?.isSome)

def elementsNamed (name : String) (node : Xml) : List Xml :=
  node.children.filter (·.name? == some name)

def child? (name : String) (node : Xml) : Option Xml :=
  node.children.find? (·.name? == some name)

def content? (node : Xml) : Option String :=
  match node.children with
  | .text content :: _ => some (Text.trim content)
  | _ => none

def value? (name : String) (node : Xml) : Option String := do
  let content ← (← node.child? name).content?
  if content.isEmpty then none else some content

mutual

def find? (name : String) : Xml → Option Xml
  | .element other children =>
    if other = name then some (.element other children) else findAmong? name children
  | _ => none

def findAmong? (name : String) : List Xml → Option Xml
  | [] => none
  | node :: rest => (find? name node).or (findAmong? name rest)

end

end Xml

end ArtifactAudit
