import ArtifactAudit.NameMap
import ArtifactAudit.Text.Blank
import ArtifactAudit.Text.Split

/-!
This module contains the properties of project descriptors and their interpolation: in the values of
a descriptor `${name}` stands for the value of a property, which may refer to others in the same
way.
-/

namespace ArtifactAudit.Pom

abbrev Properties := NameMap String

def hasReference (cs : List Char) : Bool :=
  Text.occursIn ['$', '\x7b'] cs

/--
Replaces the references that stand in a text by the values of the properties. All properties have to
be there, and all references have to end.
-/
def replaceReferences (properties : Properties) : List Char → Option (List Char)
  | '$' :: '\x7b' :: rest =>
    -- A reference ends at the first brace, whatever stands in front of it.
    match _h : rest.dropWhile (· ≠ '\x7d') with
    | _ :: after => do
      let value ← properties.get? (String.ofList (rest.takeWhile (· ≠ '\x7d')))
      return value.toList ++ (← replaceReferences properties after)
    | [] => none
  | c :: rest => (replaceReferences properties rest).map (c :: ·)
  | [] => some []
termination_by cs => cs.length
decreasing_by
  . have : (rest.dropWhile (· ≠ '\x7d')).length ≤ rest.length :=
      (List.dropWhile_suffix _).length_le
    simp_all
    omega
  . simp

def maxPasses : Nat := 8

def resolveWithin (properties : Properties) : (passes : Nat) → List Char → Option (List Char)
  | passes, cs =>
    if hasReference cs then
      match passes with
      | 0 => none
      | passes + 1 => (replaceReferences properties cs).bind (resolveWithin properties passes)
    else some cs

/--
The value of a text with its references replaced. A blank text has none.
-/
def resolve (properties : Properties) (text : String) : Option String :=
  let cs := Text.trimChars text.toList
  if cs.isEmpty then none else (resolveWithin properties maxPasses cs).map String.ofList

end ArtifactAudit.Pom
