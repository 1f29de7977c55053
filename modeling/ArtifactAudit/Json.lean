/-!
This module contains JSON values.
-/

namespace ArtifactAudit

/--
A JSON value. The members of an object are in the order of the text, repetitions included. A string
or a member's name may be valid JSON but not a text: with a surrogate outside a pair, or with bytes
that are not UTF-8. The value of such a string is left out.
-/
inductive Json where
  | null
  | bool (value : Bool)
  /-- A number that is written without fraction and exponent, and not as `-0`. -/
  | number (value : Int)
  | decimal (text : String)
  | string (text : Option String)
  | array (items : List Json)
  | object (members : List (Option String × Json))

namespace Json

instance : Inhabited Json := ⟨.null⟩

def text (s : String) : Json := .string (some s)

def texts (items : List String) : Json := .array (items.map text)

def record (members : List (String × Json)) : Json :=
  .object (members.map fun member => (some member.1, member.2))

end Json

end ArtifactAudit
