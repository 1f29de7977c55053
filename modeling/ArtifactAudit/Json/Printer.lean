import ArtifactAudit.Json
import ArtifactAudit.Text.Order
import ArtifactAudit.Text.Quoted

/-!
This module contains the writing of JSON values: on one line, and laid out with two spaces for each
level of nesting.
-/

namespace ArtifactAudit.Json

def escapeChar (c : Char) : String :=
  if c = '"' then "\\\""
  else if c = '\\' then "\\\\"
  else if c = '\x08' then "\\b"
  else if c = '\x0C' then "\\f"
  else if c = '\n' then "\\n"
  else if c = '\r' then "\\r"
  else if c = '\t' then "\\t"
  else if c.toNat < 0x20 then "\\u" ++ Text.padZeros 4 (Text.hexDigits c.toNat)
  else c.toString

def quote (s : String) : String :=
  "\"" ++ String.join (s.toList.map escapeChar) ++ "\""

def sortMembers (members : List (String × Json)) : List (String × Json) :=
  members.mergeSort fun a b => !decide (Text.Precedes b.1 a.1)

mutual

def compact : Json → String
  | .null => "null"
  | .bool value => if value then "true" else "false"
  | .number value => toString value
  | .decimal text => text
  | .string s => quote (s.getD "")
  | .array items => "[" ++ ",".intercalate (compactItems items) ++ "]"
  | .object members => "\x7b" ++ ",".intercalate (compactMembers members) ++ "\x7d"

def compactItems : List Json → List String
  | [] => []
  | item :: rest => compact item :: compactItems rest

def compactMembers : List (Option String × Json) → List String
  | [] => []
  | (name, value) :: rest => (quote (name.getD "") ++ ":" ++ compact value) :: compactMembers rest

end

def indent (level : Nat) : String :=
  "".pushn ' ' (2 * level)

def bracketed (opening closing : String) (level : Nat) (lines : List String) : String :=
  if lines.isEmpty then opening ++ closing
  else
    let lines := lines.map (indent (level + 1) ++ ·)
    opening ++ "\n" ++ ",\n".intercalate lines ++ "\n" ++ indent level ++ closing

mutual

def prettyAt (level : Nat) : Json → String
  | .array items => bracketed "[" "]" level (prettyItems (level + 1) items)
  | .object members => bracketed "\x7b" "\x7d" level (prettyMembers (level + 1) members)
  | value => compact value

def prettyItems (level : Nat) : List Json → List String
  | [] => []
  | item :: rest => prettyAt level item :: prettyItems level rest

def prettyMembers (level : Nat) : List (Option String × Json) → List String
  | [] => []
  | (name, value) :: rest =>
    (quote (name.getD "") ++ ": " ++ prettyAt level value) :: prettyMembers level rest

end

def pretty (value : Json) : String := prettyAt 0 value

end ArtifactAudit.Json
