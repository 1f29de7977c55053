/-!
This module contains the cutting of a text at a separator character and the search for parts of it.
-/

namespace ArtifactAudit.Text

def parts (sep : Char) (s : String) : List String :=
  (s.toList.splitOn sep).map String.ofList

def cutFirst? (sep : Char) (s : String) : Option (String × String) :=
  go [] s.toList
where
  go (seen : List Char) : List Char → Option (String × String)
    | [] => none
    | c :: rest =>
      if c = sep then some (String.ofList seen.reverse, String.ofList rest) else go (c :: seen) rest

def cutLast? (sep : Char) (s : String) : Option (String × String) :=
  go [] s.toList.reverse
where
  go (after : List Char) : List Char → Option (String × String)
    | [] => none
    | c :: before =>
      if c = sep then some (String.ofList before.reverse, String.ofList after)
      else go (c :: after) before

def startsWith (s start : String) : Bool :=
  start.toList.isPrefixOf s.toList

def endsWith (s ending : String) : Bool :=
  ending.toList.isSuffixOf s.toList

def occursIn (part : List Char) : List Char → Bool
  | [] => part.isEmpty
  | c :: rest => part.isPrefixOf (c :: rest) || occursIn part rest

def lowerAscii (s : String) : String :=
  String.ofList (s.toList.map Char.toLower)

end ArtifactAudit.Text
