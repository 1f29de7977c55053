import ArtifactAudit.Json.Parser

/-!
This module contains the smallest parts of XML documents: characters, names, references and quoted
values.
-/

namespace ArtifactAudit.Xml

def isChar (c : Char) : Bool :=
  if c.toNat < 0x20 then c = '\t' || c = '\n' || c = '\r' else c.toNat ≠ 0xFFFE && c.toNat ≠ 0xFFFF

def isSpace (c : Char) : Bool :=
  c = ' ' || c = '\t' || c = '\n' || c = '\r'

def skipSpace (cs : List Char) : List Char :=
  cs.dropWhile isSpace

def nameStartRanges : List (Nat × Nat) :=
  [(0x3A, 0x3A), (0x41, 0x5A), (0x5F, 0x5F), (0x61, 0x7A), (0xC0, 0xD6), (0xD8, 0xF6),
    (0xF8, 0x2FF), (0x370, 0x37D), (0x37F, 0x1FFF), (0x200C, 0x200D), (0x2070, 0x218F),
    (0x2C00, 0x2FEF), (0x3001, 0xD7FF), (0xF900, 0xFDCF), (0xFDF0, 0xFFFD), (0x10000, 0xEFFFF)]

def nameRestRanges : List (Nat × Nat) :=
  [(0x2D, 0x2E), (0x30, 0x39), (0xB7, 0xB7), (0x300, 0x36F), (0x203F, 0x2040)]

def inRanges (ranges : List (Nat × Nat)) (c : Char) : Bool :=
  ranges.any fun range => range.1 ≤ c.toNat && c.toNat ≤ range.2

def isNameStart (c : Char) : Bool := inRanges nameStartRanges c

def isNameChar (c : Char) : Bool := isNameStart c || inRanges nameRestRanges c

def takeName? : List Char → Option (String × List Char)
  | c :: rest =>
    if isNameStart c then
      some (String.ofList (c :: rest.takeWhile isNameChar), rest.dropWhile isNameChar)
    else none
  | [] => none

structure Name where
  space : String
  name : String
deriving DecidableEq, Repr

def isPlainName : List Char → Bool
  | c :: _ => isNameStart c
  | [] => false

def qualifiedName? (cs : List Char) : Option (Name × List Char) :=
  let rest := cs.dropWhile isNameChar
  match (cs.takeWhile isNameChar).splitOn ':' with
  | [name] => if isPlainName name then some (⟨"", String.ofList name⟩, rest) else none
  | [space, name] =>
    if (space.isEmpty || isPlainName space) && isPlainName name then
      some (⟨String.ofList space, String.ofList name⟩, rest)
    else none
  | _ => none

def upTo? (ending : List Char) (found : List Char) : List Char → Option (List Char × List Char)
  | [] => none
  | c :: rest =>
    if ending.isPrefixOf (c :: rest) then some (found.reverse, rest.drop (ending.length - 1))
    else if isChar c then upTo? ending (c :: found) rest
    else none

def namedChar? : String → Option Char
  | "quot" => some '"'
  | "amp" => some '&'
  | "apos" => some '\''
  | "lt" => some '<'
  | "gt" => some '>'
  | _ => none

def numberedChar? (base : Nat) (digits : List Char) : Option Char :=
  let n := digits.foldl (fun n c => n * base + (Json.hexValue? c).getD 0) 0
  let c := if h : n.isValidChar then Char.ofNatAux n h else '\uFFFD'
  if digits.isEmpty || n ≥ UInt32.size || !isChar c then none else some c

def reference? (cs : List Char) : Option (Char × List Char) := do
  let (c, rest) ← match cs with
    | '#' :: 'x' :: rest =>
      let isDigit (c : Char) := (Json.hexValue? c).isSome
      do pure (← numberedChar? 16 (rest.takeWhile isDigit), rest.dropWhile isDigit)
    | '#' :: rest => do
      pure (← numberedChar? 10 (rest.takeWhile Char.isDigit), rest.dropWhile Char.isDigit)
    | cs => do
      let (name, rest) ← takeName? cs
      pure (← namedChar? name, rest)
  match rest with
  | ';' :: rest => some (c, rest)
  | _ => none

/--
Puts a character of the document itself behind others, which are in reverse order. A carriage return
counts as a line feed, alone or in front of one.
-/
def pushRaw (last : Bool) (c : Char) : List Char → List Char
  -- A carriage return is held back until it is known what follows.
  | '\r' :: found =>
    if last && c = '\r' then '\n' :: '\n' :: found
    else if c = '\n' then '\n' :: found
    else c :: '\n' :: found
  | found => if last && c = '\r' then '\n' :: found else c :: found

/--
The text that characters without tags stand for. The characters found so far are in reverse order.
What a reference stands for is kept as it is, and so is the character behind it. Each step takes a
character.
-/
def expandText (found : List Char) (asIs : Bool) : (steps : Nat) → List Char → Option (List Char)
  | _, [] => some found.reverse
  | 0, _ => none
  | steps + 1, '&' :: rest =>
    match reference? rest with
    | some (c, rest) => expandText (c :: found) true steps rest
    | none => none
  | steps + 1, c :: rest =>
    expandText (if asIs then c :: found else pushRaw rest.isEmpty c found) false steps rest

def expandValue (found : List Char) : (steps : Nat) → List Char → Option (List Char)
  | _, [] => some found.reverse
  | 0, _ => none
  | steps + 1, '&' :: rest =>
    match reference? rest with
    | some (c, rest) => expandValue (c :: found) steps rest
    | none => none
  | steps + 1, '\r' :: '\n' :: rest => expandValue (' ' :: found) steps rest
  | steps + 1, c :: rest => expandValue ((if isSpace c then ' ' else c) :: found) steps rest

def assigned? (cs : List Char) : Option (List Char × List Char) :=
  match skipSpace cs with
  | '=' :: rest =>
    match skipSpace rest with
    | quote :: rest =>
      if quote = '"' || quote = '\'' then
        let inside (c : Char) := c ≠ quote && c ≠ '<' && isChar c
        match rest.dropWhile inside with
        | c :: after => if c = quote then some (rest.takeWhile inside, after) else none
        | [] => none
      else none
    | [] => none
  | _ => none

end ArtifactAudit.Xml
