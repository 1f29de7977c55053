import ArtifactAudit.Json.Parser

/-!
This module contains the reading of the texts, keys and comments of TOML documents.
-/

namespace ArtifactAudit.Toml

def isSpace (c : Char) : Bool :=
  c = ' ' || c = '\t'

def isPrintable (c : Char) : Bool :=
  c = '\t' || (0x20 ≤ c.toNat && c.toNat ≠ 0x7F)

def skipSpace (cs : List Char) : List Char :=
  cs.dropWhile isSpace

def lineEnd? : List Char → Option (List Char)
  | '\n' :: rest => some rest
  | '\r' :: '\n' :: rest => some rest
  | _ => none

def skipComment : List Char → List Char
  | '#' :: rest => rest.dropWhile isPrintable
  | cs => cs

def statementEnd? (cs : List Char) : Option (List Char) :=
  match skipComment (skipSpace cs) with
  | [] => some []
  | rest => lineEnd? rest

def skipLines (cs : List Char) : List Char :=
  go cs.length cs
where
  go : Nat → List Char → List Char
    | 0, cs => cs
    | steps + 1, cs =>
      match skipSpace cs with
      | '#' :: rest =>
        let rest := rest.dropWhile isPrintable
        match lineEnd? rest with
        | some rest => go steps rest
        | none => rest
      | rest =>
        match lineEnd? rest with
        | some rest => go steps rest
        | none => rest

def hexValue? (cs : List Char) : Option Nat :=
  cs.foldlM (fun n c => (Json.hexValue? c).map (n * 16 + ·)) 0

def codePoint? (n : Nat) : Option Char :=
  if h : n.isValidChar then some (Char.ofNatAux n h) else none

def escape? : List Char → Option (Char × List Char)
  | '"' :: rest => some ('"', rest)
  | '\\' :: rest => some ('\\', rest)
  | 'b' :: rest => some ('\x08', rest)
  | 'f' :: rest => some ('\x0C', rest)
  | 'n' :: rest => some ('\n', rest)
  | 'r' :: rest => some ('\r', rest)
  | 't' :: rest => some ('\t', rest)
  | 'u' :: a :: b :: c :: d :: rest => do return (← codePoint? (← hexValue? [a, b, c, d]), rest)
  | 'U' :: a :: b :: c :: d :: e :: f :: g :: h :: rest => do
    return (← codePoint? (← hexValue? [a, b, c, d, e, f, g, h]), rest)
  | _ => none

def skipBlank (cs : List Char) : List Char :=
  go cs.length cs
where
  go : Nat → List Char → List Char
    | 0, cs => cs
    | steps + 1, cs =>
      match lineEnd? (skipSpace cs) with
      | some rest => go steps rest
      | none => skipSpace cs

def continuation? (cs : List Char) : Option (List Char) := do
  return skipBlank (← lineEnd? (skipSpace cs))

def basicText (found : List Char) : (steps : Nat) → List Char → Option (String × List Char)
  | 0, _ => none
  | steps + 1, cs =>
    match cs with
    | '"' :: rest => some (String.ofList found.reverse, rest)
    | '\\' :: rest =>
      match escape? rest with
      | some (c, rest) => basicText (c :: found) steps rest
      | none => none
    | c :: rest => if isPrintable c then basicText (c :: found) steps rest else none
    | [] => none

def literalText (cs : List Char) : Option (String × List Char) :=
  let (content, rest) := cs.span fun c => isPrintable c && c ≠ '\''
  match rest with
  | '\'' :: rest => some (String.ofList content, rest)
  | _ => none

/--
Takes the end of a text in three quotes each: the quotes, and up to two more that belong to the
text.
-/
def closing? (quote : Char) (cs : List Char) : Option (List Char × List Char) :=
  let quotes := (cs.takeWhile (· = quote)).length
  if quotes < 3 then none
  else
    -- All other quotes stand behind the text.
    let extra := min (quotes - 3) 2
    some (List.replicate extra quote, cs.drop (extra + 3))

/--
Takes a text over several lines in three quotes each, without the opening ones. Escapes are read in
texts in double quotes only. Each step takes a character.
-/
def longText (quote : Char) (found : List Char) :
    (steps : Nat) → List Char → Option (String × List Char)
  | 0, _ => none
  | steps + 1, cs =>
    match closing? quote cs with
    | some (extra, rest) => some (String.ofList (found.reverse ++ extra), rest)
    | none =>
      match cs with
      | [] => none
      | c :: rest =>
        if c = '\\' && quote = '"' then
          match escape? rest with
          | some (c, rest) => longText quote (c :: found) steps rest
          | none =>
            match continuation? rest with
            | some rest => longText quote found steps rest
            | none => none
        else
          match lineEnd? cs with
          | some rest => longText quote ('\n' :: found) steps rest
          | none => if isPrintable c then longText quote (c :: found) steps rest else none

def longText? (quote : Char) (cs : List Char) : Option (String × List Char) :=
  longText quote [] (cs.length + 1) ((lineEnd? cs).getD cs)

def text? : List Char → Option (String × List Char)
  | '"' :: '"' :: '"' :: rest => longText? '"' rest
  | '\'' :: '\'' :: '\'' :: rest => longText? '\'' rest
  | '"' :: rest => basicText [] (rest.length + 1) rest
  | '\'' :: rest => literalText rest
  | _ => none

def isKeyChar (c : Char) : Bool :=
  c.isAlphanum || c = '_' || c = '-'

def keyPart? : List Char → Option (String × List Char)
  | '"' :: rest => basicText [] (rest.length + 1) rest
  | '\'' :: rest => literalText rest
  | cs =>
    let (name, rest) := cs.span isKeyChar
    if name.isEmpty then none else some (String.ofList name, rest)

def keyParts (found : List String) :
    (steps : Nat) → List Char → Option ((List String × String) × List Char)
  | 0, _ => none
  | steps + 1, cs =>
    match keyPart? (skipSpace cs) with
    | none => none
    | some (part, rest) =>
      match skipSpace rest with
      | '.' :: rest => keyParts (part :: found) steps rest
      | rest => some ((found.reverse, part), rest)

def depthLimit : Nat := 79

def key? (cs : List Char) : Option ((List String × String) × List Char) := do
  let ((path, key), rest) ← keyParts [] (cs.length + 1) cs
  if path.length < depthLimit then some ((path, key), rest) else none

end ArtifactAudit.Toml
