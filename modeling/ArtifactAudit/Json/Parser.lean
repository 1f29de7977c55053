import ArtifactAudit.Json

/-!
This module contains the reading of JSON texts.
-/

namespace ArtifactAudit.Json

def isSpace (c : Char) : Bool :=
  c = ' ' || c = '\n' || c = '\t' || c = '\r'

def skipSpace (cs : List Char) : List Char :=
  cs.dropWhile isSpace

def hexValue? (c : Char) : Option Nat :=
  if c.isDigit then some (c.toNat - '0'.toNat)
  else if 'a' ≤ c && c ≤ 'f' then some (c.toNat - 'a'.toNat + 10)
  else if 'A' ≤ c && c ≤ 'F' then some (c.toNat - 'A'.toNat + 10)
  else none

def hexUnit? (a b c d : Char) : Option Nat := do
  return (((← hexValue? a) * 16 + (← hexValue? b)) * 16 + (← hexValue? c)) * 16 + (← hexValue? d)

def escaped? : Char → Option Char
  | '"' => some '"'
  | '\\' => some '\\'
  | '/' => some '/'
  | 'b' => some '\x08'
  | 'f' => some '\x0C'
  | 'n' => some '\n'
  | 'r' => some '\r'
  | 't' => some '\t'
  | _ => none

/--
A piece of a string: a byte that stands for itself, or what is written as an escape, which is a
character or a surrogate.
-/
inductive Piece where
  | byte (value : UInt8)
  | char (c : Char)
  | high (unit : Nat)
  | low (unit : Nat)
deriving DecidableEq, Repr

def Piece.ofUnit (unit : Nat) : Piece :=
  if 0xD800 ≤ unit && unit < 0xDC00 then .high unit
  else if 0xDC00 ≤ unit && unit < 0xE000 then .low unit
  else .char (Char.ofNat unit)

def Piece.bytes? : List Piece → Option (List UInt8)
  | [] => some []
  | .byte value :: rest => (bytes? rest).map (value :: ·)
  | .char c :: rest => (bytes? rest).map (String.utf8EncodeChar c ++ ·)
  | .high u :: .low v :: rest =>
    let c := Char.ofNat (0x10000 + (u - 0xD800) * 0x400 + (v - 0xDC00))
    (bytes? rest).map (String.utf8EncodeChar c ++ ·)
  | _ => none

def stringPieces (found : List Piece) : List Char → Option (List Piece × List Char)
  | '"' :: rest => some (found.reverse, rest)
  | '\\' :: 'u' :: a :: b :: c :: d :: rest =>
    match hexUnit? a b c d with
    | some unit => stringPieces (.ofUnit unit :: found) rest
    | none => none
  | '\\' :: c :: rest =>
    match escaped? c with
    | some c => stringPieces (.char c :: found) rest
    | none => none
  | c :: rest =>
    if c.toNat < 0x20 then none else stringPieces (.byte (UInt8.ofNat c.toNat) :: found) rest
  | [] => none

/--
Takes a string without its opening quote. It is a text if its bytes are UTF-8.
-/
def stringRest? (cs : List Char) : Option (Option String × List Char) := do
  let (pieces, rest) ← stringPieces [] cs
  return ((Piece.bytes? pieces).bind fun bytes => String.fromUTF8? ⟨bytes.toArray⟩, rest)

def digits? (cs : List Char) : Option (List Char × List Char) :=
  let found := cs.takeWhile Char.isDigit
  if found.isEmpty then none else some (found, cs.dropWhile Char.isDigit)

def decimalValue (digits : List Char) : Nat :=
  digits.foldl (fun n c => n * 10 + (c.toNat - '0'.toNat)) 0

def fraction? : List Char → Option (List Char × List Char)
  | '.' :: rest => (digits? rest).map fun (found, rest) => ('.' :: found, rest)
  | rest => some ([], rest)

def exponent? : List Char → Option (List Char × List Char)
  | c :: rest =>
    if c = 'e' || c = 'E' then
      match rest with
      | sign :: rest =>
        if sign = '+' || sign = '-' then
          (digits? rest).map fun (found, rest) => (c :: sign :: found, rest)
        else (digits? (sign :: rest)).map fun (found, rest) => (c :: found, rest)
      | [] => none
    else some ([], c :: rest)
  | [] => some ([], [])

/--
Takes a number. Its integer part has no zeros in front.
-/
def number? (cs : List Char) : Option (Json × List Char) := do
  let (negative, cs) := match cs with
    | '-' :: rest => (true, rest)
    | _ => (false, cs)
  let (whole, cs) ← match cs with
    | '0' :: rest => if (rest.head?.map Char.isDigit).getD false then none else some (['0'], rest)
    | _ => digits? cs
  let (fraction, cs) ← fraction? cs
  let (exponent, cs) ← exponent? cs
  -- A zero with a sign is no integer.
  if fraction.isEmpty && exponent.isEmpty && !(negative && whole = ['0']) then
    let n : Int := decimalValue whole
    return (.number (if negative then -n else n), cs)
  else
    let sign := if negative then ['-'] else []
    return (.decimal (String.ofList (sign ++ whole ++ fraction ++ exponent)), cs)

def word? (word : String) (value : Json) (cs : List Char) : Option (Json × List Char) :=
  if word.toList.isPrefixOf cs then some (value, cs.drop word.length) else none

mutual

/--
Takes a value that starts at the front of a text. Every step down takes a character, so twice the
length of the text bounds the steps.
-/
def valueWithin : (steps : Nat) → List Char → Option (Json × List Char)
  | 0, _ => none
  | steps + 1, cs =>
    match cs with
    | 'n' :: _ => word? "null" .null cs
    | 't' :: _ => word? "true" (.bool true) cs
    | 'f' :: _ => word? "false" (.bool false) cs
    | '"' :: rest => (stringRest? rest).map fun (s, rest) => (.string s, rest)
    | '[' :: rest =>
      match skipSpace rest with
      | ']' :: rest => some (.array [], rest)
      | rest => itemsWithin steps [] rest
    | '\x7b' :: rest =>
      match skipSpace rest with
      | '\x7d' :: rest => some (.object [], rest)
      | rest => membersWithin steps [] rest
    | _ => number? cs

def itemsWithin : (steps : Nat) → List Json → List Char → Option (Json × List Char)
  | 0, _, _ => none
  | steps + 1, found, cs =>
    match valueWithin steps cs with
    | none => none
    | some (item, rest) =>
      match skipSpace rest with
      | ',' :: rest => itemsWithin steps (item :: found) (skipSpace rest)
      | ']' :: rest => some (.array (item :: found).reverse, rest)
      | _ => none

def membersWithin :
    (steps : Nat) → List (Option String × Json) → List Char → Option (Json × List Char)
  | 0, _, _ => none
  | steps + 1, found, cs =>
    match cs with
    | '"' :: rest =>
      match stringRest? rest with
      | none => none
      | some (name, rest) =>
        match skipSpace rest with
        | ':' :: rest =>
          match valueWithin steps (skipSpace rest) with
          | none => none
          | some (value, rest) =>
            match skipSpace rest with
            | ',' :: rest => membersWithin steps ((name, value) :: found) (skipSpace rest)
            | '\x7d' :: rest => some (.object ((name, value) :: found).reverse, rest)
            | _ => none
        | _ => none
    | _ => none

end

/--
Reads a text that is one value with nothing but spaces around it. A text is read byte by byte, and
each byte stands as the character of its number until a string is complete.
-/
def ofBytes? (bytes : List UInt8) : Option Json := do
  let cs := skipSpace (bytes.map fun byte => Char.ofNat byte.toNat)
  let (value, rest) ← valueWithin (2 * cs.length + 2) cs
  if (skipSpace rest).isEmpty then some value else none

def parse? (s : String) : Option Json :=
  ofBytes? s.toUTF8.data.toList

end ArtifactAudit.Json
