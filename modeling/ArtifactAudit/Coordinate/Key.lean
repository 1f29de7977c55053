import ArtifactAudit.Coordinate

/-!
This module contains cache keys: names for files that tell coordinates apart and that hold nothing
but ASCII letters, digits and the characters `.`, `-`, `%` and `_`.
-/

namespace ArtifactAudit.Coordinate

def upperHexDigit (n : Nat) : Char :=
  (Nat.digitChar n).toUpper

def percentByte (b : UInt8) : List Char :=
  ['%', upperHexDigit (b.toNat / 16), upperHexDigit (b.toNat % 16)]

/--
One character of a key: a letter, a digit, `.` and `-` stand for themselves, the UTF-8 bytes of all
others are written as percent signs with digits.
-/
def keyChar (c : Char) : List Char :=
  if c.isAlphanum || c = '.' || c = '-' then [c]
  else (String.utf8EncodeChar c).flatMap percentByte

def keyPart (s : String) : List Char :=
  s.toList.flatMap keyChar

/--
The parts of a coordinate that its key tells. Packaging and classifier are left out together where
both are the usual ones.
-/
def keyFields (c : Coordinate) : List String :=
  let plain := c.packaging = defaultPackaging && c.classifier.isEmpty
  -- The number of the fields tells which of them are left out.
  [c.group, c.artifact] ++
    (if plain then [] else c.packaging :: (if c.classifier.isEmpty then [] else [c.classifier])) ++
    [c.version]

def key (c : Coordinate) : String :=
  String.ofList (List.intercalate ['_'] (c.keyFields.map keyPart))

end ArtifactAudit.Coordinate
