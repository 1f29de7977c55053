/-!
This module contains the decoding of the texts in class files. These are UTF-8, except that a
character beyond the basic plane is written as a pair of surrogates of three bytes each and that
the character zero is written with two bytes.
-/

namespace ArtifactAudit.ClassFile.ModifiedUtf8

def units : List UInt8 → List UInt16
  | [] => []
  | b :: rest =>
    if b < 0x80 then b.toUInt16 :: units rest
    else if b &&& 0xE0 == 0xC0 then
      match rest with
      | b₁ :: rest => (((b &&& 0x1F).toUInt16 <<< 6) ||| (b₁ &&& 0x3F).toUInt16) :: units rest
      | [] => 0xFFFD :: units []
    else if b &&& 0xF0 == 0xE0 then
      match rest with
      | b₁ :: b₂ :: rest =>
        (((b &&& 0x0F).toUInt16 <<< 12) ||| ((b₁ &&& 0x3F).toUInt16 <<< 6) |||
          (b₂ &&& 0x3F).toUInt16) :: units rest
      -- What follows is no part of the unit and is read anew.
      | rest => 0xFFFD :: units rest
    else 0xFFFD :: units rest
termination_by bytes => bytes.length

def isHighSurrogate (u : UInt16) : Bool := 0xD800 ≤ u && u < 0xDC00

def isLowSurrogate (u : UInt16) : Bool := 0xDC00 ≤ u && u < 0xE000

def pairChar (high low : UInt16) : Char :=
  Char.ofNat (0x10000 + (high.toNat - 0xD800) * 0x400 + (low.toNat - 0xDC00))

def chars : List UInt16 → List Char
  | [] => []
  | u :: rest =>
    if isHighSurrogate u then
      match rest with
      | low :: rest =>
        if isLowSurrogate low then pairChar u low :: chars rest
        -- What follows may itself open a pair.
        else '\uFFFD' :: chars (low :: rest)
      | [] => ['\uFFFD']
    else if isLowSurrogate u then '\uFFFD' :: chars rest
    else Char.ofNat u.toNat :: chars rest
termination_by us => us.length

/--
The text of a list of bytes. What is UTF-8 as it stands is read as such.
-/
def decode (bytes : List UInt8) : String :=
  match String.fromUTF8? bytes.toByteArray with
  | some s => s
  | none => String.ofList (chars (units bytes))

end ArtifactAudit.ClassFile.ModifiedUtf8
