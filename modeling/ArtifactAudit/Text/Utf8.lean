/-!
This module contains the decoding of bytes as UTF-8 where every fault stands for a replacement
character.
-/

namespace ArtifactAudit.Text

structure Utf8Start where
  following : Nat
  low : UInt8
  high : UInt8
  bits : Nat
deriving DecidableEq, Repr

def Utf8Start.ofByte? (byte : UInt8) : Option Utf8Start :=
  -- The range of the second byte leaves out forms that are longer than needed, surrogates and what
  -- is above the last code point.
  if byte < 0xC2 then none
  else if byte < 0xE0 then some ⟨1, 0x80, 0xBF, byte.toNat % 32⟩
  else if byte = 0xE0 then some ⟨2, 0xA0, 0xBF, 0⟩
  else if byte = 0xED then some ⟨2, 0x80, 0x9F, 13⟩
  else if byte < 0xF0 then some ⟨2, 0x80, 0xBF, byte.toNat % 16⟩
  else if byte = 0xF0 then some ⟨3, 0x90, 0xBF, 0⟩
  else if byte < 0xF4 then some ⟨3, 0x80, 0xBF, byte.toNat % 8⟩
  else if byte = 0xF4 then some ⟨3, 0x80, 0x8F, 4⟩
  else none

def utf8Rest (low high : UInt8) (value : Nat) : (following : Nat) → List UInt8 → Char × List UInt8
  | 0, bytes => (Char.ofNat value, bytes)
  | following + 1, byte :: bytes =>
    if low ≤ byte && byte ≤ high then
      utf8Rest 0x80 0xBF (value * 64 + byte.toNat % 64) following bytes
    else ('\uFFFD', byte :: bytes)
  | _, [] => ('\uFFFD', [])

def utf8Char (byte : UInt8) (bytes : List UInt8) : Char × List UInt8 :=
  if byte < 0x80 then (Char.ofNat byte.toNat, bytes)
  else
    match Utf8Start.ofByte? byte with
    | some start => utf8Rest start.low start.high start.bits start.following bytes
    | none => ('\uFFFD', bytes)

theorem length_utf8Rest_le {low high : UInt8} {value following : Nat} {bytes : List UInt8} :
    (utf8Rest low high value following bytes).2.length ≤ bytes.length := by
  fun_induction utf8Rest low high value following bytes <;> simp_all
  omega

theorem length_utf8Char_le {byte : UInt8} {bytes : List UInt8} :
    (utf8Char byte bytes).2.length ≤ bytes.length := by
  unfold utf8Char
  split
  . simp
  . split
    . exact length_utf8Rest_le
    . simp

def decodeUtf8 (bytes : List UInt8) : String :=
  String.ofList (go bytes)
where
  go : List UInt8 → List Char
    | [] => []
    | byte :: bytes => (utf8Char byte bytes).1 :: go (utf8Char byte bytes).2
  termination_by bytes => bytes.length
  decreasing_by
    have := @length_utf8Char_le byte bytes
    simp only [List.length_cons]
    omega

end ArtifactAudit.Text
