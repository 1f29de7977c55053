import ArtifactAudit.Archive.Fault

/-!
This module contains numbers of several bytes, the lowest byte first.
-/

namespace ArtifactAudit.Archive

namespace LittleEndian

def value (bytes : List UInt8) : Nat :=
  bytes.foldr (fun b n => b.toNat + 256 * n) 0

def bytes : (count n : Nat) → List UInt8
  | 0, _ => []
  | count + 1, n => n.toUInt8 :: bytes count (n / 256)

end LittleEndian

def bytesAt (data : ByteArray) (offset count : Nat) : Except Fault (List UInt8) :=
  if offset + count ≤ data.size then .ok (data.extract offset (offset + count)).data.toList
  else .error .truncated

def numberAt (data : ByteArray) (offset count : Nat) : Except Fault Nat := do
  return LittleEndian.value (← bytesAt data offset count)

def marked (mark : Nat) (data : ByteArray) (offset : Nat) : Bool :=
  match numberAt data offset 4 with
  | .ok n => n = mark
  | .error _ => false

end ArtifactAudit.Archive
