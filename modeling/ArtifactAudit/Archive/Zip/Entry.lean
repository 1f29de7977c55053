import ArtifactAudit.Archive.Crc32
import ArtifactAudit.Archive.Inflate
import ArtifactAudit.Archive.LittleEndian

/-!
This module contains the files of zip archives, as the directory of an archive describes them.
-/

namespace ArtifactAudit.Archive.Zip

structure Entry where
  name : String
  rawName : List UInt8
  comment : String
  isLink : Bool
  /-- Whether the file is encrypted in the way that all archives know. -/
  encrypted : Bool
  isSealed : Bool
  method : Nat
  checksum : Nat
  length : Nat
  size : Nat
  header : Nat
deriving DecidableEq, Repr

namespace Entry

def isFile (entry : Entry) : Bool :=
  !entry.isLink && entry.name.toList.getLast? ≠ some '/' && entry.name.toList.getLast? ≠ some '\\'

/--
The methods of storing data that an entry may name. All but the first two cannot be read.
-/
def knownMethods : List Nat := [0, 8, 9, 12, 14, 93, 95]

def fileMark : Nat := 0x04034B50

/--
Where the data of an entry starts. The header in front of it tells that with the lengths of a name
and of extra fields, which need not be those of the directory.
-/
def start (data : ByteArray) (entry : Entry) : Except Fault Nat := do
  if entry.encrypted || entry.isSealed || !knownMethods.contains entry.method then
    throw .unsupported
  if !marked fileMark data entry.header then throw .badHeader
  let nameLength ← numberAt data (entry.header + 26) 2
  return entry.header + 30 + nameLength + (← numberAt data (entry.header + 28) 2)

def lengthBound : Nat := 0x8000000000000000

/--
The content of an entry whose data starts at an offset. It has to have its checksum, which also
tells whether the data is there as a whole.
-/
def content (data : ByteArray) (start : Nat) (entry : Entry) : Except Fault (List UInt8) := do
  if lengthBound ≤ entry.length then throw .unsupported
  let stored := (data.extract start (start + entry.size)).data.toList
  let content ← match entry.method with
    | 0 => pure stored
    | 8 => do pure (← Inflate.run stored).1
    | _ => throw .unsupported
  if (crc32 content).toNat = entry.checksum then return content else throw .badChecksum

end Entry

end ArtifactAudit.Archive.Zip
