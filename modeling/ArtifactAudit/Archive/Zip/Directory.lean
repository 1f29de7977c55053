import ArtifactAudit.Archive.Zip.ExtraField
import ArtifactAudit.Text.CodePage437
import ArtifactAudit.Text.Utf8

/-!
This module contains the directories of zip archives. At the end of an archive stands a record that
leads to its directory, maybe over a second record with larger numbers, and the directory leads to
the files. All of them may be shifted by other data in front of the archive.
-/

namespace ArtifactAudit.Archive.Zip

def endMark : Nat := 0x06054B50

def largeEndMark : Nat := 0x06064B50

def locatorMark : Nat := 0x07064B50

def directoryMark : Nat := 0x02014B50

structure EndRecord where
  offset : Nat
  disk : Nat
  directoryDisk : Nat
  count : Nat
  total : Nat
  /-- Where the directory stands if nothing is in front of the archive. -/
  directory : Nat
deriving DecidableEq, Repr

def endRecord (data : ByteArray) (offset : Nat) : Except Fault EndRecord := do
  if !marked endMark data offset then throw .noDirectory
  let comment ← numberAt data (offset + 20) 2
  if data.size < offset + 22 + comment then throw .truncated
  return {
    offset
    disk := ← numberAt data (offset + 4) 2
    directoryDisk := ← numberAt data (offset + 6) 2
    count := ← numberAt data (offset + 8) 2
    total := ← numberAt data (offset + 10) 2
    directory := ← numberAt data (offset + 16) 4 }

structure Locator where
  offset : Nat
  directoryDisk : Nat
  /-- Where the record with larger numbers stands if nothing is in front of the archive. -/
  record : Nat
  disks : Nat
deriving DecidableEq, Repr

def EndRecord.locator? (data : ByteArray) (record : EndRecord) : Option Locator :=
  let offset := record.offset - 20
  let isFull := record.total = 0xFFFF || record.directory = 0xFFFFFFFF
  if isFull && 20 ≤ record.offset && marked locatorMark data offset then
    Except.toOption do
      return {
        offset
        directoryDisk := ← numberAt data (offset + 4) 4
        record := ← numberAt data (offset + 8) 8
        disks := ← numberAt data (offset + 16) 4 }
  else none

structure Directory where
  disk : Nat
  directoryDisk : Nat
  count : Nat
  /-- Where the directory stands if nothing is in front of the archive. -/
  offset : Nat
  shift : Nat
deriving DecidableEq, Repr

def findOffset? (test : Nat → Bool) (offset : Nat) : (count : Nat) → Option Nat
  | 0 => none
  | count + 1 => if test offset then some offset else findOffset? test (offset + 1) count

def EndRecord.directoryOf (data : ByteArray) (record : EndRecord) : Except Fault Directory :=
  let directory (shift : Nat) : Directory :=
    ⟨record.disk, record.directoryDisk, record.count, record.directory, shift⟩
  if record.total = 0 then .ok (directory (record.offset - record.directory))
  else
    -- A mark takes four bytes, and all of it stands before the record.
    let room := record.offset - record.directory - 3
    match findOffset? (marked directoryMark data) record.directory room with
    | some found => .ok (directory (found - record.directory))
    | none => .error .noDirectory

structure LargeEndRecord where
  madeBy : Nat
  neededVersion : Nat
  disk : Nat
  directoryDisk : Nat
  count : Nat
  total : Nat
  /-- Where the directory stands if nothing is in front of the archive. -/
  directory : Nat
deriving DecidableEq, Repr

def largeEndRecord (data : ByteArray) (offset : Nat) : Except Fault LargeEndRecord := do
  return {
    madeBy := ← numberAt data (offset + 12) 2
    neededVersion := ← numberAt data (offset + 14) 2
    disk := ← numberAt data (offset + 16) 4
    directoryDisk := ← numberAt data (offset + 20) 4
    count := ← numberAt data (offset + 24) 8
    total := ← numberAt data (offset + 32) 8
    directory := ← numberAt data (offset + 48) 8 }

def Locator.leadsTo (data : ByteArray) (locator : Locator) (offset : Nat) : Bool :=
  let isRecord := do
    let size ← numberAt data (offset + 4) 8
    let record ← largeEndRecord data offset
    -- An entry takes at least 46 bytes.
    return 44 ≤ size && size + 12 = locator.offset - offset &&
      record.directoryDisk = locator.directoryDisk &&
      record.total * 46 + record.directory ≤ offset
  marked largeEndMark data offset && isRecord.toOption = some true

def Locator.directoryOf (data : ByteArray) (locator : Locator) : Except Fault Directory := do
  if locator.disks > 1 then throw .unsupported
  -- As with the first entry, all of the mark stands before the locator.
  let room := locator.offset - locator.record - 3
  match findOffset? (locator.leadsTo data) locator.record room with
  | none => throw .noDirectory
  | some found =>
    let record ← largeEndRecord data found
    if record.total < record.count then throw .badHeader
    if record.madeBy < record.neededVersion then throw .badHeader
    let shift := found - locator.record
    return ⟨record.disk, record.directoryDisk, record.total, record.directory, shift⟩

def isLinkMode (system attributes : Nat) : Bool :=
  system = 3 && (attributes / 65536) &&& 0o120000 = 0o120000

def sealedMethod : Nat := 99

def offsetBound : Nat := 0x10000000000000000

def entryAt (data : ByteArray) (shift offset : Nat) : Except Fault (Entry × Nat) := do
  if !marked directoryMark data offset then throw .noDirectory
  let flags ← numberAt data (offset + 8) 2
  let nameLength ← numberAt data (offset + 28) 2
  let extraLength ← numberAt data (offset + 30) 2
  let commentLength ← numberAt data (offset + 32) 2
  let rawName ← bytesAt data (offset + 46) nameLength
  let extra ← bytesAt data (offset + 46 + nameLength) extraLength
  let comment ← bytesAt data (offset + 46 + nameLength + extraLength) commentLength
  let decode := if flags.testBit 11 then Text.decodeUtf8 else Text.decodeCodePage437
  let plain : Entry := {
    name := decode rawName
    rawName
    comment := decode comment
    isLink := isLinkMode (← numberAt data (offset + 5) 1) (← numberAt data (offset + 38) 4)
    encrypted := flags.testBit 0
    isSealed := false
    method := ← numberAt data (offset + 10) 2
    checksum := ← numberAt data (offset + 16) 4
    length := ← numberAt data (offset + 24) 4
    size := ← numberAt data (offset + 20) 4
    header := ← numberAt data (offset + 42) 4 }
  let entry ← ExtraField.apply plain extra
  if entry.method = sealedMethod && !entry.isSealed then throw .badHeader
  if offsetBound ≤ entry.header + shift then throw .badHeader
  return ({ entry with header := entry.header + shift },
    offset + 46 + nameLength + extraLength + commentLength)

def entriesFrom (data : ByteArray) (shift : Nat) :
    (count offset : Nat) → Except Fault (List Entry)
  | 0, _ => return []
  | count + 1, offset => do
    let (entry, behind) ← entryAt data shift offset
    return entry :: (← entriesFrom data shift count behind)

def insertEntry (entries : List Entry) (entry : Entry) : List Entry :=
  if entries.any (·.name == entry.name) then
    entries.map fun other => if other.name = entry.name then entry else other
  else entries ++ [entry]

def Directory.entries (data : ByteArray) (directory : Directory) : Except Fault (List Entry) := do
  if directory.disk ≠ directory.directoryDisk then throw .unsupported
  let offset := directory.offset + directory.shift
  return (← entriesFrom data directory.shift directory.count offset).foldl insertEntry []

def entriesAt (data : ByteArray) (offset : Nat) : Except Fault (List Entry) := do
  let record ← endRecord data offset
  let directory ← match record.locator? data with
    | some locator => locator.directoryOf data
    | none => record.directoryOf data
  directory.entries data

def entriesBefore (data : ByteArray) : (offset : Nat) → Except Fault (List Entry)
  | 0 => throw .noDirectory
  | offset + 1 =>
    match entriesAt data offset with
    | .ok entries => .ok entries
    | .error _ => entriesBefore data offset

def entries (data : ByteArray) : Except Fault (List Entry) :=
  -- A record takes at least 22 bytes.
  entriesBefore data (data.size - 21)

end ArtifactAudit.Archive.Zip
