import ArtifactAudit.Archive.Crc32
import ArtifactAudit.Archive.Inflate
import ArtifactAudit.Archive.LittleEndian

/-!
This module contains the gzip format, in which compressed data stands between a header and a trailer
with its checksum and length. Of several members one after the other the first one is read.
-/

namespace ArtifactAudit.Archive.Gzip

def textLimit : Nat := 65535

def take (count : Nat) (bytes : List UInt8) : Except Fault (List UInt8 × List UInt8) :=
  if count ≤ bytes.length then .ok (bytes.take count, bytes.drop count) else .error .truncated

def skipText (bytes : List UInt8) : Except Fault (List UInt8) :=
  let (content, rest) := bytes.span (· ≠ 0)
  if rest.isEmpty then .error .truncated
  else if content.length > textLimit then .error .badHeader
  else .ok rest.tail

def skipHeader (bytes : List UInt8) : Except Fault (List UInt8) := do
  let (start, rest) ← take 10 bytes
  let flags := (start.getD 3 0).toNat
  if start.take 3 ≠ [0x1F, 0x8B, 8] || flags ≥ 32 then throw .badHeader
  let rest ← if flags.testBit 2 then do
      let (length, rest) ← take 2 rest
      pure (← take (LittleEndian.value length) rest).2
    else pure rest
  let rest ← if flags.testBit 3 then skipText rest else pure rest
  let rest ← if flags.testBit 4 then skipText rest else pure rest
  -- The checksum of the header covers everything in front of it.
  if flags.testBit 1 then do
    let header := bytes.take (bytes.length - rest.length)
    let (checksum, rest) ← take 2 rest
    if LittleEndian.value checksum ≠ (crc32 header).toNat % UInt16.size then throw .badHeader
    return rest
  else return rest

def decode (bytes : List UInt8) : Except Fault (List UInt8) := do
  let (data, rest) ← Inflate.run (← skipHeader bytes)
  let (checksum, rest) ← take 4 rest
  let (length, _) ← take 4 rest
  if LittleEndian.value checksum ≠ (crc32 data).toNat ||
      LittleEndian.value length ≠ data.length % UInt32.size then
    throw .badChecksum
  return data

def blockLimit : Nat := 65535

def storedBlock (last : Bool) (data : List UInt8) : List UInt8 :=
  [if last then 1 else 0] ++ LittleEndian.bytes 2 data.length ++
    LittleEndian.bytes 2 (0xFFFF - data.length) ++ data

def storedBlocks : (steps : Nat) → List UInt8 → List UInt8
  | 0, _ => []
  | steps + 1, data =>
    if data.length ≤ blockLimit then storedBlock true data
    else storedBlock false (data.take blockLimit) ++ storedBlocks steps (data.drop blockLimit)

def encode (data : List UInt8) : List UInt8 :=
  [0x1F, 0x8B, 8, 0, 0, 0, 0, 0, 0, 255] ++ storedBlocks (data.length + 1) data ++
    LittleEndian.bytes 4 (crc32 data).toNat ++ LittleEndian.bytes 4 (data.length % UInt32.size)

end ArtifactAudit.Archive.Gzip
