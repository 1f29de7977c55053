/-!
This module contains the checksum CRC-32 in the form that gzip and zip use.
-/

namespace ArtifactAudit.Archive

/--
The generator polynomial with the lowest power in the highest bit.
-/
def crcPolynomial : UInt32 := 0xEDB88320

def crcShift (remainder : UInt32) : UInt32 :=
  if remainder &&& 1 = 1 then (remainder >>> 1) ^^^ crcPolynomial else remainder >>> 1

def crcStep (remainder : UInt32) (byte : UInt8) : UInt32 :=
  Nat.repeat crcShift 8 (remainder ^^^ byte.toUInt32)

def crc32 (bytes : List UInt8) : UInt32 :=
  bytes.foldl crcStep 0xFFFFFFFF ^^^ 0xFFFFFFFF

example : crc32 [49, 50, 51, 52, 53, 54, 55, 56, 57] = 0xCBF43926 := by decide +kernel

end ArtifactAudit.Archive
