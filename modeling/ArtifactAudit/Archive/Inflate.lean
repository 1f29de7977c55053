import ArtifactAudit.Archive.Bits

/-!
This module contains the decompression of data in the DEFLATE format.
-/

namespace ArtifactAudit.Archive.Inflate

def lengthCodes : List (Nat × Nat) :=
  [(3, 0), (4, 0), (5, 0), (6, 0), (7, 0), (8, 0), (9, 0), (10, 0), (11, 1), (13, 1), (15, 1),
    (17, 1), (19, 2), (23, 2), (27, 2), (31, 2), (35, 3), (43, 3), (51, 3), (59, 3), (67, 4),
    (83, 4), (99, 4), (115, 4), (131, 5), (163, 5), (195, 5), (227, 5), (258, 0)]

def distanceCodes : List (Nat × Nat) :=
  [(1, 0), (2, 0), (3, 0), (4, 0), (5, 1), (7, 1), (9, 2), (13, 2), (17, 3), (25, 3), (33, 4),
    (49, 4), (65, 5), (97, 5), (129, 6), (193, 6), (257, 7), (385, 7), (513, 8), (769, 8),
    (1025, 9), (1537, 9), (2049, 10), (3073, 10), (4097, 11), (6145, 11), (8193, 12), (12289, 12),
    (16385, 13), (24577, 13)]

def lengthOrder : List Nat :=
  [16, 17, 18, 0, 8, 7, 9, 6, 10, 5, 11, 4, 12, 3, 13, 2, 14, 1, 15]

def extended (codes : List (Nat × Nat)) (symbol : Nat) : BitReader Nat :=
  match codes[symbol]? with
  | some (base, extra) => do return base + (← Bits.number extra)
  | none => throw .badCode

def earlier (distance : Nat) (out : Array UInt8) : UInt8 :=
  if distance ≤ out.size then out.getD (out.size - distance) 0 else 0

def copy (distance : Nat) : (length : Nat) → Array UInt8 → Array UInt8
  | 0, out => out
  | length + 1, out => copy distance length (out.push (earlier distance out))

inductive Word where
  | byte (value : UInt8)
  /-- Bytes that already stand at some distance before the end. -/
  | copy (distance length : Nat)
  | stop
deriving DecidableEq, Repr

def word (literals distances : Code) : BitReader Word := do
  let symbol ← literals.decode
  if symbol < 256 then return .byte symbol.toUInt8
  else if symbol = 256 then return .stop
  else
    let length ← extended lengthCodes (symbol - 257)
    return .copy (← extended distanceCodes (← distances.decode)) length

/--
Takes the words of a compressed block. Each word takes a bit, so the bits before the reader bound
the steps.
-/
def words (literals distances : Code) :
    (steps : Nat) → Array UInt8 → BitReader (Array UInt8)
  | 0, _ => throw .truncated
  | steps + 1, out => do
    match ← word literals distances with
    | .byte value => words literals distances steps (out.push value)
    | .stop => return out
    | .copy distance length => words literals distances steps (copy distance length out)

def storedLength : BitReader Nat := do
  let length ← Bits.u16
  -- The second number is the first one with all bits turned over.
  if length + (← Bits.u16) ≠ 0xFFFF then throw .badBlock
  return length

def storedBlock (out : Array UInt8) : BitReader (Array UInt8) := do
  let length ← storedLength
  return out ++ (← Bits.bytes length)

/--
Takes code lengths until there are `count` of them. Some words repeat the last length or zeros. The
lengths found so far are in reverse order.
-/
def codeLengths (code : Code) (count : Nat) :
    (steps : Nat) → (found : List Nat) → BitReader (List Nat)
  | 0, _ => throw .truncated
  | steps + 1, found => do
    -- The lengths of both codes come in one sequence, so a repetition may reach from one to the
    -- other.
    if found.length = count then return found.reverse
    let symbol ← code.decode
    let (repeated, times) ←
      if symbol < 16 then pure (symbol, 1)
      else if symbol = 16 then
        match found with
        | last :: _ => do pure (last, 3 + (← Bits.number 2))
        | [] => throw .badCode
      else if symbol = 17 then do pure (0, 3 + (← Bits.number 3))
      else do pure (0, 11 + (← Bits.number 7))
    if found.length + times ≤ count then
      codeLengths code count steps (List.replicate times repeated ++ found)
    else throw .badCode

def describedCodes : BitReader (Code × Code) := do
  let literalCount := 257 + (← Bits.number 5)
  let distanceCount := 1 + (← Bits.number 5)
  let lengthCount := 4 + (← Bits.number 4)
  -- The numbers allow for more symbols than the format has.
  if literalCount > 286 || distanceCount > 30 then throw .badCode
  let given ← (lengthOrder.take lengthCount).mapM fun symbol => do
    return (symbol, ← Bits.number 3)
  let code ← Code.ofLengths ((List.range 19).map fun symbol => (given.lookup symbol).getD 0)
  let total := literalCount + distanceCount
  let lengths ← codeLengths code total (total + 1) []
  let literals ← Code.ofLengths (lengths.take literalCount)
  return (literals, ← Code.ofLengths (lengths.drop literalCount))

def fixedCodes : BitReader (Code × Code) := do
  let literals := List.replicate 144 8 ++ List.replicate 112 9 ++ List.replicate 24 7 ++
    List.replicate 8 8
  return (← Code.ofLengths literals, ← Code.ofLengths (List.replicate 32 5))

def block (kind steps : Nat) (out : Array UInt8) : BitReader (Array UInt8) := do
  match kind with
  | 0 => storedBlock out
  | 1 =>
    let (literals, distances) ← fixedCodes
    words literals distances steps out
  | 2 =>
    let (literals, distances) ← describedCodes
    words literals distances steps out
  | _ => throw .badBlock

def blocks (limit : Nat) : (steps : Nat) → Array UInt8 → BitReader (Array UInt8)
  | 0, _ => throw .truncated
  | steps + 1, out => do
    let last ← Bits.bit
    let kind ← Bits.number 2
    let out ← block kind limit out
    if last then return out else blocks limit steps out

def run (bytes : List UInt8) : Except Fault (List UInt8 × List UInt8) := do
  let limit := 8 * bytes.length + 1
  let (out, bits) ← (blocks limit limit #[]).run ⟨[], bytes⟩
  return (out.toList, bits.rest)

end ArtifactAudit.Archive.Inflate
