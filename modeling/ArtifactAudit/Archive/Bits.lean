import ArtifactAudit.Archive.Fault

/-!
This module contains readers of the bits of bytes, the lowest bit of each byte first, and codes for
numbers that such readers decode.
-/

namespace ArtifactAudit.Archive

structure Bits where
  pending : List Bool
  rest : List UInt8
deriving DecidableEq, Repr

abbrev BitReader (α : Type) := StateT Bits (Except Fault) α

namespace Bits

def ofByte (byte : UInt8) : List Bool :=
  (List.range 8).map fun i => byte.toNat.testBit i

def bit : BitReader Bool := fun bits =>
  match bits.pending, bits.rest with
  | b :: pending, rest => .ok (b, ⟨pending, rest⟩)
  | [], byte :: rest =>
    match ofByte byte with
    | b :: pending => .ok (b, ⟨pending, rest⟩)
    | [] => .error .truncated
  | [], [] => .error .truncated

def number : (count : Nat) → BitReader Nat
  | 0 => return 0
  | count + 1 => do
    let low ← bit
    let high ← number count
    return low.toNat + 2 * high

def bytes (count : Nat) : BitReader (List UInt8) := fun bits =>
  let taken := bits.rest.take count
  if taken.length = count then .ok (taken, ⟨[], bits.rest.drop count⟩) else .error .truncated

def u16 : BitReader Nat := do
  match ← bytes 2 with
  | [low, high] => return low.toNat + 256 * high.toNat
  | _ => throw .truncated

end Bits

inductive Code where
  | unused
  | leaf (symbol : Nat)
  | node (zero one : Code)
deriving DecidableEq, Repr

namespace Code

def maxLength : Nat := 15

/--
Grows a tree at some depth from code words in the order of their lengths: the first ones go to the
left. What is left over does not fit below this depth.
-/
def grow : (room depth : Nat) → List (Nat × Nat) → Code × List (Nat × Nat)
  | _, _, [] => (.unused, [])
  | 0, depth, (length, symbol) :: rest =>
    if length = depth then (.leaf symbol, rest) else (.unused, (length, symbol) :: rest)
  | room + 1, depth, (length, symbol) :: rest =>
    if length = depth then (.leaf symbol, rest)
    else
      -- The first branch takes the words that fit and leaves the others to the second one.
      let (zero, rest) := grow room (depth + 1) ((length, symbol) :: rest)
      let (one, rest) := grow room (depth + 1) rest
      (.node zero one, rest)

def complete : Code → Bool
  | .unused => false
  | .leaf _ => true
  | .node zero one => zero.complete && one.complete

/--
The code of the numbers from zero on with some lengths of their code words, where zero stands for
none. It has to be complete unless it has no word or just one of a single bit.
-/
def ofLengths (lengths : List Nat) : Except Fault Code :=
  let words := (lengths.zipIdx.filter (·.1 ≠ 0)).mergeSort fun a b => a.1 ≤ b.1
  let (code, rest) := grow maxLength 0 words
  let isSmall := words.isEmpty || words.map (·.1) == [1]
  if rest.isEmpty && (isSmall || code.complete) then .ok code else .error .badCode

def decode : Code → BitReader Nat
  | .unused => throw .badCode
  | .leaf symbol => return symbol
  | .node zero one => do
    if ← Bits.bit then decode one else decode zero

end Code

end ArtifactAudit.Archive
