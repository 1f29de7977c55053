import ArtifactAudit.ClassFile.ConstantPool
import ArtifactAudit.ClassFile.Symbols

/-!
This module contains the reading of annotations. The type of an annotation and the types of enum
constants in it have to be loaded, so they count as used. Class literals and plain constants do not.
-/

namespace ArtifactAudit.ClassFile.Annotations

def descriptorAt (pool : ConstantPool) : Reader (List String) := do
  Descriptor.classes (← pool.utf8 (← Reader.u16))

def annotationWith (pool : ConstantPool) (element : Reader (List String)) :
    Reader (List String) := do
  let type ← descriptorAt pool
  let values ← Reader.table do
    -- This is the name of the element.
    Reader.skip 2
    element
  return type ++ values.flatten

def elementValueWithin (pool : ConstantPool) : (size : Nat) → Reader (List String)
  | 0 => do
    -- Each level takes a byte, so none is left and this fails.
    discard Reader.byte
    return []
  | size + 1 => do
    let tag ← Reader.byte
    let tag := Char.ofNat tag.toNat
    if tag ∈ ['B', 'C', 'D', 'F', 'I', 'J', 'S', 'Z', 's', 'c'] then
      -- This is the index of a constant or of a class literal.
      Reader.skip 2
      return []
    else if tag = 'e' then
      let type ← Reader.u16
      -- This is the name of the enum constant.
      Reader.skip 2
      Descriptor.classes (← pool.utf8 type)
    else if tag = '@' then
      annotationWith pool (elementValueWithin pool size)
    else if tag = '[' then
      return (← Reader.table (elementValueWithin pool size)).flatten
    else
      throw (.elementTag tag)

/--
How many bytes there are. The values in a value of an element are shorter than it is, so this bounds
how deep values nest.
-/
def depthBound : Reader Nat := do
  return (← get).rest.length

def elementValue (pool : ConstantPool) : Reader (List String) := do
  elementValueWithin pool (← depthBound)

def annotationWithin (pool : ConstantPool) (size : Nat) : Reader (List String) :=
  annotationWith pool (elementValueWithin pool size)

def annotationsWithin (pool : ConstantPool) (size : Nat) : Reader (List String) := do
  return (← Reader.table (annotationWithin pool size)).flatten

def annotations (pool : ConstantPool) : Reader (List String) := do
  annotationsWithin pool (← depthBound)

def parameterAnnotations (pool : ConstantPool) : Reader (List String) := do
  let size ← depthBound
  return (← Reader.times (← Reader.byte).toNat (annotationsWithin pool size)).flatten

inductive Target where
  | declaration (length : Nat)
  | localVariables
  | instruction (length : Nat)
deriving DecidableEq, Repr

def Target.ofKind? (kind : UInt8) : Option Target :=
  let n := kind.toNat
  if n = 0x00 || n = 0x01 || n = 0x16 then some (.declaration 1)
  else if (0x10 ≤ n && n ≤ 0x12) || n = 0x17 || n = 0x42 then some (.declaration 2)
  else if 0x13 ≤ n && n ≤ 0x15 then some (.declaration 0)
  else if n = 0x40 || n = 0x41 then some .localVariables
  else if 0x43 ≤ n && n ≤ 0x46 then some (.instruction 2)
  else if 0x47 ≤ n && n ≤ 0x4B then some (.instruction 3)
  else none

def Target.skip : Target → Reader Unit
  | .declaration length => Reader.skip length
  | .localVariables => do Reader.skip ((← Reader.u16) * 6)
  | .instruction length => Reader.skip length

/--
Reads a type annotation from a part of at most `size` bytes. What belongs to an instruction only is
read but does not count as used.
-/
def typeAnnotationWithin (pool : ConstantPool) (size : Nat) : Reader (List String) := do
  let kind ← Reader.byte
  match Target.ofKind? kind with
  | none => throw (.typeAnnotationTarget kind)
  | some target =>
    target.skip
    -- This is the path to the annotated part of the type.
    Reader.skip ((← Reader.byte).toNat * 2)
    let found ← annotationWithin pool size
    match target with
    | .instruction _ => return []
    | _ => return found

def typeAnnotations (pool : ConstantPool) : Reader (List String) := do
  return (← Reader.table (typeAnnotationWithin pool (← depthBound))).flatten

end ArtifactAudit.ClassFile.Annotations
