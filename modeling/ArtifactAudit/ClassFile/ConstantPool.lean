import ArtifactAudit.ClassFile.ModifiedUtf8
import ArtifactAudit.ClassFile.Reader

/-!
This module contains the constant pool, the table through which everything else in a class file
gets at names.
-/

namespace ArtifactAudit.ClassFile

inductive Constant where
  | utf8 (text : String)
  | number
  /-- A number of eight bytes, which takes two places in the pool. -/
  | wideNumber
  | classRef (name : Nat)
  | string (value : Nat)
  | memberRef (owner nameAndType : Nat)
  | nameAndType (name descriptor : Nat)
  | methodHandle (kind : UInt8) (reference : Nat)
  | methodType (descriptor : Nat)
  | dynamic (bootstrap nameAndType : Nat)
  | invokeDynamic (bootstrap nameAndType : Nat)
  | moduleRef (name : Nat)
  | packageRef (name : Nat)
deriving DecidableEq, Repr

namespace Constant

def width : Constant → Nat
  | .wideNumber => 2
  | _ => 1

theorem width_pos (constant : Constant) : 0 < constant.width := by
  cases constant <;> simp [width]

def read (index : Nat) : Reader Constant := do
  let tag ← Reader.byte
  match tag.toNat with
  | 1 => return .utf8 (ModifiedUtf8.decode (← Reader.bytes (← Reader.u16)))
  | 3 | 4 => Reader.skip 4; return .number
  | 5 | 6 => Reader.skip 8; return .wideNumber
  | 7 => return .classRef (← Reader.u16)
  | 8 => return .string (← Reader.u16)
  | 9 | 10 | 11 => return .memberRef (← Reader.u16) (← Reader.u16)
  | 12 => return .nameAndType (← Reader.u16) (← Reader.u16)
  | 15 => return .methodHandle (← Reader.byte) (← Reader.u16)
  | 16 => return .methodType (← Reader.u16)
  | 17 => return .dynamic (← Reader.u16) (← Reader.u16)
  | 18 => return .invokeDynamic (← Reader.u16) (← Reader.u16)
  | 19 => return .moduleRef (← Reader.u16)
  | 20 => return .packageRef (← Reader.u16)
  | _ => throw (.unknownConstantTag tag index)

def places (constant : Constant) : Array (Option Constant) :=
  match constant with
  | .wideNumber => #[some constant, none]
  | _ => #[some constant]

end Constant

/--
The constants of a class file by index. An index can lead nowhere: zero does, and so does the second
place of a wide constant.
-/
structure ConstantPool where
  places : Array (Option Constant)

namespace ConstantPool

def readPlaces (count : Nat) (taken : Array (Option Constant)) (c : Cursor) :
    Except Fault (Array (Option Constant) × Cursor) :=
  if _h : count = 0 then .ok (taken, c)
  else
    match Constant.read taken.size c with
    | .error fault => .error fault
    | .ok (constant, c) => readPlaces (count - constant.width) (taken ++ constant.places) c
termination_by count
decreasing_by
  have := constant.width_pos
  omega

def read : Reader ConstantPool := do
  let count ← Reader.u16
  -- The place of index zero is counted but not written.
  return ⟨← readPlaces (count - 1) #[none]⟩

def get (pool : ConstantPool) (index : Nat) : Except Fault Constant :=
  match pool.places[index]? with
  | some (some constant) => .ok constant
  | _ => .error (.badConstant index .usableEntry)

def utf8 (pool : ConstantPool) (index : Nat) : Except Fault String := do
  match ← pool.get index with
  | .utf8 text => .ok text
  | _ => .error (.badConstant index .utf8)

def className (pool : ConstantPool) (index : Nat) : Except Fault String := do
  match ← pool.get index with
  | .classRef name => pool.utf8 name
  | _ => .error (.badConstant index .classRef)

def typeOf (pool : ConstantPool) (index : Nat) : Except Fault String := do
  match ← pool.get index with
  | .nameAndType name descriptor =>
    discard (pool.utf8 name)
    pool.utf8 descriptor
  | _ => .error (.badConstant index .nameAndType)

def member (pool : ConstantPool) (index : Nat) : Except Fault (String × String) := do
  match ← pool.get index with
  | .memberRef owner nameAndType =>
    let owner ← pool.className owner
    return (owner, ← pool.typeOf nameAndType)
  | _ => .error (.badConstant index .memberRef)

def handle (pool : ConstantPool) (index : Nat) : Except Fault (String × String) := do
  match ← pool.get index with
  | .methodHandle _ reference => pool.member reference
  | _ => .error (.badConstant index .methodHandle)

def callSite (pool : ConstantPool) (index : Nat) : Except Fault (Nat × String) := do
  match ← pool.get index with
  | .invokeDynamic bootstrap nameAndType => return (bootstrap, ← pool.typeOf nameAndType)
  | _ => .error (.badConstant index .invokeDynamic)

end ConstantPool

end ArtifactAudit.ClassFile
