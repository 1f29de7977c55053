import ArtifactAudit.Text.Quoted

/-!
This module contains the ways in which a class file can fail to be one.
-/

namespace ArtifactAudit.ClassFile

inductive Expected where
  | usableEntry
  | utf8
  | classRef
  | nameAndType
  | memberRef
  | methodHandle
  | invokeDynamic
deriving DecidableEq, Repr

def Expected.text : Expected → String
  | .usableEntry => "usable entry"
  | .utf8 => "Utf8"
  | .classRef => "Class"
  | .nameAndType => "NameAndType"
  | .memberRef => "Fieldref/Methodref"
  | .methodHandle => "MethodHandle"
  | .invokeDynamic => "InvokeDynamic"

inductive Fault where
  | badMagic (magic : Nat)
  | truncated (offset : Nat)
  | unknownConstantTag (tag : UInt8) (index : Nat)
  | badConstant (index : Nat) (expected : Expected)
  | descriptor (text : String)
  | unknownOpcode (opcode : UInt8) (position : Nat)
  | malformedSwitch (position : Nat)
  | elementTag (tag : Char)
  | typeAnnotationTarget (target : UInt8)
  /-- A call site with a bootstrap method that is not declared. -/
  | missingBootstrap (index : Nat)
  | arrayClassName (name : String)
deriving DecidableEq, Repr

def Fault.message : Fault → String
  | .badMagic magic => "not a class file (magic " ++ Text.hexNumber 8 magic ++ ")"
  | .truncated offset => "truncated class file at offset " ++ toString offset
  | .unknownConstantTag tag index =>
    "unknown constant pool tag " ++ toString tag.toNat ++ " at index " ++ toString index
  | .badConstant index expected =>
    "constant pool index " ++ toString index ++ " is not a " ++ expected.text
  | .descriptor text => "malformed descriptor " ++ Text.quoted text
  | .unknownOpcode opcode position =>
    "unknown opcode " ++ Text.hexNumber 2 opcode.toNat ++ " at code offset " ++ toString position
  | .malformedSwitch position => "malformed switch at code offset " ++ toString position
  | .elementTag tag => "unknown annotation element tag " ++ Text.quotedChar tag
  | .typeAnnotationTarget target =>
    "unknown type annotation target " ++ Text.hexNumber 2 target.toNat
  | .missingBootstrap index => "bootstrap method " ++ toString index ++ " is not declared"
  | .arrayClassName name => "expected a class name, got array type " ++ Text.quoted name

end ArtifactAudit.ClassFile
