import ArtifactAudit.ClassFile.Annotations

/-!
This module contains the reading of method bodies: their instructions, exception handlers and
attributes.
-/

namespace ArtifactAudit.ClassFile.Code

structure Context where
  pool : ConstantPool
  /-- The method handles of the bootstrap methods that the class declares. -/
  bootstraps : List Nat
  skipDebug : Bool

inductive Operands where
  | plain (length : Nat)
  | type (length : Nat)
  | member (length : Nat)
  | callSite
  | wide
  | tableSwitch
  | lookupSwitch
deriving DecidableEq, Repr

def Operands.ofOpcode? (opcode : UInt8) : Option Operands :=
  let n := opcode.toNat
  let within (low high : Nat) : Bool := low ≤ n && n ≤ high
  if n ∈ [0xBB, 0xBD, 0xC0, 0xC1] then some (.type 0)
  else if n = 0xC5 then some (.type 1)
  else if within 0xB2 0xB8 then some (.member 0)
  else if n = 0xB9 then some (.member 2)
  else if n = 0xBA then some .callSite
  else if n = 0xAA then some .tableSwitch
  else if n = 0xAB then some .lookupSwitch
  else if n = 0xC4 then some .wide
  else if within 0x00 0x0F || within 0x1A 0x35 || within 0x3B 0x83 || within 0x85 0x98 ||
      within 0xAC 0xB1 || n ∈ [0xBE, 0xBF, 0xC2, 0xC3] then some (.plain 0)
  else if n ∈ [0x10, 0x12, 0xA9, 0xBC] || within 0x15 0x19 || within 0x36 0x3A then some (.plain 1)
  else if n ∈ [0x11, 0x13, 0x14, 0x84, 0xC6, 0xC7] || within 0x99 0xA8 then some (.plain 2)
  else if n = 0xC8 || n = 0xC9 then some (.plain 4)
  else none

def padding (position : Nat) : Nat := 3 - position % 4

def Operands.read (context : Context) (position : Nat) : Operands → Reader (List String)
  | .plain length => do
    Reader.skip length
    return []
  | .type length => do
    let found ← ownerClasses (← context.pool.className (← Reader.u16))
    Reader.skip length
    return found
  | .member length => do
    let (owner, descriptor) ← context.pool.member (← Reader.u16)
    let owners ← ownerClasses owner
    let found ← Descriptor.classes descriptor
    Reader.skip length
    return owners ++ found
  | .callSite => do
    let (bootstrap, descriptor) ← context.pool.callSite (← Reader.u16)
    -- These bytes are always zero.
    Reader.skip 2
    let found ← Descriptor.classes descriptor
    match context.bootstraps[bootstrap]? with
    | none => throw (.missingBootstrap bootstrap)
    | some handle =>
      let (owner, descriptor) ← context.pool.handle handle
      let owners ← plainClass owner
      return found ++ owners ++ (← Descriptor.classes descriptor)
  | .wide => do
    let opcode ← Reader.byte
    -- Only an increment has a second operand.
    Reader.skip (if opcode = 0x84 then 4 else 2)
    return []
  | .tableSwitch => do
    Reader.skip (padding position)
    -- Here stands where to go on with all other numbers.
    Reader.skip 4
    let low ← Reader.i32
    let high ← Reader.i32
    let targets := high - low + 1
    if targets < 0 then throw (.malformedSwitch position)
    Reader.skip (targets.toNat * 4)
    return []
  | .lookupSwitch => do
    Reader.skip (padding position)
    -- Here stands where to go on with all other numbers.
    Reader.skip 4
    let pairs ← Reader.i32
    if pairs < 0 then throw (.malformedSwitch position)
    Reader.skip (pairs.toNat * 8)
    return []

def instruction (context : Context) (position : Nat) : Reader (List String) := do
  let opcode ← Reader.byte
  match Operands.ofOpcode? opcode with
  | some operands => operands.read context position
  | none => throw (.unknownOpcode opcode position)

/--
The classes that a sequence of instructions refers to. Every instruction takes at least one byte, so
there are at most as many as there are bytes.
-/
def instructions (context : Context) (code : Cursor) : Except Fault (List String) :=
  go code.rest.length [] code
where
  go : Nat → List String → Cursor → Except Fault (List String)
    | 0, found, _ => .ok found
    | count + 1, found, c =>
      if c.rest.isEmpty then .ok found
      else
        match instruction context (c.offset - code.offset) c with
        | .ok (names, c) => go count (names ++ found) c
        | .error fault => .error fault

def handler (pool : ConstantPool) : Reader (List String) := do
  -- This is the range of instructions, and where the handler starts.
  Reader.skip 6
  let type ← Reader.u16
  if type = 0 then return []
  plainClass (← pool.className type)

def localVariable (pool : ConstantPool) : Reader (List String) := do
  -- This is where the variable lives, and its name.
  Reader.skip 6
  let descriptor ← Reader.u16
  Reader.skip 2
  Descriptor.classes (← pool.utf8 descriptor)

def nestedAttribute (context : Context) (name : String) (body : Cursor) :
    Except Fault (List String) :=
  if name = "LocalVariableTable" && !context.skipDebug then
    Reader.within body do
      return (← Reader.table (localVariable context.pool)).flatten
  else if name = "RuntimeVisibleTypeAnnotations" || name = "RuntimeInvisibleTypeAnnotations" then
    Reader.within body (Annotations.typeAnnotations context.pool)
  else .ok []

def body (context : Context) : Reader (List String) := do
  -- These are the sizes of the stack and of the frame.
  Reader.skip 4
  let code ← Reader.part (← Reader.u32)
  let used ← instructions context code
  let caught ← Reader.table (handler context.pool)
  let more ← Reader.table do
    let name ← context.pool.utf8 (← Reader.u16)
    let part ← Reader.part (← Reader.u32)
    nestedAttribute context name part
  return used ++ caught.flatten ++ more.flatten

end ArtifactAudit.ClassFile.Code
