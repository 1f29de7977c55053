import ArtifactAudit.ClassFile.Fault

/-!
This module contains readers of the big endian numbers, the tables and the nested parts that class
files are made of. A reader that needs more bytes than there are fails with the offset it stands at.
-/

namespace ArtifactAudit.ClassFile

structure Cursor where
  rest : List UInt8
  offset : Nat
deriving DecidableEq, Repr

def Cursor.start (bytes : List UInt8) : Cursor := ⟨bytes, 0⟩

abbrev Reader (α : Type) := StateT Cursor (Except Fault) α

namespace Reader

variable {α : Type}

def bytes (count : Nat) : Reader (List UInt8) := fun c =>
  let taken := c.rest.take count
  if taken.length = count then .ok (taken, ⟨c.rest.drop count, c.offset + count⟩)
  else .error (.truncated c.offset)

def skip (count : Nat) : Reader Unit := do
  discard (bytes count)

def bigEndian (bs : List UInt8) : Nat :=
  bs.foldl (fun n b => n * 256 + b.toNat) 0

def byte : Reader UInt8 := fun c =>
  match c.rest with
  | b :: rest => .ok (b, ⟨rest, c.offset + 1⟩)
  | [] => .error (.truncated c.offset)

def u16 : Reader Nat := do
  return bigEndian (← bytes 2)

def u32 : Reader Nat := do
  return bigEndian (← bytes 4)

def i32 : Reader Int := do
  return Int.bmod (← u32) UInt32.size

def part (length : Nat) : Reader Cursor := do
  let offset := (← get).offset
  return ⟨← bytes length, offset⟩

def times (count : Nat) (reader : Reader α) : Reader (List α) :=
  go count []
where
  go : Nat → List α → Cursor → Except Fault (List α × Cursor)
    | 0, found, c => .ok (found.reverse, c)
    | count + 1, found, c =>
      match reader c with
      | .ok (a, c) => go count (a :: found) c
      | .error fault => .error fault

def table (reader : Reader α) : Reader (List α) := do
  times (← u16) reader

def within (c : Cursor) (reader : Reader α) : Except Fault α :=
  reader.run' c

end Reader

end ArtifactAudit.ClassFile
