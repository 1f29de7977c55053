import ArtifactAudit.Archive.Zip.Entry

/-!
This module contains the extra fields of the directory of a zip archive. Some of them replace what
the directory says about an entry.
-/

namespace ArtifactAudit.Archive.Zip.ExtraField

/--
Reads the extra fields of an entry and changes the entry on the way. What was changed before a fault
stays so.
-/
abbrev Reader (α : Type) := ExceptT Fault (StateM (Entry × List UInt8)) α

def take (count : Nat) : Reader (List UInt8) := do
  let (entry, rest) ← get
  if rest.length < count then throw .truncated
  set (entry, rest.drop count)
  return rest.take count

def number (count : Nat) : Reader Nat := do
  return LittleEndian.value (← take count)

def update (change : Entry → Entry) : Reader Unit :=
  modify fun (entry, rest) => (change entry, rest)

/--
What the directory says in place of a number that takes more than four bytes.
-/
def absent : Nat := 0xFFFFFFFF

def largeNumber (isGiven : Bool) (current : Entry → Nat) (change : Nat → Entry → Entry) :
    Reader Nat := do
  let (entry, _) ← get
  if isGiven || current entry = absent then
    let n ← number 8
    update (change n)
    return 8
  else return 0

def largeNumbers (length : Nat) : Reader Unit := do
  let all := decide (24 ≤ length)
  let first ← largeNumber all (·.length) fun n entry => { entry with length := n }
  let second ← largeNumber all (·.size) fun n entry => { entry with size := n }
  let third ← largeNumber all (·.header) fun n entry => { entry with header := n }
  if length < first + second + third then throw .badHeader
  discard <| take (length - (first + second + third))

def text (length : Nat) (current : Entry → List UInt8) : Reader (List UInt8 × String) := do
  -- A version comes first.
  discard <| take 1
  let checksum ← number 4
  if length < 5 then throw .badHeader
  let content ← take (length - 5)
  let (entry, _) ← get
  if (crc32 (current entry)).toNat ≠ checksum then throw .badChecksum
  match String.fromUTF8? ⟨content.toArray⟩ with
  | some spelled => return (content, spelled)
  | none => throw .badHeader

/--
Times in seconds. A byte tells which of them are there, but that may also be meant for another
header, so a field of five bytes always has one of them.
-/
def times (length : Nat) : Reader Unit := do
  let marks ← number 1
  let count := ((List.range 8).filter marks.testBit).length
  if length ≠ 5 && length ≠ 1 + 4 * count then throw .unsupported
  if marks.testBit 0 || length = 5 then discard <| take 4
  if marks.testBit 1 && length > 5 then discard <| take 4
  if marks.testBit 2 && length > 5 then discard <| take 4

def fineTimes (length : Nat) : Reader Unit := do
  if length ≠ 32 then throw .unsupported
  discard <| take 4
  let tag ← number 2
  if tag ≠ 1 then throw .unsupported
  let size ← number 2
  if size ≠ 24 then throw .unsupported
  discard <| take 24

def encryption (length : Nat) : Reader Unit := do
  if length ≠ 7 then throw .unsupported
  let version ← number 2
  let vendor ← number 2
  let strength ← number 1
  let method ← number 2
  if vendor ≠ 0x4541 || !(1 ≤ version && version ≤ 2) || !(1 ≤ strength && strength ≤ 3) then
    throw .badHeader
  update fun entry => { entry with method, isSealed := true }

def field : Reader Unit := do
  let kind ← number 2
  let length ← number 2
  match kind with
  | 0x0001 => largeNumbers length
  | 0x000A => fineTimes length
  | 0x5455 => times length
  | 0x6375 =>
    let (_, comment) ← text length (·.comment.toUTF8.data.toList)
    update fun entry => { entry with comment }
  | 0x7075 =>
    let (rawName, name) ← text length (·.rawName)
    update fun entry => { entry with name, rawName }
  | 0x9901 => encryption length
  | _ => discard <| take length

/--
Takes all fields. Each of them takes bytes, so the bytes before the reader bound the steps.
-/
def fields : (steps : Nat) → Reader Unit
  | 0 => return
  | steps + 1 => do
    let (_, rest) ← get
    if rest.isEmpty then return
    field
    fields steps

/--
The entry that some extra fields make of another one. Fields that end too early are passed over.
-/
def apply (entry : Entry) (extra : List UInt8) : Except Fault Entry :=
  match (fields extra.length).run.run (entry, extra) with
  | (.ok (), entry, _) => .ok entry
  | (.error .truncated, entry, _) => .ok entry
  | (.error fault, _, _) => .error fault

end ArtifactAudit.Archive.Zip.ExtraField
