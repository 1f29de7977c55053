import ArtifactAudit.Archive.Zip.Directory
import ArtifactAudit.ClassFile.Extract
import ArtifactAudit.Error
import ArtifactAudit.FileTree

/-!
This module contains the finding of the class files at a location, which is a directory, an archive
or a single class file, and the extraction of the symbols of all of them.
-/

namespace ArtifactAudit

structure ClassSource where
  source : String
  bytes : List UInt8
deriving DecidableEq, Repr

namespace ClassSource

/--
The files in and below the node at a path, less those in directories whose names start with a dot. A
directory with a path that is too long cannot be read.
-/
def visible (path : Path) : FileNode → Except AuditError (List (Path × ByteArray))
  | .file bytes => .ok [(path, bytes)]
  | .directory entries =>
    -- The directory is only read if its path can be used.
    if FileTree.isUsable path then visibleInAll path entries
    else .error (.unreadableArtifact path (.other "path too long"))
where
  /-- The files in and below some entries of the directory at a path. -/
  visibleInAll (path : Path) :
      List (String × FileNode) → Except AuditError (List (Path × ByteArray))
    | [] => .ok []
    | (name, node) :: rest => do
      let found ←
        if node.isDirectory && Text.startsWith name "." then pure []
        else visible (path.child name) node
      return found ++ (← visibleInAll path rest)

def ofFile (path : Path) (bytes : ByteArray) : Except AuditError ClassSource :=
  if FileTree.isUsable path then .ok ⟨path.text, bytes.data.toList⟩
  else .error (.io path "path too long")

/--
The class file of an entry of the archive at a path, if the entry is one. An entry that cannot be
read is an error even if it is none.
-/
def ofEntry (path : Path) (data : ByteArray) (entry : Archive.Zip.Entry) :
    Except AuditError (Option ClassSource) :=
  match entry.start data with
  | .error fault => .error (.unreadableArtifact path (.other fault.message))
  | .ok start =>
    if entry.isFile && Text.endsWith entry.name ".class" then
      let source := path.text ++ "!/" ++ entry.name
      match entry.content data start with
      | .ok bytes => .ok (some ⟨source, bytes⟩)
      | .error fault => .error (.unreadableArtifact path (.other (source ++ ": " ++ fault.message)))
    else .ok none

def ofArchive (path : Path) (data : ByteArray) : Except AuditError (List ClassSource) :=
  if FileTree.isUsable path then
    match Archive.Zip.entries data with
    | .ok entries => do return (← entries.mapM (ofEntry path data)).filterMap id
    | .error fault => .error (.unreadableArtifact path (.other fault.message))
  else .error (.io path "path too long")

def ofMember (path : Path) (bytes : ByteArray) : Except AuditError (List ClassSource) :=
  if path.hasExtension ["class"] then (ofFile path bytes).map ([·])
  else if path.hasExtension ["jar", "war", "zip"] then ofArchive path bytes
  else .ok []

def ofLocation (path : Path) (bytes : ByteArray) : Except AuditError (List ClassSource) :=
  if path.hasExtension ["class"] then (ofFile path bytes).map ([·])
  else if path.hasExtension ["pom", "xml"] then .ok []
  else ofArchive path bytes

/--
The class files at a location, ordered by the texts that say where they were found. The files of a
directory are read one by one, and the first failure is given. Nothing hangs on their order but that:
where they are read at once it is open which failure is given if there are several.
-/
def collect (tree : FileTree) (location : Path) : Except AuditError (List ClassSource) := do
  let found ← match tree.find? location with
    | none => throw (.unreadableArtifact location .missing)
    | some (.file bytes) => ofLocation location bytes
    | some (.directory entries) => do
      let files ← visible location (.directory entries)
      pure (← files.mapM fun file => ofMember file.1 file.2).flatten
  return found.mergeSort fun a b => !decide (Text.Precedes b.source a.source)

def faultError (location : Path) (source : String) : ClassFile.Fault → AuditError
  | .arrayClassName name => .invalidInput (.badClass source (.arrayClassName name))
  | fault => .unreadableArtifact location (.badClass source fault)

def symbols (skipDebug : Bool) (location : Path) (entry : ClassSource) :
    Except AuditError ClassFile.Symbols :=
  match ClassFile.extract skipDebug entry.bytes with
  | .ok symbols => .ok symbols
  | .error fault => .error (faultError location entry.source fault)

/--
What class files define and use together. As in `collect`, it is the first of several failures that is
given, and another one may be where the files are read at once.
-/
def extractAll (skipDebug : Bool) (location : Path) (sources : List ClassSource) :
    Except AuditError ClassFile.Symbols := do
  return (← sources.mapM (symbols skipDebug location)).foldl ClassFile.Symbols.merge ∅

def symbolsAt (tree : FileTree) (skipDebug : Bool) (location : Path) :
    Except AuditError ClassFile.Symbols := do
  extractAll skipDebug location (← collect tree location)

end ClassSource

end ArtifactAudit
