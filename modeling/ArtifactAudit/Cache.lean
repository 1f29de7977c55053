import ArtifactAudit.Archive.Gzip
import ArtifactAudit.Coordinate.Key
import ArtifactAudit.Error
import ArtifactAudit.FileTree
import ArtifactAudit.Json.Parser
import ArtifactAudit.Json.Printer
import ArtifactAudit.Record

/-!
This module contains caches, which store the record of each artifact in a compressed file. An entry
is written under another name first, so it is there as a whole or not at all.
-/

namespace ArtifactAudit

structure Cache where
  directory : Path
  /-- The time at which records are written, in seconds since 1970. -/
  time : Nat := 0
  /-- What the names of files that are being written are marked with. -/
  mark : String := "0.0"
deriving DecidableEq, Repr

namespace Cache

def directoryName : String := "dependency-data"

def inRepository (repository : Path) : Path :=
  repository.child directoryName

def entryEnding : String := ".json.gz"

def entryPath (cache : Cache) (c : Coordinate) : Path :=
  cache.directory.child (c.key ++ entryEnding)

def temporaryPath (cache : Cache) (c : Coordinate) : Path :=
  cache.directory.child (c.key ++ entryEnding ++ "." ++ cache.mark ++ ".tmp")

def encode (record : Record) : ByteArray :=
  ⟨(Archive.Gzip.encode record.toJson.compact.toUTF8.data.toList).toArray⟩

def decode? (content : ByteArray) : Option Record := do
  let data ← (Archive.Gzip.decode content.data.toList).toOption
  (Json.ofBytes? data).bind Record.ofJson?

/--
The record of a coordinate. There is none if the coordinate has no file or if its record has another
form than is read here. Any other file is a fault.
-/
def load (cache : Cache) (tree : FileTree) (c : Coordinate) : Except AuditError (Option Record) :=
  let path := cache.entryPath c
  if tree.exists? path then
    match (tree.read? path).bind decode? with
    | none => .error (.corruptCache path (.other "not a record"))
    | some record =>
      if !record.metadata.compatible then .ok none
      else if record.coordinate ≠ c then
        .error (.corruptCache path (.belongsTo record.coordinate))
      else .ok (some record)
  else .ok none

/--
Stores the record of a summary. The tree is the one that is left, also after a failure.
-/
def store (cache : Cache) (tree : FileTree) (summary : Summary) :
    Except AuditError Path × FileTree :=
  match tree.makeDirectories cache.directory with
  | (tree, false) => (.error (.io cache.directory "cannot make directory"), tree)
  | (tree, true) =>
    let temporary := cache.temporaryPath summary.coordinate
    let path := cache.entryPath summary.coordinate
    match tree.write? temporary (encode (.ofSummary cache.time summary)) with
    | none => (.error (.io temporary "cannot write"), tree)
    | some written =>
      match written.rename? temporary path with
      | some tree => (.ok path, tree)
      -- The file under the other name is of no use then.
      | none => (.error (.io path "cannot rename"), (written.remove? temporary).getD written)

end Cache

end ArtifactAudit
