import ArtifactAudit.NameMap
import ArtifactAudit.Path

/-!
This module contains trees of files and directories, the finding of paths in them, and their
changes. A path leads from the working directory or, if it is absolute, from the root, segment by
segment, and each segment but the last one has to be a directory that is there.
-/

namespace ArtifactAudit

inductive FileNode where
  | file (bytes : ByteArray)
  | directory (entries : List (String × FileNode))

namespace FileNode

instance : Inhabited FileNode := ⟨.directory []⟩

def entries : FileNode → List (String × FileNode)
  | .file _ => []
  | .directory entries => entries

def isDirectory : FileNode → Bool
  | .file _ => false
  | .directory _ => true

def at? : List String → FileNode → Option FileNode
  | [], node => some node
  | name :: rest, node => (node.entries.lookup name).bind (at? rest)

def changeAt (change : List (String × FileNode) → List (String × FileNode)) :
    List String → FileNode → FileNode
  | _, .file bytes => .file bytes
  | [], .directory entries => .directory (change entries)
  | name :: rest, .directory entries =>
    .directory (entries.map fun entry =>
      if entry.1 = name then (name, changeAt change rest entry.2) else entry)

mutual

def fileCount : FileNode → Nat
  | .file _ => 1
  | .directory entries => fileCountOfAll entries

def fileCountOfAll : List (String × FileNode) → Nat
  | [] => 0
  | (_, node) :: rest => fileCount node + fileCountOfAll rest

end

mutual

def files (path : Path) : FileNode → List (Path × ByteArray)
  | .file bytes => [(path, bytes)]
  | .directory entries => filesOfAll path entries

def filesOfAll (path : Path) : List (String × FileNode) → List (Path × ByteArray)
  | [] => []
  | (name, node) :: rest => files (path.child name) node ++ filesOfAll path rest

end

end FileNode

structure FileTree where
  root : FileNode
  workingDirectory : List String

namespace FileTree

/--
How many bytes a path must stay below.
-/
def pathLimit : Nat := 4096

/--
How many bytes a name may have.
-/
def nameLimit : Nat := 255

def isUsable (path : Path) : Bool :=
  !path.text.isEmpty && path.text.utf8ByteSize < pathLimit

def isName (name : String) : Bool :=
  !Path.isIdle name && name ≠ ".." && name.utf8ByteSize ≤ nameLimit && '\x00' ∉ name.toList

def follow (tree : FileTree) : (segments location : List String) → Option (List String)
  | [], location => some location
  | segment :: rest, location =>
    match tree.root.at? location with
    | some (.directory entries) =>
      if Path.isIdle segment then follow tree rest location
      -- The entry `..` of the root is the root itself.
      else if segment = ".." then follow tree rest location.dropLast
      else if (entries.lookup segment).isSome then follow tree rest (location ++ [segment])
      else none
    | _ => none

def locate? (tree : FileTree) (path : Path) : Option (List String) :=
  if isUsable path then
    tree.follow (Text.parts '/' path.text) (if path.isAbsolute then [] else tree.workingDirectory)
  else none

def find? (tree : FileTree) (path : Path) : Option FileNode :=
  (tree.locate? path).bind fun location => tree.root.at? location

def exists? (tree : FileTree) (path : Path) : Bool :=
  (tree.find? path).isSome

def isDirectory (tree : FileTree) (path : Path) : Bool :=
  (tree.find? path).any FileNode.isDirectory

def isFile (tree : FileTree) (path : Path) : Bool :=
  (tree.find? path).any (!·.isDirectory)

def read? (tree : FileTree) (path : Path) : Option ByteArray :=
  match tree.find? path with
  | some (.file bytes) => some bytes
  | _ => none

def readText? (tree : FileTree) (path : Path) : Option String := do
  String.fromUTF8? (← tree.read? path)

def place? (tree : FileTree) (path : Path) : Option (List String × String) := do
  if !isUsable path then none
  let text := (path.text.toList.reverse.dropWhile (· = '/')).reverse
  let (directory, name) := (Text.cutLast? '/' (String.ofList text)).getD (".", String.ofList text)
  -- The slash makes sure that it is a directory.
  let location ← tree.locate? ⟨directory ++ "/"⟩
  return (location, name)

def put (tree : FileTree) (location : List String) (name : String) (node : FileNode) : FileTree :=
  { tree with root := tree.root.changeAt (NameMap.insertEntry name node) location }

def erase (tree : FileTree) (location : List String) (name : String) : FileTree :=
  { tree with root := tree.root.changeAt (·.filter (·.1 ≠ name)) location }

/--
Writes a file, which is made if its directory is there. What is not a file stays as it is.
-/
def write? (tree : FileTree) (path : Path) (bytes : ByteArray) : Option FileTree := do
  let (location, name) ← tree.place? path
  match tree.find? path with
  | some (.file _) => return tree.put location name (.file bytes)
  | some (.directory _) => none
  | none =>
    if isName name && !Text.endsWith path.text "/" &&
        (tree.root.at? (location ++ [name])).isNone then
      return tree.put location name (.file bytes)
    else none

inductive Making where
  | made (tree : FileTree)
  | unplaced
  | refused

def makeDirectory (tree : FileTree) (path : Path) : Making :=
  if path.text.utf8ByteSize < pathLimit then
    match tree.place? path with
    | none => .unplaced
    | some (location, name) =>
      if isName name && (tree.root.at? (location ++ [name])).isNone then
        .made (tree.put location name (.directory []))
      else .refused
  else .refused

/--
Makes a directory after the ones that lead to it. The tree is the one that is left, with whether the
directory is there. Each step takes a segment off the path.
-/
def makeDirectoriesWithin (tree : FileTree) : (steps : Nat) → Path → FileTree × Bool
  | 0, _ => (tree, false)
  | steps + 1, path =>
    if path.text.isEmpty then (tree, true)
    else
      match tree.makeDirectory path with
      | .made tree => (tree, true)
      -- The directory may have been there before.
      | .refused => (tree, tree.isDirectory path)
      | .unplaced =>
        match path.parent? with
        | none => (tree, false)
        | some parent =>
          match tree.makeDirectoriesWithin steps parent with
          | (tree, false) => (tree, false)
          | (tree, true) =>
            match tree.makeDirectory path with
            | .made tree => (tree, true)
            | _ => (tree, tree.isDirectory path)

def makeDirectories (tree : FileTree) (path : Path) : FileTree × Bool :=
  tree.makeDirectoriesWithin (path.text.length + 2) path

def remove? (tree : FileTree) (path : Path) : Option FileTree := do
  let _ ← tree.find? path
  let (location, name) ← tree.place? path
  if isName name then return tree.erase location name else none

/--
Moves what a path stands for. It may take the place of a file if it is one, and of a directory
without entries if it is a directory.
-/
def rename? (tree : FileTree) (path target : Path) : Option FileTree := do
  let node ← tree.find? path
  let (location, name) ← tree.place? path
  let (newLocation, newName) ← tree.place? target
  -- A directory cannot be moved into itself.
  if !(isName name && isName newName) || (location ++ [name]).isPrefixOf newLocation then none
  let fits : Bool := match tree.root.at? (newLocation ++ [newName]), node with
    | none, .file _ => !Text.endsWith target.text "/"
    | none, .directory _ => true
    | some (.file _), .file _ => !Text.endsWith target.text "/"
    | some (.directory entries), .directory _ =>
      entries.isEmpty || location ++ [name] = newLocation ++ [newName]
    | _, _ => false
  if fits then return (tree.erase location name).put newLocation newName node else none

end FileTree

end ArtifactAudit
