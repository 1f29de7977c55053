import ArtifactAudit.Program
import Std.Time.DateTime.Timestamp

/-!
This module contains the program as a process. It reads the files that an audit may need into a
tree, runs the program on them, and writes those that have changed. What can be decided without the
system is decided by the program.
-/

namespace ArtifactAudit.Disk

def place? (path : Path) : IO (Option String) := do
  try return some (← IO.FS.realPath path.text).toString
  catch _ => return none

def isDirectory (path : Path) : IO Bool := do
  try (← IO.FS.realPath path.text).isDir
  catch _ => return false

/--
What is at a path. A link to one of the directories above is left out, like all that cannot be read.
-/
partial def node? (above : List String) (path : String) : IO (Option FileNode) := do
  try
    let place ← IO.FS.realPath path
    if ← place.isDir then
      if place.toString ∈ above then return none
      let entries ← (← place.readDir).toList.filterMapM fun entry => do
        let node ← node? (place.toString :: above) entry.path.toString
        return node.map fun node => (entry.fileName, node)
      return some (.directory (entries.mergeSort fun a b => !decide (Text.Precedes b.1 a.1)))
    else if (← place.metadata).type == .file then
      return some (.file (← IO.FS.readBinFile place))
    else return none
  catch _ => return none

def add (tree : FileTree) (path : Path) : IO FileTree := do
  match ← node? [] path.text with
  | none => return tree
  | some (.file bytes) =>
    -- The tree has only what was read, so the way to the file has to be made.
    let (tree, _) := tree.makeDirectories (path.parent?.getD ⟨"."⟩)
    return (tree.write? path bytes).getD tree
  | some (.directory entries) =>
    let (tree, _) := tree.makeDirectories path
    match tree.locate? path with
    | some location => return { tree with root := tree.root.changeAt (fun _ => entries) location }
    | none => return tree

def addPlace (tree : FileTree) (path : Path) : IO FileTree := do
  if ← isDirectory path then return (tree.makeDirectories path).1 else return tree

/--
Adds the descriptor of the project at a path and its compiled classes, and all projects that it
names by paths: its parent and its modules. Those of the given places have been added before.
-/
partial def addProject (tree : FileTree) (known : List String) (path : Path) :
    IO (FileTree × List String) := do
  let file := if ← isDirectory path then path.child Pom.Loader.fileName else path
  let some place ← place? file | return (tree, known)
  -- This path may lead to the place in another way.
  if place ∈ known then return (← addPlace tree path, known)
  let directory := ProjectBuilder.directoryOf file
  let tree ← add (← add tree file) (directory.child "target")
  match (tree.readText? file).map Pom.Model.parse with
  | some (.ok model) =>
    let parents := model.parent.toList.map (·.relativePath.getD Pom.Loader.defaultParentPath)
    (parents ++ model.modules).foldlM (fun (tree, known) name =>
      addProject tree known (directory.join ⟨name⟩)) (tree, place :: known)
  | _ => return (tree, place :: known)

def addTarget (tree : FileTree) : Target → IO FileTree
  | .coordinate _ => return tree
  | .dependencyList file => return (← addProject tree [] file).1
  | .project path => return (← addProject tree [] path).1

def start : IO FileTree := do
  let here : Path := ⟨(← IO.currentDir).toString⟩
  let tree : FileTree := ⟨.directory [], []⟩
  return { (tree.makeDirectories here).1 with workingDirectory := here.segments.2 }

def snapshot (environment : Environment) (line : CommandLine) : IO FileTree := do
  let tree ← add (← start) ⟨(line.value? .config).getD Config.fileName⟩
  let tree ← match (line.value? .dot).bind fun file => (Path.mk file).parent? with
    | some directory => addPlace tree directory
    | none => pure tree
  match Program.config line tree with
  | .error _ => return tree
  | .ok config =>
    let settings := Program.settings line config
    let tree ← addTarget tree (Program.target line.command)
    match settings.repositoryRoot environment with
    | .error _ => return tree
    | .ok root =>
      let tree ← add tree root
      match settings.cache environment root with
      | some cache => add tree cache.directory
      | none => return tree

partial def save (path : String) (before : Option FileNode) : FileNode → IO Unit
  | .file bytes => do
    if let some (.file old) := before then
      if old.size == bytes.size && hash old == hash bytes then return
    IO.FS.writeBinFile path bytes
  | .directory entries => do
    if before.isNone then IO.FS.createDirAll path
    entries.forM fun (name, node) =>
      save (path ++ "/" ++ name) (before.bind fun before => before.entries.lookup name) node

def environment : IO Environment := do
  let time ← Std.Time.Timestamp.now
  return {
    home := (← IO.getEnv "HOME").map Path.mk
    time := time.toSecondsSinceUnixEpoch.val.toNat }

def print (text : String) : IO Bool := do
  try
    let output ← IO.getStdout
    output.putStr text
    output.flush
    return true
  catch _ => return false

def run (arguments : List String) : IO UInt32 := do
  let environment ← environment
  let tree ← match CommandLine.parse arguments with
    | .run line => snapshot environment line
    | .misuse =>
      IO.eprint Program.usage
      start
    | _ => start
  let outcome := Program.start environment true arguments tree
  -- That nothing can be written is known only after the attempt.
  let outcome := if ← print outcome.output then outcome
    else Program.start environment false arguments tree
  save "" (some tree.root) outcome.tree.root
  if let some error := outcome.error then
    IO.eprintln ("[ERROR] " ++ error.message)
  return outcome.exitCode.toUInt32

end ArtifactAudit.Disk

def main (arguments : List String) : IO UInt32 := do
  try ArtifactAudit.Disk.run arguments
  catch error =>
    IO.eprintln ("[ERROR] " ++ toString error)
    return 2
