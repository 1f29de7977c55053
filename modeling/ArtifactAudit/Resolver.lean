import ArtifactAudit.Attribution
import ArtifactAudit.Cache
import ArtifactAudit.ClassSource
import ArtifactAudit.CoordinateMap
import ArtifactAudit.Project
import ArtifactAudit.Report

/-!
This module contains the resolution of artifacts: an artifact is summarized after the artifacts that
it depends on, and each artifact once. An artifact that is met again while it is being resolved
depends on itself.
-/

namespace ArtifactAudit

inductive Resolution where
  | inProgress
  | done (summary : Summary)

structure Resolver (Memory : Type) where
  provider : Provider Memory
  memory : Memory
  tree : FileTree
  cache : Option Cache := none
  skipDebug : Bool := false
  table : CoordinateMap Resolution := ∅
  /-- The artifacts that are done, in the order in which they were. -/
  order : List Coordinate := []
  roots : List Summary := []
  /-- Artifacts that count instead of those of the provider, and are not cached. -/
  overlay : CoordinateMap Artifact := ∅

abbrev Resolving (Memory α : Type) := ExceptT AuditError (StateM (Resolver Memory)) α

namespace Resolver

variable {Memory : Type}

def get? (resolver : Resolver Memory) (c : Coordinate) : Option Summary :=
  match resolver.table.get? c with
  | some (.done summary) => some summary
  | _ => none

def artifacts (resolver : Resolver Memory) : Catalog :=
  .ofList (resolver.table.entries.filterMap fun entry =>
    match entry.2 with
    | .done summary => some summary
    | .inProgress => none)

def summaries (resolver : Resolver Memory) : List Summary :=
  resolver.order.filterMap resolver.get?

def report (resolver : Resolver Memory) : Report :=
  ⟨resolver.roots, resolver.artifacts⟩

def oneLine (resolver : Resolver Memory) : String :=
  let cache := match resolver.cache with
    | some cache => "Some(ArtifactCache \x7b dir: " ++ Text.quoted cache.directory.text ++ " \x7d)"
    | none => "None"
  "Resolver \x7b cache: " ++ cache ++ ", artifacts: " ++ toString resolver.order.length ++
    ", roots: " ++ toString resolver.roots.length ++ ", local: " ++
    toString resolver.overlay.size ++ " \x7d"

def mark (c : Coordinate) (resolution : Resolution) (resolver : Resolver Memory) :
    Resolver Memory :=
  { resolver with table := resolver.table.insert c resolution }

def unmark (c : Coordinate) (resolver : Resolver Memory) : Resolver Memory :=
  { resolver with table := resolver.table.erase c }

def finish (c : Coordinate) (summary : Summary) (resolver : Resolver Memory) : Resolver Memory :=
  { resolver.mark c (.done summary) with order := resolver.order ++ [c] }

def ask {α : Type} (question : Provider Memory → FileTree → ExceptT AuditError (StateM Memory) α) :
    Resolving Memory α :=
  ExceptT.mk do
    let resolver ← get
    let (answer, memory) := (question resolver.provider resolver.tree).run resolver.memory
    set { resolver with memory }
    return answer

/--
The artifact of a coordinate, and whether it may be cached.
-/
def find (c : Coordinate) : Resolving Memory (Artifact × Bool) := do
  match (← get).overlay.get? c with
  | some artifact => return (artifact, false)
  | none => return (← ask fun provider tree => provider.fetch tree c, true)

/--
The record of an artifact that may be cached, if the cache has one. An entry that cannot be read
counts as none.
-/
def recordOf (c : Coordinate) (cacheable : Bool) : Resolving Memory (Option Record) := do
  let resolver ← get
  match cacheable, resolver.cache with
  | true, some cache =>
    match cache.load resolver.tree c with
    | .ok record => return record
    | .error error => if error.recoverable then return none else throw error
  | _, _ => return none

def analyze (tree : FileTree) (skipDebug : Bool) (c : Coordinate) (declared : DependencySet)
    (location : Path) : Except AuditError Summary := do
  return .ofSymbols c declared (← ClassSource.symbolsAt tree skipDebug location)

def store (summary : Summary) : Resolving Memory Unit :=
  ExceptT.mk do
    let resolver ← get
    match resolver.cache with
    | none => return .ok ()
    | some cache =>
      let (result, tree) := cache.store resolver.tree summary
      set { resolver with tree }
      return result.map fun _ => ()

def compute (c : Coordinate) (artifact : Artifact) (cacheable : Bool) (declared : DependencySet) :
    Resolving Memory Summary := do
  let resolver ← get
  let summary ← ExceptT.mk (pure
    (analyze resolver.tree resolver.skipDebug c declared artifact.location))
  if cacheable then store summary
  return summary

abbrev Ended (Memory α : Type) := Except AuditError α × Resolver Memory

mutual

/--
Resolves an artifact after those that it depends on, unless it is done. A resolution that goes on to
ever more artifacts has no end.
-/
def resolve? (c : Coordinate) (resolver : Resolver Memory) : Option (Ended Memory Summary) :=
  match resolver.table.get? c with
  | some (.done summary) => some (.ok summary, resolver)
  | some .inProgress => some (.error (.cyclicalDependency [c]), resolver)
  | none => do
    match ← resolver.mark c .inProgress |>.summarize? c with
    | (.ok summary, resolver) => return (.ok summary, resolver.finish c summary)
    -- Another attempt starts anew.
    | (.error error, resolver) => return (.error (error.within c), resolver.unmark c)
partial_fixpoint

def resolveAll? (cs : List Coordinate) (found : DependencySet) (resolver : Resolver Memory) :
    Option (Ended Memory DependencySet) :=
  match cs with
  | [] => some (.ok found, resolver)
  | c :: cs => do
    match ← resolver |>.resolve? c with
    | (.ok summary, resolver) => resolver |>.resolveAll? cs (DependencySet.insert found summary)
    | (.error error, resolver) => return (.error error, resolver)
partial_fixpoint

/--
The summary of an artifact that is not done. A record of the cache tells the dependencies on its
own.
-/
def summarize? (c : Coordinate) (resolver : Resolver Memory) : Option (Ended Memory Summary) :=
  match (find c).run resolver with
  | (.error error, resolver) => some (.error error, resolver)
  | (.ok (artifact, cacheable), resolver) => do
    -- The dependencies are resolved even if a record tells them once more.
    match ← resolver |>.resolveAll? artifact.dependencies [] with
    | (.error error, resolver) => return (.error error, resolver)
    | (.ok declared, resolver) =>
      match (recordOf c cacheable).run resolver with
      | (.error error, resolver) => return (.error error, resolver)
      | (.ok none, resolver) => return (compute c artifact cacheable declared).run resolver
      | (.ok (some record), resolver) =>
        match ← resolver |>.resolveAll? record.direct [] with
        | (.error error, resolver) => return (.error error, resolver)
        | (.ok declared, resolver) => return (.ok (record.complete declared), resolver)
partial_fixpoint

end

/--
Resolves an artifact. Where this has no end it stands for a failure that leaves all as it is.
-/
def resolve (c : Coordinate) : Resolving Memory Summary :=
  ExceptT.mk fun resolver =>
    (resolve? c resolver).getD
      (.error (.provider c.text (.other "dependencies without end")), resolver)

def addRoot (c : Coordinate) : Resolving Memory Summary := do
  let summary ← resolve c
  modify fun resolver =>
    if DependencySet.contains resolver.roots c then resolver
    else { resolver with roots := resolver.roots ++ [summary] }
  return summary

def addLocal (c : Coordinate) (artifact : Artifact) (resolver : Resolver Memory) :
    Resolver Memory :=
  { resolver with overlay := resolver.overlay.insert c artifact }

def addRoots (cs : List Coordinate) : Resolving Memory Unit :=
  cs.forM fun c => discard (addRoot c)

def addDependencyList (document : Path) : Resolving Memory Unit := do
  addRoots (← ask fun provider tree => provider.dependencyList tree document)

def addModules (modules : List ProjectModule) : Resolving Memory Unit := do
  modules.forM fun part => modify (addLocal part.coordinate part.artifact)
  addRoots (modules.map (·.coordinate))

end Resolver

end ArtifactAudit
