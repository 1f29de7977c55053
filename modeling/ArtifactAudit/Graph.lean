import ArtifactAudit.Catalog

/-!
This module contains the graphs of dependencies between artifacts, and their description in the DOT
language.
-/

namespace ArtifactAudit

inductive EdgeKind where
  | used
  | unused
  | undeclared
deriving DecidableEq, Repr

structure Edge where
  source : Coordinate
  target : Coordinate
  kind : EdgeKind
deriving DecidableEq, Repr

/--
A graph with at most one edge from one coordinate to another.
-/
structure Graph where
  nodes : List Coordinate
  edges : List Edge
deriving DecidableEq, Repr

namespace Edge

def parallel (a b : Edge) : Bool :=
  a.source = b.source && a.target = b.target

def le (a b : Edge) : Bool :=
  a.source < b.source || (a.source = b.source && a.target.le b.target)

end Edge

namespace Graph

def edgesOf (summary : Summary) : List Edge :=
  (summary.declared.map fun d =>
    ⟨summary.coordinate, d.coordinate,
      if DependencySet.contains summary.unused d.coordinate then .unused else .used⟩) ++
  summary.undeclared.map fun d => ⟨summary.coordinate, d.coordinate, .undeclared⟩

def insertEdge (edges : List Edge) (edge : Edge) : List Edge :=
  edges.filter (!·.parallel edge) ++ [edge]

def ofCatalog (artifacts : Catalog) : Graph :=
  let edges := (artifacts.flatMap edgesOf).foldl insertEdge []
  { nodes := (artifacts.map Summary.coordinate ++ edges.flatMap fun edge =>
      [edge.source, edge.target]).eraseDups
    edges := edges.mergeSort Edge.le }

def declaredFrom (graph : Graph) (c : Coordinate) : List Coordinate :=
  (graph.edges.filter fun edge => edge.source = c && edge.kind ≠ .undeclared).map (·.target)

/--
Goes from waiting coordinates along declared edges to coordinates not seen yet. Each step takes one
of the waiting coordinates, and each coordinate waits once, so the number of nodes bounds the steps.
-/
def visit (graph : Graph) : (steps : Nat) → (waiting seen : List Coordinate) → List Coordinate
  | 0, _, seen => seen
  | _, [], seen => seen
  | steps + 1, c :: waiting, seen =>
    let found := (graph.declaredFrom c).eraseDups.filter (· ∉ seen)
    visit graph steps (waiting ++ found) (seen ++ found)

def reachable (graph : Graph) (roots : List Coordinate) : List Coordinate :=
  let start := roots.eraseDups.filter (· ∈ graph.nodes)
  graph.visit graph.nodes.length start start

def style : EdgeKind → String
  | .used => "solid"
  | .unused => "dashed"
  | .undeclared => "dotted"

def color (summary : Summary) : String :=
  if summary.hasIssues then "lightcoral" else "lightgreen"

def nodeName (c : Coordinate) : String :=
  "\"" ++ c.text ++ "\""

def dotLines (artifacts : Catalog) : List String :=
  ["digraph depaudit \x7b",
    "  rankdir=LR;",
    "  node [shape=box, style=filled, fontname=\"JetBrains Mono\"];",
    ""] ++
  artifacts.map (fun summary =>
    "  " ++ nodeName summary.coordinate ++ " [fillcolor=" ++ color summary ++ "];") ++
  [""] ++
  (ofCatalog artifacts).edges.map (fun edge =>
    "  " ++ nodeName edge.source ++ " -> " ++ nodeName edge.target ++
      " [style=" ++ style edge.kind ++ "];") ++
  ["\x7d"]

def dot (artifacts : Catalog) : String :=
  String.join ((dotLines artifacts).map (· ++ "\n"))

end Graph

end ArtifactAudit
