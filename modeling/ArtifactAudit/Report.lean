import ArtifactAudit.Catalog
import ArtifactAudit.Json.Decode
import ArtifactAudit.Json.Printer

/-!
This module contains the reports about audited artifacts: a numbered tree of dependencies, the
providers of the classes that each root uses, warnings, and all of it as JSON.
-/

namespace ArtifactAudit

structure Report where
  roots : List Summary
  artifacts : Catalog

namespace Report

structure Tree where
  lines : List String
  numbered : List Coordinate

def Tree.number? (tree : Tree) (c : Coordinate) : Option Nat :=
  (tree.numbered.reverse.findIdx? (· = c)).map (· + 1)

def numberColumn (n : Nat) : String :=
  let digits := toString n
  "".pushn ' ' (3 - digits.length) ++ digits

def treeIndent (depth : Nat) : String :=
  "".pushn ' ' (2 * depth)

mutual

/--
Adds an artifact and what it declares. An artifact that has a number is only referred to.
-/
def Tree.add (depth : Nat) (tree : Tree) : Summary → Tree
  | ⟨c, declared, _, _, _, _, _⟩ =>
    match tree.number? c with
    | some number =>
      let line := "     " ++ treeIndent depth ++ c.text ++ " (see #" ++ toString number ++ ")"
      { tree with lines := tree.lines ++ [line] }
    | none =>
      let line := numberColumn (tree.numbered.length + 1) ++ ": " ++ treeIndent depth ++ c.text
      Tree.addAll (depth + 1) ⟨tree.lines ++ [line], c :: tree.numbered⟩ declared

def Tree.addAll (depth : Nat) (tree : Tree) : List Summary → Tree
  | [] => tree
  | summary :: rest => Tree.addAll depth (Tree.add depth tree summary) rest

end

def tree (roots : List Summary) : List String :=
  (Tree.addAll 0 ⟨[], []⟩ roots).lines

def bracketed (items : List String) : String :=
  "[" ++ ", ".intercalate items ++ "]"

def coordinateTexts (set : DependencySet) : List String :=
  (DependencySet.coordinates set).map Coordinate.text

def originText (origins : NameSet) : String :=
  if origins.isEmpty then "(Provided by runtime)" else bracketed origins.names

def usage (summary : Summary) : List String :=
  let groups := UsageMap.groups summary.usages
  summary.unused.map (fun d => "Unused: " ++ d.coordinate.text) ++
    if groups.isEmpty then ["<none>"]
    else groups.map fun group => originText group.1 ++ " for classes " ++ bracketed group.2

def unusedWarnings (artifacts : Catalog) : List String :=
  (artifacts.filter (!·.unused.isEmpty)).map fun summary =>
    summary.coordinate.text ++ " declares unused " ++ bracketed (coordinateTexts summary.unused)

def undeclaredWarnings (artifacts : Catalog) : List String :=
  (artifacts.filter (!·.undeclared.isEmpty)).map fun summary =>
    summary.coordinate.text ++ " has undeclared dependencies on " ++
      bracketed (coordinateTexts summary.undeclared)

def titled (title : String) (lines : List String) : List String :=
  if lines.isEmpty then [] else "" :: title :: lines.map ("  " ++ ·)

def lines (report : Report) : List String :=
  "Dependency tree:" :: tree report.roots ++
  report.roots.flatMap (fun root => titled (root.coordinate.text ++ ":") (usage root)) ++
  titled "Unused dependencies:" (unusedWarnings report.artifacts) ++
  titled "Undeclared dependencies:" (undeclaredWarnings report.artifacts)

def plain (report : Report) : String :=
  String.join (report.lines.map (· ++ "\n"))

def summaryJson (summary : Summary) : Json :=
  .record [("classes", .number summary.defined.size),
    ("coordinate", .text summary.coordinate.text),
    ("declared", .texts (coordinateTexts summary.declared)),
    ("undeclared", .texts (coordinateTexts summary.undeclared)),
    ("unused", .texts (coordinateTexts summary.unused)),
    ("usages", .ofNameMap .ofNameSet summary.usages)]

def json (report : Report) : Json :=
  .record [("artifacts", .array (report.artifacts.map summaryJson)),
    ("issues", .bool report.artifacts.hasIssues),
    ("roots", .texts (coordinateTexts report.roots))]

def quotedSet (set : DependencySet) : String :=
  bracketed ((coordinateTexts set).map Text.quoted)

def oneLine (summary : Summary) : String :=
  "ArtifactSummary \x7b coordinate: " ++ Text.quoted summary.coordinate.text ++
    ", declared: " ++ quotedSet summary.declared ++
    ", classes: " ++ toString summary.defined.size ++
    ", mappings: " ++ toString summary.usages.size ++
    ", unused: " ++ quotedSet summary.unused ++
    ", undeclared: " ++ quotedSet summary.undeclared ++ " \x7d"

end Report

end ArtifactAudit
