import ArtifactAudit.Text.Split
import ArtifactAudit.Xml
import ArtifactAudit.Xml.Token

/-!
This module contains the reading of XML documents without document type declarations.
-/

namespace ArtifactAudit.Xml

def ownSpace (path : List String) : String :=
  "/".intercalate (["http:", "", "www.w3.org"] ++ path)

def xmlSpace : String := ownSpace ["XML", "1998", "namespace"]

def xmlnsSpace : String := ownSpace ["2000", "xmlns", ""]

abbrev Scope := List (String × String)

structure TagItem where
  name : Name
  value : String
deriving DecidableEq, Repr

structure Tag where
  name : Name
  items : List TagItem
  closed : Bool
deriving DecidableEq, Repr

def tagItems (found : List TagItem) :
    (steps : Nat) → List Char → Option (List TagItem × Bool × List Char)
  | 0, _ => none
  | steps + 1, cs =>
    match skipSpace cs with
    | '/' :: '>' :: rest => some (found.reverse, true, rest)
    | '>' :: rest => some (found.reverse, false, rest)
    | rest =>
      -- Attributes stand apart from what is in front of them.
      if (cs.head?.map isSpace).getD false then
        match qualifiedName? rest with
        | none => none
        | some (name, rest) =>
          match assigned? rest with
          | none => none
          | some (raw, rest) =>
            match expandValue [] raw.length raw with
            | none => none
            | some value => tagItems (⟨name, String.ofList value⟩ :: found) steps rest
      else none

def tag? (cs : List Char) : Option (Tag × List Char) := do
  let (name, rest) ← qualifiedName? cs
  let (items, closed, rest) ← tagItems [] (rest.length + 1) rest
  return (⟨name, items, closed⟩, rest)

def TagItem.declares (item : TagItem) : Bool :=
  item.name.space = "xmlns" || item.name.name = "xmlns"

/--
Adds the namespaces that some attributes declare. The two namespaces of XML itself may only be
declared under their own abbreviation, and no abbreviation twice in one tag.
-/
def declareAll : (own : List String) → Scope → List TagItem → Option Scope
  | _, scope, [] => some scope
  | own, scope, item :: rest =>
    if item.name.space = "xmlns" then
      let short := item.name.name
      if item.value = xmlnsSpace || (short = "xml") ≠ (item.value = xmlSpace) ||
          short ∈ own then
        none
      else if short = "xml" then declareAll own scope rest
      else declareAll (short :: own) ((short, item.value) :: scope) rest
    else if item.value = xmlSpace || item.value = xmlnsSpace then none
    else declareAll own (("", item.value) :: scope) rest

def itemSpace? (scope : Scope) (name : Name) : Option (Option String) :=
  if name.space.isEmpty then some none
  else if name.space = "xml" then some (some xmlSpace)
  else (scope.lookup name.space).map some

/--
The scope in an element with a start tag. The namespaces of the element and of its attributes have
to be declared, which those of XML itself only are for attributes, and no attribute may be given
twice.
-/
def scope? (outer : Scope) (tag : Tag) : Option Scope := do
  let (declarations, items) := tag.items.partition TagItem.declares
  let scope ← declareAll [] outer declarations
  let names ← items.mapM fun item => do
    return (← itemSpace? scope item.name, item.name.name)
  -- Only attributes may use the namespaces of XML itself.
  let known := tag.name.space.isEmpty ||
    (tag.name.space ≠ "xmlns" && (scope.lookup tag.name.space).isSome)
  if known && names.eraseDups.length = names.length then some scope else none

structure Open where
  name : Name
  scope : Scope
  found : List Xml

def Open.add (element : Open) (node : Xml) : Open :=
  { element with found := node :: element.found }

def Open.addText (element : Open) (content : String) : Open :=
  match element.found with
  | .text before :: found => { element with found := .text (before ++ content) :: found }
  | _ => element.add (.text content)

def Open.close (element : Open) : Xml :=
  .element element.name.name element.found.reverse

def comment? (cs : List Char) : Option (List Char) := do
  let (content, rest) ← upTo? ['-', '-', '>'] [] cs
  if Text.occursIn ['-', '-'] content || content.getLast? = some '-' then none else some rest

def instruction? (cs : List Char) : Option (List Char) := do
  if "xml ".toList.isPrefixOf cs then none
  let (_, rest) ← takeName? cs
  return (← upTo? ['?', '>'] [] rest).2

def text? (cs : List Char) : Option (String × List Char) := do
  let raw := cs.takeWhile (· ≠ '<')
  if raw.all isChar && !Text.occursIn "]]>".toList raw then
    return (String.ofList (← expandText [] false raw.length raw), cs.dropWhile (· ≠ '<'))
  else none

def literal (raw : List Char) : String :=
  String.ofList (go [] raw)
where
  go (found : List Char) : List Char → List Char
    | [] => found.reverse
    | c :: rest => go (pushRaw rest.isEmpty c found) rest

def content (element : Open) (outer : List Open) :
    (steps : Nat) → List Char → Option (Xml × List Char)
  | 0, _ => none
  | steps + 1, cs =>
    match cs with
    | '<' :: '!' :: '-' :: '-' :: rest =>
      match comment? rest with
      | some rest => content (element.add .mark) outer steps rest
      | none => none
    | '<' :: '!' :: '[' :: 'C' :: 'D' :: 'A' :: 'T' :: 'A' :: '[' :: rest =>
      match upTo? [']', ']', '>'] [] rest with
      | some (raw, rest) => content (element.addText (literal raw)) outer steps rest
      | none => none
    | '<' :: '!' :: _ => none
    | '<' :: '?' :: rest =>
      match instruction? rest with
      | some rest => content (element.add .mark) outer steps rest
      | none => none
    | '<' :: '/' :: rest =>
      match qualifiedName? rest with
      | none => none
      | some (name, rest) =>
        match skipSpace rest with
        | '>' :: rest =>
          if name = element.name then
            match outer with
            | [] => some (element.close, rest)
            | parent :: outer => content (parent.add element.close) outer steps rest
          else none
        | _ => none
    | '<' :: rest =>
      match tag? rest with
      | none => none
      | some (tag, rest) =>
        match scope? element.scope tag with
        | none => none
        | some scope =>
          if tag.closed then content (element.add (.element tag.name.name [])) outer steps rest
          else content ⟨tag.name, scope, []⟩ (element :: outer) steps rest
    | [] => none
    | cs =>
      match text? cs with
      | some (found, rest) => content (element.addText found) outer steps rest
      | none => none

def root? (cs : List Char) : Option (Xml × List Char) := do
  let '<' :: rest := cs | none
  let (tag, rest) ← tag? rest
  let scope ← scope? [] tag
  if tag.closed then return (.element tag.name.name [], rest)
  else content ⟨tag.name, scope, []⟩ [] (rest.length + 1) rest

def skipMarks : (steps : Nat) → List Char → Option (List Char)
  | 0, _ => none
  | steps + 1, cs =>
    match skipSpace cs with
    | '<' :: '!' :: '-' :: '-' :: rest => (comment? rest).bind (skipMarks steps)
    | '<' :: '?' :: rest => (instruction? rest).bind (skipMarks steps)
    | rest => some rest

def declarationItem? (cs : List Char) : Option (List Char) := do
  let (_, rest) ← qualifiedName? cs
  let (_, rest) ← assigned? rest
  if (rest.head?.map isSpace).getD true || ['?', '>'].isPrefixOf rest then some (skipSpace rest)
  else none

def optionalItem? (word : String) (cs : List Char) : Option (List Char) :=
  if word.toList.isPrefixOf cs then declarationItem? cs else some cs

def skipDeclaration (cs : List Char) : Option (List Char) := do
  if !"<?xml ".toList.isPrefixOf cs then some cs
  else
    let rest := skipSpace (cs.drop 5)
    if !"version".toList.isPrefixOf rest then none
    let rest ← optionalItem? "standalone" (← optionalItem? "encoding" (← declarationItem? rest))
    let '?' :: '>' :: rest := rest | none
    return rest

def parse? (s : String) : Option Xml := do
  let cs := match s.toList with
    | '\uFEFF' :: rest => rest
    | cs => cs
  let cs ← skipDeclaration cs
  let (root, rest) ← root? (← skipMarks (cs.length + 1) cs)
  let rest ← skipMarks (rest.length + 1) rest
  if rest.isEmpty then some root else none

end ArtifactAudit.Xml
