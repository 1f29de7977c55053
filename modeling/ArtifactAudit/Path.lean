import ArtifactAudit.Text.Split

/-!
This module contains paths of files as texts, whose segments are separated by slashes, and what can
be told from the text of a path alone. No segment is ever resolved here: `a/../b` is not `b`.
-/

namespace ArtifactAudit

structure Path where
  text : String
deriving DecidableEq, Repr

namespace Path

instance : Inhabited Path := ⟨⟨""⟩⟩

def isAbsolute (path : Path) : Bool :=
  path.text.toList.head? == some '/'

/--
A path followed by another one. An absolute path replaces the one that it follows, and an empty path
leaves nothing but a slash.
-/
def join (path other : Path) : Path :=
  if other.isAbsolute then other
  else if path.text.isEmpty || Text.endsWith path.text "/" then ⟨path.text ++ other.text⟩
  else ⟨path.text ++ "/" ++ other.text⟩

def child (path : Path) (segment : String) : Path :=
  path.join ⟨segment⟩

inductive Anchor where
  | root
  | dot
  | none
deriving DecidableEq, Repr

def Anchor.text : Anchor → String
  | .root => "/"
  | .dot => "."
  | .none => ""

def split (path : Path) : Anchor × List String :=
  match path.text.toList with
  | '/' :: rest => (.root, (rest.splitOn '/').map String.ofList)
  -- A dot at the start is kept, so a part stands for it.
  | ['.'] => (.dot, [""])
  | '.' :: '/' :: rest => (.dot, "" :: (rest.splitOn '/').map String.ofList)
  | cs => (.none, (cs.splitOn '/').map String.ofList)

def isIdle (part : String) : Bool :=
  part.isEmpty || part == "."

def dropIdleEnd (segments : List String) : List String :=
  (segments.reverse.dropWhile isIdle).reverse

/--
The segments of a path that lead somewhere, after its anchor. Paths with the same ones are spelled
differently but alike otherwise.
-/
def segments (path : Path) : Anchor × List String :=
  let (anchor, parts) := path.split
  (anchor, parts.filter fun part => !isIdle part)

/--
A path without the parts of it that lead nowhere, apart from a dot at its start. Two paths are
spelled alike if these are equal.
-/
def tidy (path : Path) : Path :=
  let (anchor, segments) := path.segments
  let text := "/".intercalate segments
  match anchor with
  | .root => ⟨"/" ++ text⟩
  | .dot => ⟨"./" ++ text⟩
  | .none => ⟨text⟩

def parent? (path : Path) : Option Path :=
  let (anchor, parts) := path.split
  match dropIdleEnd parts with
  | [] => if anchor = .dot then some ⟨""⟩ else none
  | parts => some ⟨anchor.text ++ "/".intercalate (dropIdleEnd parts.dropLast)⟩

def fileName? (path : Path) : Option String :=
  match path.segments.2.getLast? with
  | some ".." => none
  | name => name

def extension? (path : Path) : Option String := do
  let (stem, extension) ← Text.cutLast? '.' (← path.fileName?)
  if stem.isEmpty then none else some extension

def hasExtension (path : Path) (extensions : List String) : Bool :=
  match path.extension? with
  | some extension => extensions.any (· == Text.lowerAscii extension)
  | none => false

end Path

end ArtifactAudit
