import ArtifactAudit.ClassFile.Fault

/-!
This module contains descriptors, the texts for the types of fields and methods, and the classes
that they name.
-/

namespace ArtifactAudit.ClassFile.Descriptor

def isPrimitive (c : Char) : Bool :=
  c ∈ ['B', 'C', 'D', 'F', 'I', 'J', 'S', 'Z']

def fieldType? (cs : List Char) : Option (Option String × List Char) :=
  match cs.dropWhile (· = '[') with
  | 'L' :: rest =>
    let name := rest.takeWhile (· ≠ ';')
    match rest.dropWhile (· ≠ ';') with
    | _ :: rest => if name.isEmpty then none else some (some (String.ofList name), rest)
    | [] => none
  | c :: rest => if isPrimitive c then some (none, rest) else none
  | [] => none

theorem length_dropWhile_le {α : Type} (p : α → Bool) (l : List α) :
    (l.dropWhile p).length ≤ l.length :=
  (List.dropWhile_suffix p).length_le

theorem length_lt_of_fieldType? {cs rest : List Char} {name : Option String}
    (h : fieldType? cs = some (name, rest)) : rest.length < cs.length := by
  have hdrop := length_dropWhile_le (· = '[') cs
  unfold fieldType? at h
  split at h
  . next tail heq =>
    have hname := length_dropWhile_le (· ≠ ';') tail
    simp only at h
    split at h
    . next _ _ heq' =>
      split at h
      . cases h
      . cases h
        rw [heq] at hdrop
        rw [heq'] at hname
        simp only [List.length_cons] at hdrop hname
        omega
    . cases h
  . next _ tail _ heq =>
    split at h
    . cases h
      rw [heq] at hdrop
      simp only [List.length_cons] at hdrop
      omega
    . cases h
  . cases h

/--
Takes field types off the front of a text up to a closing parenthesis: the classes that they name,
and what follows the parenthesis if the text gets that far.
-/
def arguments (cs : List Char) : List String × Option (List Char) :=
  match cs with
  | [] => ([], none)
  | ')' :: rest => ([], some rest)
  | c :: tail =>
    match _h : fieldType? (c :: tail) with
    | none => ([], none)
    | some (name, rest) =>
      let (names, rest) := arguments rest
      (name.toList ++ names, rest)
termination_by cs.length
decreasing_by exact length_lt_of_fieldType? _h

def scanField (cs : List Char) : List String × Bool :=
  match fieldType? cs with
  | some (name, rest) => (name.toList, rest.isEmpty)
  | none => ([], false)

def scan (cs : List Char) : List String × Bool :=
  match cs with
  | '(' :: rest =>
    match arguments rest with
    | (names, none) => (names, false)
    -- Only methods may have no result.
    | (names, some ['V']) => (names, true)
    | (names, some result) =>
      let (more, wellFormed) := scanField result
      (names ++ more, wellFormed)
  | _ => scanField cs

def classes (descriptor : String) : Except Fault (List String) :=
  match scan descriptor.toList with
  | (names, true) => .ok names
  | (_, false) => .error (.descriptor descriptor)

end ArtifactAudit.ClassFile.Descriptor
