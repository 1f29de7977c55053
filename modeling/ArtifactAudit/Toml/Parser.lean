import ArtifactAudit.Toml
import ArtifactAudit.Toml.Scalar
import ArtifactAudit.Toml.Text

/-!
This module contains the reading of TOML documents.
-/

namespace ArtifactAudit.Toml

mutual

/--
Takes a value, in which arrays and tables may be nested to some levels. Every step down takes a
character, so twice the length of the text bounds the steps.
-/
def valueWithin : (steps levels : Nat) → List Char → Option (Toml × List Char)
  | 0, _, _ => none
  | steps + 1, levels, cs =>
    match cs with
    | '"' :: _ | '\'' :: _ => (text? cs).map fun (value, rest) => (.text value, rest)
    | 't' :: 'r' :: 'u' :: 'e' :: rest => some (.flag true, rest)
    | 'f' :: 'a' :: 'l' :: 's' :: 'e' :: rest => some (.flag false, rest)
    | '[' :: rest =>
      match levels, skipLines rest with
      | 0, _ => none
      | _, ']' :: rest => some (.array [], rest)
      | levels + 1, rest => itemsWithin steps levels [] rest
    | '\x7b' :: rest =>
      match levels, skipSpace rest with
      | 0, _ => none
      | _, '\x7d' :: rest => some (.table .inline [], rest)
      | levels + 1, rest => entriesWithin steps levels [] rest
    | _ => (scalar? cs).map fun (written, rest) => (.scalar written, rest)

def itemsWithin : (steps levels : Nat) → List Toml → List Char → Option (Toml × List Char)
  | 0, _, _, _ => none
  | steps + 1, levels, found, cs =>
    match valueWithin steps levels cs with
    | none => none
    | some (item, rest) =>
      match skipLines rest with
      | ']' :: rest => some (.array (item :: found).reverse, rest)
      | ',' :: rest =>
        match skipLines rest with
        | ']' :: rest => some (.array (item :: found).reverse, rest)
        | rest => itemsWithin steps levels (item :: found) rest
      | _ => none

def entriesWithin : (steps levels : Nat) → Entries → List Char → Option (Toml × List Char)
  | 0, _, _, _ => none
  | steps + 1, levels, found, cs =>
    match key? cs with
    | some ((path, key), '=' :: rest) =>
      match valueWithin steps levels (skipSpace rest) with
      | none => none
      | some (value, rest) =>
        match assign key value path found with
        | none => none
        | some found =>
          match skipSpace rest with
          | '\x7d' :: rest => some (.table .inline found, rest)
          | ',' :: rest => entriesWithin steps levels found (skipSpace rest)
          | _ => none
    | _ => none

end

def statement? (cs : List Char) : Option (Statement × List Char) :=
  match cs with
  | '[' :: '[' :: rest => do
    let ((path, key), rest) ← key? rest
    let ']' :: ']' :: rest := rest | none
    return (.nextHeader path key, ← statementEnd? rest)
  | '[' :: rest => do
    let ((path, key), rest) ← key? rest
    let ']' :: rest := rest | none
    return (.header path key, ← statementEnd? rest)
  | cs => do
    let ((path, key), rest) ← key? cs
    let '=' :: rest := rest | none
    let (value, rest) ← valueWithin (2 * rest.length + 2) depthLimit (skipSpace rest)
    return (.assignment path key value, ← statementEnd? rest)

def statements (found : List Statement) : (steps : Nat) → List Char → Option (List Statement)
  | 0, _ => none
  | steps + 1, cs =>
    match skipLines cs with
    | [] => some found.reverse
    | rest =>
      match statement? rest with
      | some (statement, rest) => statements (statement :: found) steps rest
      | none => none

def parse? (s : String) : Option Entries := do
  let cs := match s.toList with
    | '\uFEFF' :: rest => rest
    | cs => cs
  build [] [] (← statements [] (cs.length + 1) cs)

end ArtifactAudit.Toml
