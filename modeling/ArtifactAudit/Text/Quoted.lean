import ArtifactAudit.Text.Hidden

/-!
This module contains quoted texts: the form in which messages show a text of unknown content, with
escapes for the quote itself, for the backslash and for everything that would not be visible.
-/

namespace ArtifactAudit.Text

def hexDigits (n : Nat) : String :=
  String.ofList (Nat.toDigits 16 n)

def escapeChar (quote c : Char) : String :=
  if c = '\x00' then "\\0"
  else if c = '\t' then "\\t"
  else if c = '\r' then "\\r"
  else if c = '\n' then "\\n"
  else if c = '\\' then "\\\\"
  else if c = quote then String.ofList ['\\', quote]
  -- This comes last, because the quote and the characters with escapes of their own are not all
  -- hidden.
  else if isHidden c then "\\u\x7b" ++ hexDigits c.toNat ++ "\x7d"
  else c.toString

def quoted (s : String) : String :=
  "\"" ++ String.join (s.toList.map (escapeChar '"')) ++ "\""

def quotedChar (c : Char) : String :=
  "'" ++ escapeChar '\'' c ++ "'"

def padZeros (width : Nat) (s : String) : String :=
  String.ofList (List.replicate (width - s.length) '0') ++ s

def hexNumber (width n : Nat) : String :=
  "0x" ++ padZeros width (hexDigits n)

end ArtifactAudit.Text
