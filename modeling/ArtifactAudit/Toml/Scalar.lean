import ArtifactAudit.Json.Parser

/-!
This module contains the spellings of the numbers and times of TOML documents.
-/

namespace ArtifactAudit.Toml

def isDigits (isDigit : Char → Bool) (cs : List Char) : Bool :=
  (cs.splitOn '_').all fun group => !group.isEmpty && group.all isDigit

def unsigned : List Char → List Char
  | '+' :: rest => rest
  | '-' :: rest => rest
  | cs => cs

def isDecimal (cs : List Char) : Bool :=
  isDigits Char.isDigit cs && (cs.head? ≠ some '0' || cs.length = 1)

def digitsValue (base : Nat) (cs : List Char) : Nat :=
  (cs.filter (· ≠ '_')).foldl (fun n c => n * base + (Json.hexValue? c).getD 0) 0

def integerBound : Nat := 0x8000000000000000

def isInteger (cs : List Char) : Bool :=
  match cs with
  | '0' :: 'x' :: rest =>
    isDigits (fun c => (Json.hexValue? c).isSome) rest && digitsValue 16 rest < integerBound
  | '0' :: 'o' :: rest =>
    isDigits (fun c => '0' ≤ c && c ≤ '7') rest && digitsValue 8 rest < integerBound
  | '0' :: 'b' :: rest =>
    isDigits (fun c => c = '0' || c = '1') rest && digitsValue 2 rest < integerBound
  -- There is one more negative integer than there are positive ones.
  | '-' :: rest => isDecimal rest && digitsValue 10 rest ≤ integerBound
  | cs => isDecimal (unsigned cs) && digitsValue 10 (unsigned cs) < integerBound

/--
The numbers from here on are nearer to the power of two above the floats of 64 bits than to the
greatest one of them.
-/
def floatBound : Nat := Nat.pow 2 1024 - Nat.pow 2 970

/--
Whether a number is beyond the floats of 64 bits. It is given as digits and a power of ten.
-/
def isBeyondFloats (digits : List Char) (exponent : Int) : Bool :=
  let digits := digits.dropWhile (· = '0')
  let places := digits.length + exponent
  -- The bound has as many places as this, and only numbers with as many have to be written out.
  if digits.isEmpty || places ≠ 309 then !digits.isEmpty && 309 < places
  else
    floatBound * Nat.pow 10 (-exponent).toNat ≤ Json.decimalValue digits * Nat.pow 10 exponent.toNat

def exponentValue : List Char → Int
  | '-' :: rest => -digitsValue 10 rest
  | cs => digitsValue 10 (unsigned cs)

/--
Whether a text spells a number with a fraction or an exponent. Only the negative ones may be beyond
the floats of 64 bits.
-/
def isFloat (cs : List Char) : Bool :=
  let isNegative := cs.head? = some '-'
  let cs := unsigned cs
  if cs = "inf".toList || cs = "nan".toList then true
  else
    let (mantissa, exponent) := cs.span fun c => c ≠ 'e' && c ≠ 'E'
    let (whole, fraction) := mantissa.span (· ≠ '.')
    let places := fraction.tail.filter (· ≠ '_')
    isDecimal whole && !(exponent.isEmpty && fraction.isEmpty) &&
      (fraction.isEmpty || isDigits Char.isDigit fraction.tail) &&
      (exponent.isEmpty || isDigits Char.isDigit (unsigned exponent.tail)) &&
      (isNegative || !isBeyondFloats (whole.filter (· ≠ '_') ++ places)
        (exponentValue exponent.tail - places.length))

def twoDigits? : List Char → Option (Nat × List Char)
  | a :: b :: rest => if a.isDigit && b.isDigit then some (Json.decimalValue [a, b], rest) else none
  | _ => none

def daysOf (year month : Nat) : Nat :=
  if month = 2 then
    if (year % 4 = 0 && year % 100 ≠ 0) || year % 400 = 0 then 29 else 28
  else if month = 4 || month = 6 || month = 9 || month = 11 then 30
  else 31

def date? (cs : List Char) : Option (List Char) := do
  let (century, rest) ← twoDigits? cs
  let (year, rest) ← twoDigits? rest
  let '-' :: rest := rest | none
  let (month, rest) ← twoDigits? rest
  let '-' :: rest := rest | none
  let (day, rest) ← twoDigits? rest
  if 1 ≤ month && month ≤ 12 && 1 ≤ day && day ≤ daysOf (century * 100 + year) month then some rest
  else none

def time? (cs : List Char) : Option (List Char) := do
  let (hour, rest) ← twoDigits? cs
  let ':' :: rest := rest | none
  let (minute, rest) ← twoDigits? rest
  let ':' :: rest := rest | none
  let (second, rest) ← twoDigits? rest
  -- The last minute of a day may have a second more.
  if hour < 24 && minute < 60 && second ≤ 60 then
    match rest with
    | '.' :: rest => (Json.digits? rest).map Prod.snd
    | rest => some rest
  else none

def isOffset (cs : List Char) : Bool :=
  match cs with
  | [] => true
  | ['Z'] | ['z'] => true
  | sign :: rest =>
    (sign = '+' || sign = '-') &&
      match twoDigits? rest with
      | some (hour, ':' :: rest) =>
        match twoDigits? rest with
        | some (minute, []) => hour < 24 && minute < 60
        | _ => false
      | _ => false

def isTime (cs : List Char) : Bool :=
  match date? cs with
  | some [] => true
  | some (mark :: rest) =>
    (mark = 'T' || mark = 't' || mark = ' ') &&
      match time? rest with
      | some rest => isOffset rest
      | none => false
  | none => time? cs = some []

def isScalarChar (c : Char) : Bool :=
  c.isAlphanum || c = '+' || c = '-' || c = '_' || c = '.' || c = ':'

def scalar? (cs : List Char) : Option (String × List Char) :=
  let (written, rest) := cs.span isScalarChar
  let (written, rest) := match date? written, rest with
    | some [], ' ' :: c :: rest =>
      if c.isDigit then
        let (more, rest) := (c :: rest).span isScalarChar
        (written ++ ' ' :: more, rest)
      else (written, ' ' :: c :: rest)
    | _, _ => (written, rest)
  if isInteger written || isFloat written || isTime written then
    some (String.ofList written, rest)
  else none

end ArtifactAudit.Toml
