import Unflatten.Number.Double
import Unflatten.Text.Blank

/-! # Reading numbers

`readDecimal` reads a signed decimal with an optional fraction and exponent and gives
the nearest double.  `readLiteral` reads a numeric literal of the language: separators
`_` are dropped, and `0x`, `0o` and `0b` open digits of another radix.  `ofText` is the
conversion of a string value, where blank ends are ignored and what is no number at
all counts as not a number. -/

set_option autoImplicit false

namespace Unflatten.Number

/-- The value of a digit in a radix up to sixteen. -/
def digitValue? (radix : Nat) (c : Char) : Option Nat :=
  let value? : Option Nat :=
    if '0' ≤ c ∧ c ≤ '9' then some (c.toNat - '0'.toNat)
    else if 'a' ≤ c ∧ c ≤ 'f' then some (c.toNat - 'a'.toNat + 10)
    else if 'A' ≤ c ∧ c ≤ 'F' then some (c.toNat - 'A'.toNat + 10)
    else none
  value?.filter (· < radix)

/-- The natural number that a list of decimal digits spells. -/
def ofDigits (digits : List Char) : Nat :=
  digits.foldl (fun value c => value * 10 + (c.toNat - '0'.toNat)) 0

/-- The double nearest to `significand · 10 ^ exponent`.  Beyond the range of doubles
in either direction the power is not worked out. -/
def ofDecimal (significand : Nat) (exponent : Int) : Float :=
  let digitCount := (Nat.toDigits 10 significand).length
  if significand = 0 then 0.0
  else if (digitCount : Int) + exponent > 320 then infinity
  else if (digitCount : Int) + exponent < -340 then 0.0
  else if 0 ≤ exponent then Float.ofScientific significand false exponent.toNat
  else Float.ofScientific significand true (-exponent).toNat

/-- The exponent part: nothing, or `e`, an optional sign and at least one digit. -/
def readExponent : List Char → Option Int
  | [] => some 0
  | c :: rest =>
    if c = 'e' ∨ c = 'E' then
      let (negative, digits) := match rest with
        | '-' :: digits => (true, digits)
        | '+' :: digits => (false, digits)
        | digits => (false, digits)
      if digits.isEmpty || !digits.all Char.isDigit then none
      else some (if negative then -(ofDigits digits : Int) else ofDigits digits)
    else none

/-- An unsigned decimal: digits with an optional point, at least one of them, and an
optional exponent. -/
def readUnsigned (text : List Char) : Option Float :=
  let whole := text.takeWhile Char.isDigit
  let rest := text.dropWhile Char.isDigit
  let (fraction, tail) := match rest with
    | '.' :: more => (more.takeWhile Char.isDigit, more.dropWhile Char.isDigit)
    | more => ([], more)
  if whole.isEmpty && fraction.isEmpty then none
  else (readExponent tail).map fun exponent =>
    ofDecimal (ofDigits (whole ++ fraction)) (exponent - fraction.length)

/-- The spelled-out values, in any case. -/
def readNamed (text : List Char) : Option Float :=
  let name := String.ofList (text.map Char.toLower)
  if name = "inf" ∨ name = "infinity" then some infinity
  else if name = "nan" then some nan
  else none

/-- A decimal with an optional sign, or one of the spelled-out values. -/
def readDecimal (text : List Char) : Option Float :=
  let read (body : List Char) := (readNamed body).or (readUnsigned body)
  match text with
  | '-' :: body => (read body).map fun value => -value
  | '+' :: body => read body
  | body => read body

/-- Digits of a radix summed up in doubles, so each step rounds. -/
def readRadix (radix : Nat) (digits : List Char) : Option Float :=
  if digits.isEmpty then none
  else digits.foldlM (fun (value : Float) c =>
    (digitValue? radix c).map fun digit => value * Float.ofNat radix + Float.ofNat digit) 0.0

/-- The value of a numeric literal, if it is well formed. -/
def readLiteral (text : String) : Option Float :=
  match text.toList.filter (· ≠ '_') with
  | '0' :: mark :: digits =>
    if mark = 'x' ∨ mark = 'X' then readRadix 16 digits
    else if mark = 'o' ∨ mark = 'O' then readRadix 8 digits
    else if mark = 'b' ∨ mark = 'B' then readRadix 2 digits
    else readDecimal ('0' :: mark :: digits)
  | plain => readDecimal plain

/-- The whole number below `2 ^ 64` that digits of a radix spell, after an optional
plus sign. -/
def readWord (radix : Nat) (text : List Char) : Option Nat :=
  let digits := match text with
    | '+' :: rest => rest
    | rest => rest
  if digits.isEmpty then none
  else
    (digits.foldlM (fun (value : Nat) c =>
      (digitValue? radix c).map fun digit => value * radix + digit) 0).filter (· < wordCount * wordCount)

/-- The number a string value stands for. -/
def ofText (text : String) : Float :=
  let body := Text.trim text.toList
  let word (radix : Nat) (digits : List Char) := ((readWord radix digits).map Float.ofNat).getD nan
  match body with
  | [] => 0.0
  | '0' :: 'x' :: digits | '0' :: 'X' :: digits => word 16 digits
  | '0' :: 'o' :: digits | '0' :: 'O' :: digits => word 8 digits
  | '0' :: 'b' :: digits | '0' :: 'B' :: digits => word 2 digits
  | _ =>
    if body = "Infinity".toList ∨ body = "+Infinity".toList then infinity
    else if body = "-Infinity".toList then -infinity
    else if body.any fun c => c.isAlpha && c ≠ 'e' && c ≠ 'E' then nan
    else (readDecimal body).getD nan

end Unflatten.Number
