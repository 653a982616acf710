import Unflatten.Text.Units

/-! # Quoted strings

`quote` writes a string as a literal in double quotes.  The quote, the backslash, line
ends and control characters are always escaped; all other characters outside ASCII are
escaped only if asked for, in UTF-16 units. -/

set_option autoImplicit false

namespace Unflatten

/-- The last digits of a number in upper-case hexadecimal, `count` of them. -/
def upperHex : (count : Nat) → Nat → List Char
  | 0, _ => []
  | count + 1, value =>
    upperHex count (value / 16) ++ [((Nat.digitChar (value % 16))).toUpper]

/-- A character inside a literal. -/
def quoteChar (asciiOnly : Bool) (c : Char) : List Char :=
  match c with
  | '"' => ['\\', '"']
  | '\\' => ['\\', '\\']
  | '\n' => ['\\', 'n']
  | '\r' => ['\\', 'r']
  | '\t' => ['\\', 't']
  | '\u2028' => "\\u2028".toList
  | '\u2029' => "\\u2029".toList
  | c =>
    if c.toNat < 0x20 ∨ c = '\x7f' then '\\' :: 'x' :: upperHex 2 c.toNat
    else if asciiOnly && c.toNat ≥ 0x80 then
      (Text.units c).flatMap fun unit => '\\' :: 'u' :: upperHex 4 unit
    else [c]

/-- A string as a literal. -/
def quote (value : String) (asciiOnly : Bool) : String :=
  String.ofList ('"' :: (value.toList.flatMap (quoteChar asciiOnly) ++ ['"']))

end Unflatten
