/-! # JSON strings

`jsonString` writes a text as a JSON string.  Quotes, backslashes and control characters
are escaped, the usual ones by a letter and the others by four digits; everything else
stands for itself. -/

set_option autoImplicit false

namespace Unflatten.Text

/-- The last digits of a number in lower-case hexadecimal, `count` of them. -/
def lowerHex : (count : Nat) → Nat → List Char
  | 0, _ => []
  | count + 1, value => lowerHex count (value / 16) ++ [Nat.digitChar (value % 16)]

/-- A character inside a JSON string. -/
def jsonChar (c : Char) : List Char :=
  match c with
  | '"' => ['\\', '"']
  | '\\' => ['\\', '\\']
  | '\n' => ['\\', 'n']
  | '\r' => ['\\', 'r']
  | '\t' => ['\\', 't']
  | '\x08' => ['\\', 'b']
  | '\x0c' => ['\\', 'f']
  | c => if c.toNat < 0x20 then '\\' :: 'u' :: lowerHex 4 c.toNat else [c]

/-- A text as a JSON string. -/
def jsonString (text : String) : String :=
  String.ofList ('"' :: (text.toList.flatMap jsonChar ++ ['"']))

end Unflatten.Text
