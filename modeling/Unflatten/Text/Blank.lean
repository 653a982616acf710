/-! # Blank characters, trimming and lines

`isBlank` is the Unicode property White_Space.  `trimStart`, `trimEnd` and `trim`
drop blank characters from the ends of a text, and `lines` cuts a text at its line
feeds the way a text file is read: a carriage return before the line feed belongs
to the line end, and a final line feed opens no further line. -/

set_option autoImplicit false

namespace Unflatten.Text

/-- The property White_Space. -/
def isBlank (c : Char) : Bool :=
  let code := c.toNat
  (0x9 ≤ code && code ≤ 0xd) || code == 0x20 || code == 0x85 || code == 0xa0 || code == 0x1680
    || (0x2000 ≤ code && code ≤ 0x200a) || code == 0x2028 || code == 0x2029 || code == 0x202f
    || code == 0x205f || code == 0x3000

theorem isBlank_of_isWhitespace (c : Char) (blank : c.isWhitespace = true) :
    isBlank c = true := by
  simp only [Char.isWhitespace, Bool.or_eq_true, decide_eq_true_eq] at blank
  rcases blank with ((h | h) | h) | h <;> subst h <;> decide

/-- The text without its leading blank characters. -/
def trimStart (text : List Char) : List Char := text.dropWhile isBlank

/-- The text without its trailing blank characters. -/
def trimEnd (text : List Char) : List Char := (text.reverse.dropWhile isBlank).reverse

/-- The text without the blank characters at both ends. -/
def trim (text : List Char) : List Char := trimEnd (trimStart text)

/-- A line without the carriage return that stands before its line feed. -/
def dropReturn (line : List Char) : List Char :=
  match line.reverse with
  | '\r' :: rest => rest.reverse
  | _ => line

/-- The pieces between line feeds, paired with whether a line feed ended them. -/
def splitLines : List Char → List (List Char × Bool)
  | [] => [([], false)]
  | c :: rest =>
    if c = '\n' then ([], true) :: splitLines rest
    else
      match splitLines rest with
      | [] => [([c], false)]
      | (line, ended) :: more => (c :: line, ended) :: more

/-- The lines of a text.  The piece behind the last line feed counts only if it is
not empty, and only a line that a line feed ends loses its carriage return. -/
def lines (text : List Char) : List (List Char) :=
  (splitLines text).filterMap fun (line, ended) =>
    if ended then some (dropReturn line)
    else if line.isEmpty then none
    else some line

end Unflatten.Text
