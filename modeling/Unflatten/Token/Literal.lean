import Unflatten.Text.Alphabetic
import Unflatten.Token.Cursor

/-! # Identifiers, numbers, strings and regular expressions

The readers here start at the first character of a token and answer the place behind
it.  `skipIdentifier` and `skipNumber` need nothing else; `readString` also decodes the
escapes, and `readPattern` finds the slash that closes a regular expression. -/

set_option autoImplicit false

namespace Unflatten

/-- A character that may open an identifier. -/
def isIdentifierStart (c : Char) : Bool := c == '$' || c == '_' || Text.isAlphabetic c

/-- A character that may continue an identifier. -/
def isIdentifierPart (c : Char) : Bool := isIdentifierStart c || Text.isAlphanumeric c

/-- A hexadecimal digit. -/
def isHexDigit (c : Char) : Bool :=
  c.isDigit || ('a' ≤ c && c ≤ 'f') || ('A' ≤ c && c ≤ 'F')

/-- An octal digit. -/
def isOctalDigit (c : Char) : Bool := '0' ≤ c && c ≤ '7'

/-- The value of a hexadecimal digit. -/
def hexValue (c : Char) : Nat :=
  if c.isDigit then c.toNat - '0'.toNat
  else if 'a' ≤ c then c.toNat - 'a'.toNat + 10
  else c.toNat - 'A'.toNat + 10

namespace Cursor

/-- The place behind an identifier or keyword. -/
def skipIdentifier (cursor : Cursor) : Cursor := cursor.skipWhile isIdentifierPart

/-- The place behind an exponent, if one stands here: it needs a digit. -/
def skipExponent (cursor : Cursor) : Cursor :=
  if cursor.next fun c => c = 'e' ∨ c = 'E' then
    let signed := cursor.step
    let digits := if signed.next fun c => c = '+' ∨ c = '-' then signed.step else signed
    if digits.next Char.isDigit then digits.skipWhile Char.isDigit else cursor
  else cursor

/-- The place behind a number.  Behind `0x`, `0o` and `0b` all hexadecimal digits are
taken, whatever the radix. -/
def skipNumber (cursor : Cursor) : Cursor :=
  let digit (c : Char) : Bool := c.isDigit || c = '_'
  let mark := cursor.step
  if cursor.next (· = '0') && mark.next (fun c => "xXoObB".toList.contains c) then
    mark.step.skipWhile fun c => isHexDigit c || c = '_'
  else
    let whole := cursor.skipWhile digit
    let fraction := if whole.next (· = '.') then whole.step.skipWhile digit else whole
    fraction.skipExponent

/-- Reads up to `most` hexadecimal digits: their number, their value and the place
behind them, on top of what was read before. -/
def readHex (cursor : Cursor) : (most count value : Nat) → Nat × Nat × Cursor
  | 0, count, value => (count, value, cursor)
  | most + 1, count, value =>
    match cursor.rest with
    | c :: _ =>
      if isHexDigit c then cursor.step.readHex most (count + 1) (value * 16 + hexValue c)
      else (count, value, cursor)
    | [] => (count, value, cursor)

/-- The code that `least` to `most` hexadecimal digits spell, if there are enough. -/
def readCode (cursor : Cursor) (least most : Nat) : Option Nat × Cursor :=
  let (count, value, after) := cursor.readHex most 0 0
  (if least ≤ count then some value else none, after)

/-- Reads up to `most` octal digits on top of a value. -/
def readOctal (cursor : Cursor) : (most value : Nat) → Nat × Cursor
  | 0, value => (value, cursor)
  | most + 1, value =>
    match cursor.rest with
    | c :: _ =>
      if isOctalDigit c then cursor.step.readOctal most (value * 8 + (c.toNat - '0'.toNat))
      else (value, cursor)
    | [] => (value, cursor)

/-- The character with a code; the replacement character where there is none. -/
def codePoint (code : Option Nat) : Char :=
  match code with
  | some value => if value.isValidChar then Char.ofNat value else '\ufffd'
  | none => '\ufffd'

/-- The character of an escape `\u`, read behind the `u`: a code in braces, or four
digits.  Two escapes that form a surrogate pair are one character. -/
def readUnicode (cursor : Cursor) : Char × Cursor :=
  if cursor.next (· = '\x7b') then
    let (code, after) := cursor.step.readCode 1 6
    (codePoint code, if after.next (· = '\x7d') then after.step else after)
  else
    let (code, after) := cursor.readCode 4 4
    match code with
    | some high =>
      if 0xd800 ≤ high ∧ high < 0xdc00 ∧ after.startsWith ['\\', 'u'] then
        match (after.advance 2).readCode 4 4 with
        | (some low, behind) =>
          if 0xdc00 ≤ low ∧ low < 0xe000 then
            (codePoint (some (0x10000 + (high - 0xd800) * 1024 + (low - 0xdc00))), behind)
          else (codePoint code, after)
        | (none, _) => (codePoint code, after)
      else (codePoint code, after)
    | none => (codePoint code, after)

/-- What an escape stands for, read behind its backslash, and the place behind it.  A
line end stands for nothing, a digit up to seven opens an octal code, and any character
without a meaning of its own stands for itself. -/
def readEscape (cursor : Cursor) : List Char × Cursor :=
  match cursor.rest with
  | [] => ([], cursor)
  | c :: _ =>
    let after := cursor.step
    match c with
    | 'n' => (['\n'], after)
    | 'r' => (['\r'], after)
    | 't' => (['\t'], after)
    | 'b' => (['\x08'], after)
    | 'f' => (['\x0c'], after)
    | 'v' => (['\x0b'], after)
    | 'x' =>
      let (code, behind) := after.readCode 2 2
      ([codePoint code], behind)
    | 'u' =>
      let (decoded, behind) := after.readUnicode
      ([decoded], behind)
    | '\r' => ([], if after.next (· = '\n') then after.step else after)
    | '\n' | '\u2028' | '\u2029' => ([], after)
    | _ =>
      if c = '0' && !after.next Char.isDigit then (['\x00'], after)
      else if isOctalDigit c then
        let (code, behind) := after.readOctal (if c ≤ '3' then 2 else 1) (c.toNat - '0'.toNat)
        ([codePoint (some code)], behind)
      else ([c], after)

/-! ## No reader goes back -/

theorem length_readHex_le (cursor : Cursor) (most count value : Nat) :
    (cursor.readHex most count value).2.2.length ≤ cursor.length := by
  induction most generalizing cursor count value with
  | zero => exact Nat.le_refl _
  | succ most ih =>
    unfold readHex
    split
    · split
      · exact Nat.le_trans (ih _ _ _) cursor.length_step_le
      · exact Nat.le_refl _
    · exact Nat.le_refl _

theorem length_readCode_le (cursor : Cursor) (least most : Nat) :
    (cursor.readCode least most).2.length ≤ cursor.length :=
  cursor.length_readHex_le most 0 0

theorem length_readOctal_le (cursor : Cursor) (most value : Nat) :
    (cursor.readOctal most value).2.length ≤ cursor.length := by
  induction most generalizing cursor value with
  | zero => exact Nat.le_refl _
  | succ most ih =>
    unfold readOctal
    split
    · split
      · exact Nat.le_trans (ih _ _) cursor.length_step_le
      · exact Nat.le_refl _
    · exact Nat.le_refl _

theorem length_readUnicode_le (cursor : Cursor) :
    cursor.readUnicode.2.length ≤ cursor.length := by
  have code := cursor.length_readCode_le 4 4
  have braced := Nat.le_trans (cursor.step.length_readCode_le 1 6) cursor.length_step_le
  unfold readUnicode
  split
  · simp only
    split
    · exact Nat.le_trans (length_step_le _) braced
    · exact braced
  · simp only
    split
    · split
      · have second := Nat.le_trans (((cursor.readCode 4 4).2.advance 2).length_readCode_le 4 4)
          (Nat.le_trans ((cursor.readCode 4 4).2.length_advance_le 2) code)
        split
        · rename_i pair
          rw [pair] at second
          split
          · exact second
          · exact code
        · exact code
      · exact code
    · exact code

theorem length_readEscape_le (cursor : Cursor) :
    cursor.readEscape.2.length ≤ cursor.length := by
  have after := cursor.length_step_le
  unfold readEscape
  split
  · exact Nat.le_refl _
  · simp only
    split
    · exact after
    · exact after
    · exact after
    · exact after
    · exact after
    · exact after
    · exact Nat.le_trans (cursor.step.length_readCode_le 2 2) after
    · exact Nat.le_trans cursor.step.length_readUnicode_le after
    · split
      · exact Nat.le_trans (length_step_le _) after
      · exact after
    · exact after
    · exact after
    · exact after
    · split
      · exact after
      · split
        · exact Nat.le_trans (cursor.step.length_readOctal_le _ _) after
        · exact after

/-! ## Strings and patterns -/

/-- Reads a string behind its opening quote: the decoded value, the place behind the
string, and whether the quote was closed.  A line end or the end of the text closes
nothing. -/
def readString (quote : Char) (cursor : Cursor) (value : List Char) :
    List Char × Cursor × Bool :=
  match _here : cursor.rest with
  | [] => (value.reverse, cursor, false)
  | c :: _ =>
    if c = quote then (value.reverse, cursor.step, true)
    else if c = '\\' then
      let escape := cursor.step.readEscape
      readString quote escape.2 (escape.1 ++ value)
    else if c = '\n' ∨ c = '\r' then (value.reverse, cursor, false)
    else readString quote cursor.step (c :: value)
  termination_by cursor.length
  decreasing_by
    · exact Nat.lt_of_le_of_lt (length_readEscape_le _) (length_step_lt ‹_›)
    · exact length_step_lt ‹_›

/-- Reads the body of a regular expression and its closing slash: the place behind it,
and whether the slash was there.  A slash inside a character class or behind a
backslash does not close, and a line end stops the search unless a backslash stands
before it. -/
def readPattern : (inClass : Bool) → List Char → (offset : Nat) → Cursor × Bool
  | _, [], offset => (⟨[], offset⟩, false)
  | inClass, '\\' :: rest, offset =>
    match rest with
    | [] => (⟨[], offset + 1⟩, false)
    | c :: more => readPattern inClass more (offset + 1 + c.utf8Size)
  | inClass, c :: rest, offset =>
    if c = '\n' ∨ c = '\r' then (⟨c :: rest, offset⟩, false)
    else if c = '/' && !inClass then (⟨rest, offset + 1⟩, true)
    else readPattern (c == '[' || (inClass && c != ']')) rest (offset + c.utf8Size)

end Cursor

end Unflatten
