import Unflatten.Text.Blank

/-! # Comment ranges

Comments are no part of the tree: the lexer records where they stand, and the printer
puts them back before the statements that follow them.  `CommentRange.between` selects
the comments of a window by binary search, `CommentRange.text` cuts a comment out of
the source and `reindent` moves the later lines of a block comment. -/

set_option autoImplicit false

namespace Unflatten

/-- Where a comment stands, in bytes. -/
structure CommentRange where
  start : Nat
  stop : Nat
  isBlock : Bool
  endsLine : Bool
  deriving DecidableEq, Repr, Inhabited

namespace Text

/-- The number of bytes of a text. -/
def byteCount (text : List Char) : Nat := text.foldl (fun count c => count + c.utf8Size) 0

/-- The text behind the first bytes. -/
def dropBytes : Nat → List Char → List Char
  | _, [] => []
  | count, c :: rest => if count = 0 then c :: rest else dropBytes (count - c.utf8Size) rest

/-- The characters within the first bytes. -/
def takeBytes : Nat → List Char → List Char
  | _, [] => []
  | count, c :: rest => if count = 0 then [] else c :: takeBytes (count - c.utf8Size) rest

theorem takeBytes_append_dropBytes (count : Nat) (text : List Char) :
    takeBytes count text ++ dropBytes count text = text := by
  induction text generalizing count with
  | nil => rfl
  | cons c rest ih => by_cases none : count = 0 <;> simp [takeBytes, dropBytes, none, ih]

end Text

/-- Halves an interval of `size` places from `base` on, keeping the half that holds
the last place of which `before` is true. -/
def bisect (before : Nat → Bool) (base size : Nat) : Nat :=
  if size ≤ 1 then base
  else bisect before (if before (base + size / 2) then base + size / 2 else base) (size - size / 2)
  termination_by size

/-- By binary search, the number of leading items that satisfy `before`, in an array
where those come first. -/
def partitionPoint {α : Type} (items : Array α) (before : α → Bool) : Nat :=
  let test (place : Nat) : Bool := items[place]?.any before
  if items.isEmpty then 0
  else
    let place := bisect test 0 items.size
    if test place then place + 1 else place

namespace CommentRange

/-- The comments that start at or behind `after` and end at or before `position`. -/
def between (comments : Array CommentRange) (after position : Nat) : List CommentRange :=
  let first := partitionPoint comments fun c => c.start < after
  let last := partitionPoint comments fun c => c.stop ≤ position
  if last ≤ first then [] else (comments.extract first last).toList

/-- The comment's text; empty for a range that is empty or reaches beyond the source. -/
def text (source : List Char) (range : CommentRange) : List Char :=
  if range.stop ≤ Text.byteCount source ∧ range.start < range.stop then
    Text.takeBytes (range.stop - range.start) (Text.dropBytes range.start source)
  else []

end CommentRange

/-- A block comment whose later lines start with the indent in place of their own
blanks.  Blank lines and a comment of one line stay as they are. -/
def reindent (comment indent : List Char) : List Char :=
  match Text.lines comment with
  | first :: second :: more =>
    (second :: more).foldl (fun text line =>
      if (Text.trim line).isEmpty then text ++ '\n' :: line
      else text ++ '\n' :: indent ++ Text.trimStart line) first
  | _ => comment

end Unflatten
