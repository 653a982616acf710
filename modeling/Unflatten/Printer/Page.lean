import Unflatten.Printer.Writer
import Unflatten.Syntax.Store

/-! # The page being printed

A `Page` is the output so far together with the position up to which comments have been
dealt with.  `Page.leadingComments` writes the comments that stand in the source before
a statement and have not been written yet.  A statement without a place in the source
brings no comments. -/

set_option autoImplicit false

namespace Unflatten

/-- How to print. -/
structure PrinterOptions where
  removeComments : Bool
  /-- Escape in strings only what cannot stand there. -/
  minimalEscape : Bool
  /-- The number of spaces of one level. -/
  indentWidth : Nat
  deriving DecidableEq, Repr

/-- No comments, few escapes, four spaces. -/
def PrinterOptions.standard : PrinterOptions := ⟨true, true, 4⟩

/-- What is printed and how. -/
structure Printing where
  store : Store
  options : PrinterOptions
  source? : Option Source

/-- The output so far. -/
structure Page where
  writer : Writer
  /-- Comments before this position are written. -/
  commentsDone : Nat

namespace Page

/-- An empty page. -/
def empty (width : Nat) : Page := ⟨Writer.empty width, 0⟩

/-- Adds text. -/
def write (page : Page) (text : String) : Page := { page with writer := page.writer.write text }

/-- Adds a space. -/
def space (page : Page) : Page := { page with writer := page.writer.space }

/-- Ends the line. -/
def newLine (page : Page) : Page := { page with writer := page.writer.newLine }

/-- One level deeper. -/
def indented (page : Page) : Page := { page with writer := page.writer.indented }

/-- One level less deep. -/
def dedented (page : Page) : Page := { page with writer := page.writer.dedented }

/-- Writes one comment on a line of its own. -/
def comment (page : Page) (source : Source) (range : CommentRange) : Page :=
  let text := range.text source.text
  let shown :=
    if range.isBlock then reindent text page.writer.indent.toList else Text.trimEnd text
  (page.write (String.ofList shown)).newLine

/-- Writes the comments between the ones written last and a position. -/
def commentsUpTo (page : Page) (printing : Printing) (position : Nat) : Page :=
  match printing.source? with
  | none => page
  | some source =>
    if printing.options.removeComments || position ≤ page.commentsDone then page
    else
      let pending := CommentRange.between source.comments page.commentsDone position
      let page := pending.foldl (fun page range => page.comment source range) page
      { page with commentsDone := position }

/-- Writes the comments in front of a statement. -/
def leadingComments (page : Page) (printing : Printing) (statement : Slot) : Page :=
  match printing.store.node? statement with
  | none => page
  | some node =>
    if node.start = 0 ∧ node.stop = 0 then page else page.commentsUpTo printing node.start

/-- A position behind every source. -/
def endOfSource : Nat := 4294967295

/-- Writes the comments behind the last statement. -/
def remainingComments (page : Page) (printing : Printing) : Page :=
  page.commentsUpTo printing endOfSource

end Page

end Unflatten
