/-! # The indenting writer

A `Writer` collects the output.  The indent of a line is put in front of its first
text and not before, and `newLine` at the start of a line does nothing, so that no line
is blank and none ends in an indent. -/

set_option autoImplicit false

namespace Unflatten

/-- Output with a current indent. -/
structure Writer where
  output : String
  level : Nat
  width : Nat
  /-- Nothing stands on the current line yet. -/
  atLineStart : Bool
  deriving Repr, Inhabited

namespace Writer

/-- A writer without output, with the number of spaces of one level. -/
def empty (width : Nat) : Writer := ⟨"", 0, width, true⟩

/-- The spaces of the current indent. -/
def indent (writer : Writer) : String := String.ofList (List.replicate (writer.level * writer.width) ' ')

/-- Writes the pending indent of the line. -/
def beginLine (writer : Writer) : Writer :=
  if writer.atLineStart then
    let indent := writer.indent
    { writer with output := writer.output ++ indent, atLineStart := false }
  else writer

/-- Adds text to the line; an empty text leaves the indent pending. -/
def write (writer : Writer) (text : String) : Writer :=
  if text.isEmpty then writer
  else
    let writer := writer.beginLine
    { writer with output := writer.output ++ text }

/-- Adds one character to the line. -/
def writeChar (writer : Writer) (c : Char) : Writer :=
  let writer := writer.beginLine
  { writer with output := writer.output.push c }

/-- Adds a space to the line. -/
def space (writer : Writer) : Writer := writer.writeChar ' '

/-- Ends the line, if anything stands on it. -/
def newLine (writer : Writer) : Writer :=
  if writer.atLineStart then writer
  else { writer with output := writer.output.push '\n', atLineStart := true }

/-- One level deeper. -/
def indented (writer : Writer) : Writer := { writer with level := writer.level + 1 }

/-- One level less deep, but never below the margin. -/
def dedented (writer : Writer) : Writer := { writer with level := writer.level - 1 }

theorem newLine_newLine (writer : Writer) : writer.newLine.newLine = writer.newLine := by
  unfold newLine
  by_cases start : writer.atLineStart = true <;> simp [start]

theorem dedented_indented (writer : Writer) : writer.indented.dedented = writer := rfl

end Writer

end Unflatten
