import Unflatten.Diagnostic
import Unflatten.Text.Json
import Unflatten.Text.Replace
import Unflatten.Token.Comment

/-! # Reporting diagnostics

A diagnostic is reported with the file, the line and the column it starts at, as a line
of text or as a JSON object.  Lines and columns count from one, and a column counts the
bytes of the text. -/

set_option autoImplicit false

namespace Unflatten

/-- The file that diagnostics are about. -/
structure Reporter where
  file : String
  /-- The offsets at which lines start, in bytes. -/
  lineStarts : Array Nat
  isColored : Bool

namespace Reporter

/-- The offsets at which the lines of a text start. -/
def lineStartsOf (text : List Char) : Array Nat :=
  (text.foldl (fun (state : Array Nat × Nat) c =>
    let offset := state.2 + c.utf8Size
    (if c = '\n' then state.1.push offset else state.1, offset)) (#[0], 0)).1

/-- A reporter for the text of a file. -/
def ofText (file : String) (text : List Char) (isColored : Bool) : Reporter :=
  ⟨file, lineStartsOf text, isColored⟩

/-- The line and the column of an offset. -/
def position (reporter : Reporter) (offset : Nat) : Nat × Nat :=
  let line := max (partitionPoint reporter.lineStarts (· ≤ offset)) 1
  (line, offset - (reporter.lineStarts[line - 1]?).getD 0 + 1)

/-! ## Lines of text -/

/-- A text in a colour, if the report is coloured.  An end of colour within the text
takes the colour up again. -/
def paint (reporter : Reporter) (style text : String) : String :=
  if reporter.isColored then
    let opening := "\x1b[" ++ style ++ "m"
    let closing := "\x1b[0m"
    opening ++ Text.replaceAll text closing (closing ++ opening) ++ closing
  else text

/-- The word for a category and its colour. -/
def categoryLabel : Category → String × String
  | .error => ("1;31", "error")
  | .warning => ("1;33", "warning")
  | .suggestion => ("34", "suggestion")
  | .message => ("34", "message")

/-- A diagnostic as a line of text. -/
def line (reporter : Reporter) (diagnostic : Diagnostic) : String :=
  let (row, column) := reporter.position diagnostic.start
  let place := reporter.file ++ ":" ++ toString row ++ ":" ++ toString column
  let (style, label) := categoryLabel diagnostic.category
  reporter.paint "36" place ++ " - " ++ reporter.paint style label ++ " "
    ++ reporter.paint "2" ("DF" ++ toString diagnostic.code) ++ ": " ++ diagnostic.text

/-- Diagnostics as lines of text. -/
def render (reporter : Reporter) (diagnostics : List Diagnostic) : String :=
  String.join (diagnostics.map fun diagnostic => reporter.line diagnostic ++ "\n")

/-! ## JSON -/

/-- A diagnostic as a JSON object. -/
def object (reporter : Reporter) (diagnostic : Diagnostic) : String :=
  let (row, column) := reporter.position diagnostic.start
  let fields :=
    [("file", Text.jsonString reporter.file), ("line", toString row),
      ("column", toString column), ("category", Text.jsonString diagnostic.category.name),
      ("code", toString diagnostic.code), ("start", toString diagnostic.start),
      ("length", toString diagnostic.length), ("message_text", Text.jsonString diagnostic.text)]
  let members := fields.map fun (name, value) => Text.jsonString name ++ ":" ++ value
  "\x7b" ++ String.intercalate "," members ++ "\x7d"

/-- Diagnostics as JSON objects, one on a line. -/
def renderJson (reporter : Reporter) (diagnostics : List Diagnostic) : String :=
  String.join (diagnostics.map fun diagnostic => reporter.object diagnostic ++ "\n")

end Reporter

end Unflatten
