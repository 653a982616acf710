/-! # Log formats

The name of a log format is read without regard to case, and any other name stands for
plain text. -/

set_option autoImplicit false

namespace Unflatten

/-- How log records are written. -/
inductive LogFormat where
  | text
  | tree
  | json
  deriving DecidableEq, Repr, Inhabited

namespace LogFormat

/-- The name of a format. -/
def name : LogFormat → String
  | .text => "Text"
  | .tree => "Tree"
  | .json => "Json"

/-- The format that a setting asks for.  Only the letters of the alphabet matter: no
other character has one of the letters of these names for its lower case. -/
def ofText (setting : String) : LogFormat :=
  let lower := String.ofList (setting.toList.map Char.toLower)
  if lower = "tree" then .tree
  else if lower = "json" then .json
  else .text

end LogFormat

end Unflatten
