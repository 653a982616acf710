import Unflatten.Text.Replace

/-! # Diagnostics

No pass fails because of an unexpected shape in the program: it leaves that part as it
was and adds a `Diagnostic`.  A `Notice` is what a diagnostic is about; it fixes the
number, the category and a template, and `Diagnostic.of` fills the placeholders of the
template in. -/

set_option autoImplicit false

namespace Unflatten

/-- How serious a diagnostic is. -/
inductive Category where
  | warning
  | error
  | suggestion
  | message
  deriving DecidableEq, Repr, Inhabited

namespace Category

/-- The name of a category. -/
def name : Category → String
  | .warning => "Warning"
  | .error => "Error"
  | .suggestion => "Suggestion"
  | .message => "Message"

/-- The category with a given name. -/
def ofName? (name : String) : Option Category :=
  [warning, error, suggestion, message].find? (·.name == name)

end Category

/-- The occasions for a diagnostic. -/
inductive Notice where
  | parseError
  | unexpectedParentType
  | inlineSkipped
  | unexpectedLoopBody
  | dispatchVariable
  | dispatchKey
  | multipleDefaultChoice
  | unreachableBranch
  | escapingBreak
  | opaqueKey
  | keySize
  | keyCaseMismatch
  | dropInKey
  | mergeLimit
  | loopCollapsed
  deriving DecidableEq, Repr, Inhabited

namespace Notice

/-- All notices. -/
def all : List Notice :=
  [.parseError, .unexpectedParentType, .inlineSkipped, .unexpectedLoopBody, .dispatchVariable,
    .dispatchKey, .multipleDefaultChoice, .unreachableBranch, .escapingBreak, .opaqueKey,
    .keySize, .keyCaseMismatch, .dropInKey, .mergeLimit, .loopCollapsed]

/-- The name of a notice. -/
def name : Notice → String
  | .parseError => "PARSE_ERROR"
  | .unexpectedParentType => "UNEXPECTED_PARENT_TYPE"
  | .inlineSkipped => "INLINE_SKIPPED"
  | .unexpectedLoopBody => "UNEXPECTED_LOOP_BODY"
  | .dispatchVariable => "DISPATCH_VARIABLE"
  | .dispatchKey => "DISPATCH_KEY"
  | .multipleDefaultChoice => "MULTIPLE_DEFAULT_CHOICE"
  | .unreachableBranch => "UNREACHABLE_BRANCH"
  | .escapingBreak => "ESCAPING_BREAK"
  | .opaqueKey => "OPAQUE_KEY"
  | .keySize => "KEY_SIZE"
  | .keyCaseMismatch => "KEY_CASE_MISMATCH"
  | .dropInKey => "DROP_IN_KEY"
  | .mergeLimit => "MERGE_LIMIT"
  | .loopCollapsed => "LOOP_COLLAPSED"

/-- The notice with a given name. -/
def ofName? (name : String) : Option Notice := all.find? (·.name == name)

/-- The number of a notice.  The thousands tell the pass it comes from. -/
def code : Notice → Nat
  | .parseError => 1000
  | .unexpectedParentType => 2001
  | .inlineSkipped => 2002
  | .unexpectedLoopBody => 3001
  | .dispatchVariable => 3002
  | .dispatchKey => 3003
  | .multipleDefaultChoice => 4001
  | .unreachableBranch => 4002
  | .escapingBreak => 4003
  | .opaqueKey => 5001
  | .keySize => 5002
  | .keyCaseMismatch => 6001
  | .dropInKey => 6002
  | .mergeLimit => 6003
  | .loopCollapsed => 6004

/-- The category of a notice. -/
def category : Notice → Category
  | .parseError | .multipleDefaultChoice | .keyCaseMismatch => .error
  | .unexpectedParentType | .unexpectedLoopBody | .unreachableBranch | .escapingBreak
  | .opaqueKey | .dropInKey | .mergeLimit => .warning
  | .inlineSkipped | .dispatchVariable | .dispatchKey | .keySize | .loopCollapsed => .message

/-- The text of a notice, with a number in braces for each argument. -/
def template : Notice → String
  | .parseError => "\x7b0\x7d"
  | .unexpectedParentType => "Unexpected parent type '\x7b0\x7d' for \x7b1\x7d; left unchanged."
  | .inlineSkipped => "Immediately invoked function not inlined: \x7b0\x7d."
  | .unexpectedLoopBody => "Dispatch loop for '\x7b0\x7d' has \x7b1\x7d body statements, expected 2."
  | .dispatchVariable =>
    "Dispatch variable '\x7b0\x7d' (range \x7b1\x7d, key '\x7b2\x7d', parent '\x7b3\x7d')."
  | .dispatchKey => "Dispatch key '\x7b0\x7d' starts at \x7b1\x7d."
  | .multipleDefaultChoice => "Multiple default choice for '\x7b0\x7d'; chain left unchanged."
  | .unreachableBranch => "Branch on '\x7b0\x7d' is unreachable and was dropped."
  | .escapingBreak =>
    "Chain on '\x7b0\x7d' contains a break that would change target; left unchanged."
  | .opaqueKey => "Dispatch key '\x7b0\x7d' is not tracked: \x7b1\x7d."
  | .keySize => "Dispatch key '\x7b0\x7d' has \x7b1\x7d states."
  | .keyCaseMismatch => "Key - Case miss match for '\x7b0\x7d': \x7b1\x7d."
  | .dropInKey => "Drop in key '\x7b0\x7d': case \x7b1\x7d is never selected."
  | .mergeLimit => "Merging '\x7b0\x7d' stopped after \x7b1\x7d sweeps."
  | .loopCollapsed => "Dispatch loop for '\x7b0\x7d' collapsed into straight-line code."

end Notice

/-- Fills in the placeholders, one argument after the other; a placeholder within an
argument is filled in by the arguments after it. -/
def fillTemplate (template : String) (arguments : List String) : String :=
  arguments.zipIdx.foldl (fun text (argument, place) =>
    Text.replaceAll text ("\x7b" ++ toString place ++ "\x7d") argument) template

/-- A remark on a stretch of the source. -/
structure Diagnostic where
  category : Category
  code : Nat
  start : Nat
  length : Nat
  text : String
  deriving DecidableEq, Repr, Inhabited

namespace Diagnostic

/-- The diagnostic of a notice with its arguments. -/
def of (notice : Notice) (start length : Nat) (arguments : List String) : Diagnostic where
  category := notice.category
  code := notice.code
  start := start
  length := length
  text := fillTemplate notice.template arguments

/-- Whether the diagnostic is an error. -/
def isError (diagnostic : Diagnostic) : Bool := diagnostic.category == .error

end Diagnostic

end Unflatten
