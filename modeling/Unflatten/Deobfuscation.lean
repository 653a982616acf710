import Unflatten.Canonical.Normalize
import Unflatten.Dispatch.Chain
import Unflatten.Dispatch.Classify
import Unflatten.Dispatch.Restore
import Unflatten.Dispatch.Tracking
import Unflatten.Hoist
import Unflatten.Parser.Statement
import Unflatten.Printer.Statement
import Unflatten.Rename

/-! # Deobfuscation

A program is parsed, its bindings are renamed, it is brought into canonical form, its
dispatch loops are restored to straight code, assignments are moved out of brackets, and
it is printed.  Only a syntax error makes this fail: whatever a pass cannot handle stays
as it was, and the journal tells about it. -/

set_option autoImplicit false

namespace Unflatten

/-- Which passes are left out. -/
structure PassOptions where
  skipRename : Bool
  skipNormalize : Bool
  /-- Leave out everything about dispatch loops. -/
  skipControlFlow : Bool
  skipHoist : Bool
  deriving DecidableEq, Repr

/-- All passes. -/
def PassOptions.all : PassOptions := ⟨false, false, false, false⟩

/-- A program without syntax errors for which something is known. -/
structure Workpiece where
  store : Store
  root : NodeId
  findings : Findings

namespace Workpiece

/-- A program of which nothing is known yet. -/
def ofProgram (program : Program) : Workpiece := ⟨program.store, program.root, Findings.empty⟩

/-- Renames all bindings and answers their number. -/
def rename (work : Workpiece) : Workpiece × Nat :=
  let root := work.root
  let (store, count) := work.store.rename root
  ({ work with store := store }, count)

/-- Runs something that rewrites the tree and writes to the journal. -/
def rewriting (work : Workpiece)
    (rewrite : NodeId → Store × Journal → (Store × Journal) × Bool) : Workpiece × Bool :=
  match work with
  | ⟨store, root, ⟨parts, keys, journal⟩⟩ =>
    let ((store, journal), changed) := rewrite root (store, journal)
    (⟨store, root, ⟨parts, keys, journal⟩⟩, changed)

/-- Applies one rule of the canonical form until it changes nothing. -/
def applyRule (work : Workpiece) (rule : Rule) : Workpiece × Bool := work.rewriting rule.run

/-- Brings the program into canonical form and answers whether anything changed. -/
def normalize (work : Workpiece) : Workpiece × Bool := work.rewriting Unflatten.normalize

/-- Finds the dispatch loops. -/
def classify (work : Workpiece) : Workpiece :=
  { work with findings := work.findings.classify work.store work.root }

/-- Replaces chains of tests by `switch` statements and answers their number. -/
def flattenChains (work : Workpiece) : Workpiece × Nat :=
  match work with
  | ⟨store, root, findings⟩ =>
    let (store, findings, count) := Unflatten.flattenChains store root findings
    (⟨store, root, findings⟩, count)

/-- Tracks the values of the keys. -/
def trackKeys (work : Workpiece) : Workpiece :=
  { work with findings := work.findings.trackKeys work.store work.root }

/-- Restores the dispatchers and answers the number of those rewritten. -/
def restoreDispatchers (work : Workpiece) : Workpiece × Nat :=
  match work with
  | ⟨store, root, findings⟩ =>
    let (store, findings, count) := Unflatten.restoreDispatchers store root findings
    (⟨store, root, findings⟩, count)

/-- Moves assignments out of brackets and answers their number. -/
def hoistAssignments (work : Workpiece) : Workpiece × Nat :=
  let root := work.root
  let (store, count) := work.store.hoistAssignments root
  ({ work with store := store }, count)

/-- Runs everything about dispatch loops. -/
def restoreControlFlow (work : Workpiece) : Workpiece :=
  work.classify.flattenChains.1.trackKeys.restoreDispatchers.1

/-- Runs all passes that are not left out. -/
def runPasses (work : Workpiece) (options : PassOptions) : Workpiece :=
  let work := if options.skipRename then work else work.rename.1
  let work := if options.skipNormalize then work else work.normalize.1
  let work := if options.skipControlFlow then work else work.restoreControlFlow
  if options.skipHoist then work else work.hoistAssignments.1

/-- The diagnostics so far. -/
def diagnostics (work : Workpiece) : List Diagnostic := work.findings.journal.entries.toList

/-- The text of the program. -/
def print (work : Workpiece) (options : PrinterOptions) : String :=
  work.store.print options (some work.root)

end Workpiece

/-- What deobfuscation makes of a program. -/
structure Deobfuscated where
  code : String
  diagnostics : List Diagnostic
  deriving DecidableEq, Repr

/-- Deobfuscates the text of a program, or answers its syntax errors. -/
def deobfuscate (text : List Char) (options : PassOptions) (printer : PrinterOptions) :
    Except (List SyntaxError) Deobfuscated :=
  let program := parse text
  if program.errors.isEmpty then
    let work := (Workpiece.ofProgram program).runPasses options
    .ok ⟨work.print printer, work.diagnostics⟩
  else .error program.errors

/-- The message of a program that has syntax errors, of which the first is given. -/
def syntaxFailure (file : String) (errors : List SyntaxError) : String :=
  let first := ((errors.head?).map (·.message)).getD ""
  "parse error in " ++ file ++ ": " ++ first

end Unflatten
