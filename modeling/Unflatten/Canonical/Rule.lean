import Unflatten.Journal
import Unflatten.Syntax.Build
import Unflatten.Syntax.Facts

/-! # Rules of the canonical form

A rule looks at one node and either rewrites the tree there, leaves it, or refuses and
says why.  The rules bring a program into a form in which the bodies of `if` and of
loops are blocks, each clause of a `switch` holds one block, and no statement is a
sequence, a conditional or an `&&` expression. -/

set_option autoImplicit false

namespace Unflatten

/-- The rules. -/
inductive Rule where
  | removeVoid
  | conditionalAssign
  | conditionalIf
  | logicalIf
  | ifBody
  | ifTestSequence
  | ifTestBinary
  | switchCase
  | returnSequence
  | sequence
  | inlineCall
  | flattenBlock
  deriving DecidableEq, Repr, Inhabited

namespace Rule

/-- All rules, in the order in which they are applied. -/
def all : List Rule :=
  [.removeVoid, .conditionalAssign, .conditionalIf, .logicalIf, .ifBody, .ifTestSequence,
    .ifTestBinary, .switchCase, .returnSequence, .sequence, .inlineCall, .flattenBlock]

/-- The name of a rule. -/
def name : Rule → String
  | .removeVoid => "remove-void"
  | .conditionalAssign => "conditional-assign"
  | .conditionalIf => "conditional-if"
  | .logicalIf => "logical-if"
  | .ifBody => "if-body"
  | .ifTestSequence => "if-test-sequence"
  | .ifTestBinary => "if-test-binary"
  | .switchCase => "switch-case"
  | .returnSequence => "return-sequence"
  | .sequence => "sequence"
  | .inlineCall => "inline-iife"
  | .flattenBlock => "flatten-block"

/-- The rule with a given name. -/
def ofName? (name : String) : Option Rule := all.find? (·.name == name)

/-- Whether the rule visits parents before their children. -/
def isTopDown : Rule → Bool
  | .removeVoid | .conditionalIf | .ifTestSequence | .switchCase | .returnSequence
  | .inlineCall => true
  | .conditionalAssign | .logicalIf | .ifBody | .ifTestBinary | .sequence
  | .flattenBlock => false

end Rule

/-- What a rule made of a node. -/
inductive Outcome where
  | unchanged
  | changed
  /-- The node is of the rule's kind, but must be left as it is. -/
  | refused (remark : Remark)
  deriving DecidableEq, Repr

/-- The outcome of an edit that applied or not. -/
def Outcome.ofBool (applied : Bool) : Outcome := if applied then .changed else .unchanged

/-- The outcome of an edit together with its store. -/
def Outcome.ofEdit (edit : Store × Bool) : Store × Outcome := (edit.1, Outcome.ofBool edit.2)

end Unflatten
