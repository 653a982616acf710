import Unflatten.Token.Lexer

/-! # Syntax errors

A `SyntaxError` names its cause and a stretch of the source.  The parser reports at
most one error at a place, so that one mistake does not bring others with it. -/

set_option autoImplicit false

namespace Unflatten

/-- What can be wrong with a program. -/
inductive SyntaxError.Cause where
  | expected (kind : TokenKind)
  | identifierExpected
  | propertyExpected
  | clauseExpected
  | handlerExpected
  | lineBreakBeforeOperand
  | assignmentTarget
  | expressionExpected
  | statementExpected
  | returnOutsideFunction
  | nestingTooDeep
  | lexical (cause : LexicalError.Cause)
  deriving DecidableEq, Repr

namespace SyntaxError.Cause

/-- The number under which a cause is reported. -/
def code : SyntaxError.Cause → Nat
  | .expected _ | .identifierExpected | .propertyExpected | .clauseExpected | .handlerExpected
  | .lineBreakBeforeOperand | .assignmentTarget => 1005
  | .expressionExpected => 1109
  | .statementExpected => 1128
  | .returnOutsideFunction => 1108
  | .nestingTooDeep => 1200
  | .lexical cause => cause.code

/-- The text of a cause. -/
def message : SyntaxError.Cause → String
  | .expected kind => "'" ++ kind.text ++ "' expected."
  | .identifierExpected => "Identifier expected."
  | .propertyExpected => "Property assignment expected."
  | .clauseExpected => "'case' or 'default' expected."
  | .handlerExpected => "'catch' or 'finally' expected."
  | .lineBreakBeforeOperand => "Line break not permitted here."
  | .assignmentTarget =>
    "The left-hand side of an assignment expression must be a variable or a property access."
  | .expressionExpected => "Expression expected."
  | .statementExpected => "Declaration or statement expected."
  | .returnOutsideFunction => "A 'return' statement can only be used within a function body."
  | .nestingTooDeep => "Nesting too deep."
  | .lexical cause => cause.message

end SyntaxError.Cause

/-- An error in a stretch of the source. -/
structure SyntaxError where
  start : Nat
  length : Nat
  cause : SyntaxError.Cause
  deriving DecidableEq, Repr

/-- The text of an error. -/
def SyntaxError.message (error : SyntaxError) : String := error.cause.message

/-- The number of an error. -/
def SyntaxError.code (error : SyntaxError) : Nat := error.cause.code

end Unflatten
