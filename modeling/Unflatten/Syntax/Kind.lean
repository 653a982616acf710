import Unflatten.Syntax.Shape

/-! # Kinds of node

A `NodeKind` is a shape without its content.  A node that stands for a token has the
kind of that token; all others have kinds of their own, with numbers above those of the
tokens.  `NodeKind.name` is the name used where nodes are listed, and
`NodeKind.shortName` the one used in diagnostics. -/

set_option autoImplicit false

namespace Unflatten

/-- The kind of a node. -/
inductive NodeKind where
  | token (kind : TokenKind)
  | sourceFile
  | variableStatement
  | variableDeclarationList
  | variableDeclaration
  | functionDeclaration
  | block
  | emptyStatement
  | expressionStatement
  | ifStatement
  | forStatement
  | forInStatement
  | whileStatement
  | doStatement
  | switchStatement
  | caseClause
  | defaultClause
  | breakStatement
  | continueStatement
  | returnStatement
  | throwStatement
  | tryStatement
  | catchClause
  | labeledStatement
  | debuggerStatement
  | prefixUnaryExpression
  | postfixUnaryExpression
  | binaryExpression
  | conditionalExpression
  | sequenceExpression
  | callExpression
  | newExpression
  | propertyAccessExpression
  | elementAccessExpression
  | arrayLiteralExpression
  | objectLiteralExpression
  | propertyAssignment
  | functionExpression
  | omittedExpression
  deriving DecidableEq, Repr, Inhabited

namespace NodeKind

/-- The kinds that are no tokens. -/
def composites : List NodeKind := [
  .sourceFile, .variableStatement, .variableDeclarationList, .variableDeclaration,
  .functionDeclaration, .block, .emptyStatement, .expressionStatement, .ifStatement,
  .forStatement, .forInStatement, .whileStatement, .doStatement, .switchStatement, .caseClause,
  .defaultClause, .breakStatement, .continueStatement, .returnStatement, .throwStatement,
  .tryStatement, .catchClause, .labeledStatement, .debuggerStatement, .prefixUnaryExpression,
  .postfixUnaryExpression, .binaryExpression, .conditionalExpression, .sequenceExpression,
  .callExpression, .newExpression, .propertyAccessExpression, .elementAccessExpression,
  .arrayLiteralExpression, .objectLiteralExpression, .propertyAssignment, .functionExpression,
  .omittedExpression]

/-- The number of a kind. -/
def number : NodeKind → Nat
  | .token kind => kind.number
  | .sourceFile => 200
  | .variableStatement => 201
  | .variableDeclarationList => 202
  | .variableDeclaration => 203
  | .functionDeclaration => 204
  | .block => 210
  | .emptyStatement => 211
  | .expressionStatement => 212
  | .ifStatement => 213
  | .forStatement => 214
  | .forInStatement => 215
  | .whileStatement => 216
  | .doStatement => 217
  | .switchStatement => 218
  | .caseClause => 219
  | .defaultClause => 220
  | .breakStatement => 221
  | .continueStatement => 222
  | .returnStatement => 223
  | .throwStatement => 224
  | .tryStatement => 225
  | .catchClause => 226
  | .labeledStatement => 227
  | .debuggerStatement => 228
  | .prefixUnaryExpression => 240
  | .postfixUnaryExpression => 241
  | .binaryExpression => 242
  | .conditionalExpression => 243
  | .sequenceExpression => 244
  | .callExpression => 245
  | .newExpression => 246
  | .propertyAccessExpression => 247
  | .elementAccessExpression => 248
  | .arrayLiteralExpression => 249
  | .objectLiteralExpression => 250
  | .propertyAssignment => 251
  | .functionExpression => 252
  | .omittedExpression => 253

/-- The name of a kind.  Tokens other than identifiers and literals share one. -/
def name : NodeKind → String
  | .token .identifier => "Identifier"
  | .token .numericLiteral => "NumericLiteral"
  | .token .stringLiteral => "StringLiteral"
  | .token .regularExpressionLiteral => "RegularExpressionLiteral"
  | .token _ => "Token"
  | .sourceFile => "SourceFile"
  | .variableStatement => "VariableStatement"
  | .variableDeclarationList => "VariableDeclarationList"
  | .variableDeclaration => "VariableDeclaration"
  | .functionDeclaration => "FunctionDeclaration"
  | .block => "Block"
  | .emptyStatement => "EmptyStatement"
  | .expressionStatement => "ExpressionStatement"
  | .ifStatement => "IfStatement"
  | .forStatement => "ForStatement"
  | .forInStatement => "ForInStatement"
  | .whileStatement => "WhileStatement"
  | .doStatement => "DoStatement"
  | .switchStatement => "SwitchStatement"
  | .caseClause => "CaseClause"
  | .defaultClause => "DefaultClause"
  | .breakStatement => "BreakStatement"
  | .continueStatement => "ContinueStatement"
  | .returnStatement => "ReturnStatement"
  | .throwStatement => "ThrowStatement"
  | .tryStatement => "TryStatement"
  | .catchClause => "CatchClause"
  | .labeledStatement => "LabeledStatement"
  | .debuggerStatement => "DebuggerStatement"
  | .prefixUnaryExpression => "PrefixUnaryExpression"
  | .postfixUnaryExpression => "PostfixUnaryExpression"
  | .binaryExpression => "BinaryExpression"
  | .conditionalExpression => "ConditionalExpression"
  | .sequenceExpression => "SequenceExpression"
  | .callExpression => "CallExpression"
  | .newExpression => "NewExpression"
  | .propertyAccessExpression => "PropertyAccessExpression"
  | .elementAccessExpression => "ElementAccessExpression"
  | .arrayLiteralExpression => "ArrayLiteralExpression"
  | .objectLiteralExpression => "ObjectLiteralExpression"
  | .propertyAssignment => "PropertyAssignment"
  | .functionExpression => "FunctionExpression"
  | .omittedExpression => "OmittedExpression"

/-- The name of a kind in diagnostics: a regular expression is a plain token there. -/
def shortName (kind : NodeKind) : String :=
  if kind = .token .regularExpressionLiteral then "Token" else kind.name

/-- The composite kind with a number. -/
def ofNumber? (number : Nat) : Option NodeKind :=
  composites.find? (·.number == number)

/-- The kind with a number; a number without a kind counts as the unknown token. -/
def ofNumber (number : Nat) : NodeKind :=
  let listed : List TokenKind :=
    [.identifier, .numericLiteral, .stringLiteral, .regularExpressionLiteral]
  match ofNumber? number, listed.find? (·.number == number) with
  | some kind, _ => kind
  | none, some kind => .token kind
  | none, none => .token .unknown

end NodeKind

namespace Shape

/-- The kind of a shape. -/
def kind : Shape → NodeKind
  | .file _ _ => .sourceFile
  | .block _ => .block
  | .clause isDefault _ _ => if isDefault then .defaultClause else .caseClause
  | .declarationList isStatement _ => if isStatement then .variableStatement else .variableDeclarationList
  | .declaration _ _ => .variableDeclaration
  | .function isExpression _ _ _ => if isExpression then .functionExpression else .functionDeclaration
  | .expressionStatement _ => .expressionStatement
  | .conditionalStatement _ _ _ => .ifStatement
  | .loop .forLoop _ _ _ _ => .forStatement
  | .loop .whileLoop _ _ _ _ => .whileStatement
  | .loop .doLoop _ _ _ _ => .doStatement
  | .forIn _ _ _ => .forInStatement
  | .switch _ _ => .switchStatement
  | .exit .returns _ => .returnStatement
  | .exit .throws _ => .throwStatement
  | .jump .breaks _ => .breakStatement
  | .jump .continues _ => .continueStatement
  | .labeled _ _ => .labeledStatement
  | .tryStatement _ _ _ => .tryStatement
  | .catchClause _ _ => .catchClause
  | .emptyStatement => .emptyStatement
  | .debuggerStatement => .debuggerStatement
  | .omitted => .omittedExpression
  | .identifier _ => .token .identifier
  | .literal .number _ _ => .token .numericLiteral
  | .literal .string _ _ => .token .stringLiteral
  | .literal .pattern _ _ => .token .regularExpressionLiteral
  | .token kind => .token kind
  | .unary isUpdateAfter _ _ =>
    if isUpdateAfter then .postfixUnaryExpression else .prefixUnaryExpression
  | .binary _ _ _ => .binaryExpression
  | .conditional _ _ _ => .conditionalExpression
  | .elements .sequence _ => .sequenceExpression
  | .elements .array _ => .arrayLiteralExpression
  | .elements .object _ => .objectLiteralExpression
  | .call isNew _ _ => if isNew then .newExpression else .callExpression
  | .access isElement _ _ =>
    if isElement then .elementAccessExpression else .propertyAccessExpression
  | .propertyAssignment _ _ => .propertyAssignment

theorem kind_withSlots (shape : Shape) (slots : List Slot) :
    (shape.withSlots slots).kind = shape.kind := by
  cases shape
  case loop kind _ _ _ _ => cases kind <;> rfl
  case exit kind _ => cases kind <;> rfl
  case jump kind _ => cases kind <;> rfl
  case literal kind _ _ => cases kind <;> rfl
  case elements kind _ => cases kind <;> rfl
  all_goals rfl

end Shape

end Unflatten
