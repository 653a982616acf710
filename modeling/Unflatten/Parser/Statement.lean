import Unflatten.Parser.Expression

/-! # Parsing statements

`Parser.grammar` ties the parsers of statements, assignments and prefixed operands
together: at depth zero nothing more may be nested, and at each greater depth they are
built from those one level less deep.  `parse` reads a whole file. -/

set_option autoImplicit false

namespace Unflatten

namespace Parser

/-- The condition of a statement, in parentheses. -/
def condition (inner : Grammar) : Parser Slot := parenthesized inner

/-- An expression as a statement; nothing if there is no expression. -/
def expressionStatement (inner : Grammar) : Parser Slot := do
  let start ← position
  let inside ← expression inner
  if inside.isNone then return none
  endStatement
  node (.expressionStatement inside) start

/-- A statement behind a label. -/
def labeledStatement (inner : Grammar) : Parser Slot := do
  let start ← position
  let label ← identifier
  discard (expect .colon)
  let body ← inner .statement
  node (.labeled label body) start

/-- Declarations behind `var`, `let` or `const`, with the marks of the keyword. -/
def variableDeclarations (inner : Grammar) : Parser (Flags × List Slot) := do
  let keyword ← token
  let flags := { Flags.none with
    isLet := keyword == .letKeyword, isConst := keyword == .constKeyword }
  advance
  let found ← repeatWhile (#[] : Array Slot) fun found => do
    let start ← position
    let name ← bindingIdentifier
    let initializer ← if ← accept .equals then inner .assignment else pure none
    let entry ← node (.declaration name initializer) start
    return (found.push entry, ← accept .comma)
  return (flags, found.toList)

/-- A variable statement. -/
def variableStatement (inner : Grammar) : Parser Slot := do
  let start ← position
  let (flags, declarations) ← variableDeclarations inner
  endStatement
  flagged (.declarationList true declarations) flags start

/-- A function declaration. -/
def functionDeclaration (inner : Grammar) : Parser Slot := do
  let start ← position
  discard (expect .functionKeyword)
  let name ← bindingIdentifier
  let (parameters, body) ← signatureAndBody inner
  node (.function false name parameters body) start

/-- An `if` statement. -/
def conditionalStatement (inner : Grammar) : Parser Slot := do
  let start ← position
  discard (expect .ifKeyword)
  let test ← condition inner
  let thenBody ← inner .statement
  let elseBody ← if ← accept .elseKeyword then inner .statement else pure none
  node (.conditionalStatement test thenBody elseBody) start

/-- The initializer of a `for` loop, which may be missing. -/
def loopInitializer (inner : Grammar) : Parser Slot := do
  match ← token with
  | .varKeyword | .letKeyword | .constKeyword =>
    let start ← position
    let (flags, declarations) ← variableDeclarations inner
    flagged (.declarationList false declarations) flags start
  | .semicolon => return none
  | _ => expression inner

/-- A `for` loop of either form. -/
def forStatement (inner : Grammar) : Parser Slot := do
  let start ← position
  discard (expect .forKeyword)
  discard (expect .openParen)
  let initializer ← insideHead (loopInitializer inner)
  let isForIn ← if initializer.isSome then accept .inKeyword else pure false
  if isForIn then
    let object ← outsideHead (expression inner)
    discard (expect .closeParen)
    let body ← inner .statement
    node (.forIn initializer object body) start
  else
    discard (expect .semicolon)
    let test ← if ← at? .semicolon then pure none else outsideHead (expression inner)
    discard (expect .semicolon)
    let incrementor ← if ← at? .closeParen then pure none else outsideHead (expression inner)
    discard (expect .closeParen)
    let body ← inner .statement
    node (.loop .forLoop initializer test incrementor body) start

/-- A `while` loop. -/
def whileStatement (inner : Grammar) : Parser Slot := do
  let start ← position
  discard (expect .whileKeyword)
  let test ← condition inner
  let body ← inner .statement
  node (.loop .whileLoop none test none body) start

/-- A `do` loop.  The semicolon behind it may always be missing. -/
def doStatement (inner : Grammar) : Parser Slot := do
  let start ← position
  discard (expect .doKeyword)
  let body ← inner .statement
  discard (expect .whileKeyword)
  let test ← condition inner
  discard (accept .semicolon)
  node (.loop .doLoop none test none body) start

/-- The end of the statements of a clause. -/
def endsClause (kind : TokenKind) : Bool :=
  kind == .caseKeyword || kind == .defaultKeyword || kind == .closeBrace

/-- The statements of a clause behind its label. -/
def clauseBody (inner : Grammar) (isDefault : Bool) (label : Slot) (start : Nat) : Parser Slot := do
  discard (expect .colon)
  let statements ← statementList inner endsClause
  node (.clause isDefault label statements) start

/-- A `switch` statement. -/
def switchStatement (inner : Grammar) : Parser Slot := do
  let start ← position
  discard (expect .switchKeyword)
  let discriminant ← condition inner
  discard (expect .openBrace)
  let clauses ← repeatWhile (#[] : Array Slot) fun clauses => do
    if ← atClose .closeBrace then return (clauses, false)
    let clauseStart ← position
    match ← token with
    | .caseKeyword =>
      advance
      let label ← outsideHead (expression inner)
      return (clauses.push (← clauseBody inner false label clauseStart), true)
    | .defaultKeyword =>
      advance
      return (clauses.push (← clauseBody inner true none clauseStart), true)
    | _ =>
      report .clauseExpected
      advance
      return (clauses, true)
  discard (expect .closeBrace)
  node (.switch discriminant clauses.toList) start

/-- A jump, with a label on the same line or without one. -/
def jumpStatement (kind : JumpKind) : Parser Slot := do
  let start ← position
  advance
  let label ← if (← at? .identifier) && !(← lineBreakBefore) then identifier else pure none
  endStatement
  node (.jump kind label) start

/-- A `return` statement. -/
def returnStatement (inner : Grammar) : Parser Slot := do
  let start ← position
  unless ← inFunction do report .returnOutsideFunction
  advance
  let result ← if ← canEndStatement then pure none else expression inner
  endStatement
  node (.exit .returns result) start

/-- A `throw` statement. -/
def throwStatement (inner : Grammar) : Parser Slot := do
  let start ← position
  advance
  if ← lineBreakBefore then report .lineBreakBeforeOperand
  let thrown ← expression inner
  endStatement
  node (.exit .throws thrown) start

/-- A `catch` clause. -/
def catchClause (inner : Grammar) : Parser Slot := do
  let start ← position
  advance
  discard (expect .openParen)
  let name ← bindingIdentifier
  discard (expect .closeParen)
  let body ← block inner
  node (.catchClause name body) start

/-- A `try` statement, with a handler or a final block or both. -/
def tryStatement (inner : Grammar) : Parser Slot := do
  let start ← position
  discard (expect .tryKeyword)
  let body ← block inner
  let handler ← if ← at? .catchKeyword then catchClause inner else pure none
  let finalizer ← if ← accept .finallyKeyword then block inner else pure none
  if handler.isNone && finalizer.isNone then report .handlerExpected
  node (.tryStatement body handler finalizer) start

/-- A statement. -/
def statement (inner : Grammar) : Parser Slot := do
  match ← token with
  | .openBrace => block inner
  | .semicolon =>
    let start ← position
    advance
    node .emptyStatement start
  | .varKeyword | .letKeyword | .constKeyword => variableStatement inner
  | .functionKeyword => functionDeclaration inner
  | .ifKeyword => conditionalStatement inner
  | .forKeyword => forStatement inner
  | .whileKeyword => whileStatement inner
  | .doKeyword => doStatement inner
  | .switchKeyword => switchStatement inner
  | .breakKeyword => jumpStatement .breaks
  | .continueKeyword => jumpStatement .continues
  | .returnKeyword => returnStatement inner
  | .throwKeyword => throwStatement inner
  | .tryKeyword => tryStatement inner
  | .debuggerKeyword =>
    let start ← position
    advance
    endStatement
    node .debuggerStatement start
  | .identifier =>
    if (← peek) == .colon then labeledStatement inner else expressionStatement inner
  | .closeBrace | .caseKeyword | .defaultKeyword | .elseKeyword | .catchKeyword
  | .finallyKeyword =>
    report .statementExpected
    return none
  | _ => expressionStatement inner

/-- The parser of statements, assignments and prefixed operands that may nest to a
depth. -/
def grammar : (depth : Nat) → Grammar
  | 0, _ => do
    report .nestingTooDeep
    return none
  | depth + 1, .statement => statement (grammar depth)
  | depth + 1, .assignment => assignment (grammar depth)
  | depth + 1, .prefixed => prefixedOperand (grammar depth)

/-- How deeply statements and expressions may nest. -/
def maxDepth : Nat := 256

end Parser

/-- A tree with the errors found on the way, in the order of their places. -/
structure Program where
  store : Store
  root : NodeId
  errors : List SyntaxError

/-- Reads a file.  A tree is made whatever errors there are. -/
def parse (text : List Char) : Program :=
  let parseStatements : Parser (List Slot) := do
    Parser.advance
    Parser.statementList (Parser.grammar Parser.maxDepth) (· == .endOfFile)
  let (statements, state) := parseStatements (Parser.initial text)
  let lexical := state.lexer.errors.toList.map fun error =>
    (⟨error.start, error.length, .lexical error.cause⟩ : SyntaxError)
  let errors := (state.errors.toList ++ lexical).mergeSort fun a b => a.start ≤ b.start
  let source : Source := ⟨text, state.lexer.comments⟩
  let (store, root) :=
    state.store.add (.file source statements) Flags.none 0 state.lexer.cursor.offset
  ⟨store, root, errors⟩

end Unflatten
