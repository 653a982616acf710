import Unflatten.Number.Numeral
import Unflatten.Parser.State
import Unflatten.Token.Precedence

/-! # Parsing expressions

Statements, assignment expressions and prefixed operands may contain each other.  A
`Grammar` parses these three one level deeper; the functions here build on it, so that
the depth of nesting is the only recursion between them.  The two chains that nest
without bound, `new new ...` and `a ** b ** ...`, count their tokens instead.

An expression that is missing altogether is an empty slot. -/

set_option autoImplicit false

namespace Unflatten

/-- What may be nested. -/
inductive Goal where
  | statement
  | assignment
  | prefixed
  deriving DecidableEq, Repr

/-- The parser of what is nested one level deeper. -/
abbrev Grammar := Goal → Parser Slot

namespace Parser

/-- Repeats a step until it answers that nothing follows. -/
def repeatStep {σ : Type} (step : σ → Parser (σ × Bool)) : (fuel : Nat) → σ → Parser σ
  | 0, state => return state
  | fuel + 1, state => do
    let (state, more) ← step state
    if more then repeatStep step fuel state else return state

/-- Repeats a step that answers whether more follows. -/
def repeatWhile {σ : Type} (initial : σ) (step : σ → Parser (σ × Bool)) : Parser σ := do
  repeatStep step (← limit) initial

/-- Whether the token closes a list or ends the text. -/
def atClose (close : TokenKind) : Parser Bool := do
  let kind ← token
  return kind == close || kind == .endOfFile

/-- A single token as a literal. -/
def literal (kind : LiteralKind) (read : String → Option Float) : Parser Slot := do
  let start ← position
  let text ← value
  let stop ← tokenEnd
  advance
  nodeAt (.literal kind text (read text)) Flags.none start stop

/-- A number. -/
def numericLiteral : Parser Slot := literal .number Number.readLiteral

/-- A string. -/
def stringLiteral : Parser Slot := literal .string fun _ => none

/-- An expression, in which commas separate the items of a sequence. -/
def expression (inner : Grammar) : Parser Slot := do
  let start ← position
  let first ← inner .assignment
  if first.isNone || !(← at? .comma) then return first
  let items ← repeatWhile #[first] fun items => do
    if ← accept .comma then
      let item ← inner .assignment
      if item.isNone then
        report .expressionExpected
        return (items, false)
      else return (items.push item, true)
    else return (items, false)
  node (.elements .sequence items.toList) start

/-- An expression in parentheses. -/
def parenthesized (inner : Grammar) : Parser Slot := do
  discard (expect .openParen)
  let inside ← outsideHead (expression inner)
  discard (expect .closeParen)
  return inside

/-- The items of a list up to its end: none is missing, and commas separate them. -/
def items (close : TokenKind) (item : Parser Slot) : Parser (List Slot) := do
  let found ← repeatWhile (#[] : Array Slot) fun found => do
    if ← atClose close then return (found, false)
    let next ← item
    if next.isNone then return (found, false)
    return (found.push next, ← accept .comma)
  return found.toList

/-- Arguments in parentheses. -/
def arguments (inner : Grammar) : Parser (List Slot) := do
  discard (expect .openParen)
  let found ← outsideHead (items .closeParen (inner .assignment))
  discard (expect .closeParen)
  return found

/-- An array.  A comma where an item could stand makes a hole. -/
def arrayLiteral (inner : Grammar) : Parser Slot := do
  let start ← position
  discard (expect .openBracket)
  let (found, multiLine) ← outsideHead <|
    repeatWhile ((#[] : Array Slot), false) fun (found, multiLine) => do
      if ← atClose .closeBracket then return ((found, multiLine), false)
      let multiLine := multiLine || (← lineBreakBefore)
      if ← at? .comma then
        let place ← position
        let hole ← nodeAt .omitted Flags.none place place
        advance
        return ((found.push hole, multiLine), true)
      let item ← inner .assignment
      if item.isNone then return ((found, multiLine), false)
      return ((found.push item, multiLine), ← accept .comma)
  discard (expect .closeBracket)
  flagged (.elements .array found.toList) { Flags.none with multiLine := multiLine } start

/-- The name of a property. -/
def propertyName : Parser (Option Slot) := do
  let kind ← token
  if kind = .stringLiteral then return some (← stringLiteral)
  else if kind = .numericLiteral then return some (← numericLiteral)
  else if kind.isIdentifierOrKeyword then return some (← identifier)
  else
    report .propertyExpected
    return none

/-- An object. -/
def objectLiteral (inner : Grammar) : Parser Slot := do
  let start ← position
  discard (expect .openBrace)
  let (found, multiLine) ←
    repeatWhile ((#[] : Array Slot), false) fun (found, multiLine) => do
      if ← atClose .closeBrace then return ((found, multiLine), false)
      let multiLine := multiLine || (← lineBreakBefore)
      let propertyStart ← position
      match ← propertyName with
      | none => return ((found, multiLine), false)
      | some name =>
        if ← expect .colon then
          let initializer ← outsideHead (inner .assignment)
          let entry ← node (.propertyAssignment name initializer) propertyStart
          return ((found.push entry, multiLine), ← accept .comma)
        else return ((found, multiLine), false)
  let multiLine := multiLine || (← lineBreakBefore)
  discard (expect .closeBrace)
  flagged (.elements .object found.toList) { Flags.none with multiLine := multiLine } start

/-! ## Blocks and functions -/

/-- Statements up to a token that ends the list.  A token no statement can take is
skipped. -/
def statementList (inner : Grammar) (isEnd : TokenKind → Bool) : Parser (List Slot) := do
  let found ← repeatWhile (#[] : Array Slot) fun found => do
    let kind ← token
    if isEnd kind || kind == .endOfFile then return (found, false)
    let start ← position
    let next ← inner .statement
    let found := if next.isSome then found.push next else found
    if (← position) == start && (← token) == kind then advance
    return (found, true)
  return found.toList

/-- A block. -/
def block (inner : Grammar) : Parser Slot := do
  let start ← position
  discard (expect .openBrace)
  let statements ← statementList inner (· == .closeBrace)
  discard (expect .closeBrace)
  node (.block statements) start

/-- The parameters and the body of a function. -/
def signatureAndBody (inner : Grammar) : Parser (List Slot × Slot) := do
  discard (expect .openParen)
  let parameters ← items .closeParen bindingIdentifier
  discard (expect .closeParen)
  let body ← insideFunction (block inner)
  return (parameters, body)

/-- A function expression, whose name may be missing. -/
def functionExpression (inner : Grammar) : Parser Slot := do
  let start ← position
  discard (expect .functionKeyword)
  let name ← if ← at? .identifier then identifier else pure none
  let (parameters, body) ← signatureAndBody inner
  node (.function true name parameters body) start

/-! ## Operands -/

/-- An expression without operators. -/
def primary (inner : Grammar) : Parser Slot := do
  match ← token with
  | .identifier => identifier
  | .numericLiteral => numericLiteral
  | .stringLiteral => stringLiteral
  | .slash | .slashEquals =>
    rescanSlash
    let start ← position
    let text ← value
    let stop ← tokenEnd
    advance
    nodeAt (.literal .pattern text none) Flags.none start stop
  | .thisKeyword | .trueKeyword | .falseKeyword | .nullKeyword =>
    let start ← position
    let kind ← token
    let stop ← tokenEnd
    advance
    nodeAt (.token kind) Flags.none start stop
  | .openParen => parenthesized inner
  | .openBracket => arrayLiteral inner
  | .openBrace => objectLiteral inner
  | .functionKeyword => functionExpression inner
  | _ =>
    report .expressionExpected
    return none

/-- Member accesses behind an expression, and calls if they are allowed. -/
def memberChain (inner : Grammar) (start : Nat) (allowCall : Bool) (first : Slot) : Parser Slot :=
  repeatWhile first fun object => do
    match ← token with
    | .dot =>
      advance
      if (← token).isIdentifierOrKeyword then
        let name ← identifier
        return (← node (.access false object name) start, true)
      else
        report .identifierExpected
        return (object, false)
    | .openBracket =>
      advance
      let argument ← outsideHead (expression inner)
      discard (expect .closeBracket)
      return (← node (.access true object argument) start, true)
    | .openParen =>
      if allowCall then
        let passed ← arguments inner
        return (← node (.call false object passed) start, true)
      else return (object, false)
    | _ => return (object, false)

/-- A `new` expression: member accesses belong to the callee, and the first list of
arguments to `new`. -/
def construction (inner : Grammar) : (fuel : Nat) → Parser Slot
  | 0 => return none
  | fuel + 1 => do
    let start ← position
    discard (expect .newKeyword)
    let calleeStart ← position
    let callee ← if ← at? .newKeyword then construction inner fuel else primary inner
    let callee ← if callee.isSome then memberChain inner calleeStart false callee else pure callee
    let passed ← if ← at? .openParen then arguments inner else pure []
    node (.call true callee passed) start

/-- An expression with its member accesses and calls. -/
def leftHandSide (inner : Grammar) : Parser Slot := do
  let start ← position
  let first ← if ← at? .newKeyword then construction inner (← limit) else primary inner
  if first.isNone then return first
  memberChain inner start true first

/-- An operand with an update operator behind it, which stands on the same line. -/
def updated (inner : Grammar) : Parser Slot := do
  let start ← position
  let operand ← leftHandSide inner
  let operator ← token
  if operand.isSome && (operator == .plusPlus || operator == .minusMinus)
      && !(← lineBreakBefore) then
    advance
    node (.unary true operator operand) start
  else return operand

/-- The operators that stand before their operand. -/
def isPrefixOperator : TokenKind → Bool
  | .exclamation | .tilde | .minus | .plus | .typeOfKeyword | .voidKeyword | .deleteKeyword
  | .plusPlus | .minusMinus => true
  | _ => false

/-- An operand with the operators before and behind it. -/
def operand (inner : Grammar) : Parser Slot := do
  if isPrefixOperator (← token) then inner .prefixed else updated inner

/-- An operator with the operand it stands before. -/
def prefixedOperand (inner : Grammar) : Parser Slot := do
  let start ← position
  let operator ← token
  advance
  let inside ← operand inner
  if inside.isNone then report .expressionExpected
  node (.unary false operator inside) start

/-! ## Operators -/

/-- Binary operators that bind at least as tightly as `least`.  An operator takes a
right operand that binds tighter, except that powers group from the right. -/
def binary (inner : Grammar) : (fuel : Nat) → (least : Nat) → Parser Slot
  | 0, _ => operand inner
  | fuel + 1, least => do
    let start ← position
    let first ← operand inner
    let inHead ← inHead
    repeatStep (fun left => do
      let operator ← token
      match operator.binaryPrecedence? with
      | none => return (left, false)
      | some own =>
        if own < least || (operator == .inKeyword && inHead) then return (left, false)
        advance
        let right ← binary inner fuel (if operator = .asteriskAsterisk then own else own + 1)
        if right.isNone then report .expressionExpected
        return (← node (.binary left operator right) start, true)) (← limit) first

/-- A conditional expression. -/
def conditional (inner : Grammar) : Parser Slot := do
  let start ← position
  let condition ← binary inner (← limit) Precedence.coalesce
  if condition.isNone || !(← at? .question) then return condition
  advance
  let whenTrue ← outsideHead (inner .assignment)
  discard (expect .colon)
  let whenFalse ← inner .assignment
  node (.conditional condition whenTrue whenFalse) start

/-- What can be assigned to: a variable or a member. -/
def isAssignable : Shape → Bool
  | .identifier _ | .access _ _ _ => true
  | _ => false

/-- An assignment, or an expression that is none. -/
def assignment (inner : Grammar) : Parser Slot := do
  let start ← position
  let left ← conditional inner
  let operator ← token
  if operator.isAssignment && left.isSome then
    unless ← satisfies left isAssignable do report .assignmentTarget
    advance
    let right ← inner .assignment
    node (.binary left operator right) start
  else return left

end Parser

end Unflatten
