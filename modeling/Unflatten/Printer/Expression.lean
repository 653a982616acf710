import Unflatten.Number.Shortest
import Unflatten.Printer.Page
import Unflatten.Printer.Quoted
import Unflatten.Token.Precedence

/-! # Printing expressions

An expression is put in parentheses where it binds looser than its place demands.  The
functions here print one node and leave its children to a function they are given, an
`Emit`: it prints the node of a slot as a statement, or as an expression with a least
precedence. -/

set_option autoImplicit false

namespace Unflatten

/-- The place in which a node is printed. -/
inductive PrintMode where
  | statement
  | expression (least : Nat)

/-- Prints the node of a slot. -/
abbrev Emit := PrintMode → Slot → Page → Page

namespace Emit

/-- An expression in a place where any is allowed. -/
def anyExpression (emit : Emit) (slot : Slot) (page : Page) : Page :=
  emit (.expression Precedence.comma) slot page

/-- An expression in a place where a comma would end it. -/
def item (emit : Emit) (slot : Slot) (page : Page) : Page :=
  emit (.expression Precedence.assignment) slot page

/-- An expression in parentheses. -/
def parenthesized (emit : Emit) (slot : Slot) (page : Page) : Page :=
  (emit.anyExpression slot (page.write "(")).write ")"

/-- Items with a comma between neighbours. -/
def commaList (printItem : Slot → Page → Page) (items : List Slot) (page : Page) : Page :=
  match items with
  | [] => page
  | first :: rest =>
    rest.foldl (fun page slot => printItem slot (page.write ", ")) (printItem first page)

end Emit

namespace Page

/-- The text of an identifier; nothing for any other node. -/
def identifier (printing : Printing) (slot : Slot) (page : Page) : Page :=
  match printing.store.identifier? slot with
  | some text => page.write text
  | none => page

end Page

namespace Shape

/-- A number that is printed with a sign. -/
def isNegativeNumber : Shape → Bool
  | .literal .number _ (some value) => value < 0.0
  | _ => false

/-- How tightly an expression binds. -/
def precedence (shape : Shape) : Nat :=
  match shape with
  | .elements .sequence _ => Precedence.comma
  | .binary _ operator _ => operator.expressionPrecedence
  | .conditional _ _ _ => Precedence.conditional
  | .unary isUpdateAfter _ _ => if isUpdateAfter then Precedence.update else Precedence.unary
  | .call _ _ _ | .access _ _ _ => Precedence.member
  | _ => if shape.isNegativeNumber then Precedence.unary else Precedence.primary

/-- A number whose text holds digits only, so that a point would extend it. -/
def isDigitsOnly : Shape → Bool
  | .literal .number text _ => text.toList.all Char.isDigit
  | _ => false

end Shape

namespace Printing

/-- The least precedence of the operands of an operator. -/
def operandPrecedence (operator : TokenKind) : Nat × Nat :=
  let own := operator.expressionPrecedence
  if operator.isAssignment then (Precedence.member, Precedence.assignment)
  else if operator = .asteriskAsterisk then (Precedence.update, own)
  else if operator.isRightAssociative then (own + 1, own)
  else (own, own + 1)

/-- The least precedence of an operand: `??` takes no bare `&&` or `||`. -/
def leastFor (printing : Printing) (operator : TokenKind) (operand : Slot) (least : Nat) : Nat :=
  match operator, printing.store.shape? operand with
  | .questionQuestion, some (.binary _ .ampersandAmpersand _)
  | .questionQuestion, some (.binary _ .barBar _) => Precedence.primary
  | _, _ => least

/-- Whether a sign in front of an operand would join with the operand's own sign. -/
def signsJoin (printing : Printing) (operator : TokenKind) (operand : Slot) : Bool :=
  match operator, printing.store.shape? operand with
  | .minus, some (.unary false inner _) => inner == .minus || inner == .minusMinus
  | .plus, some (.unary false inner _) => inner == .plus || inner == .plusPlus
  | .minus, some shape => shape.isNegativeNumber
  | _, _ => false

/-- Whether a chain of member accesses starts with a call. -/
def startsWithCall (printing : Printing) : (depth : Nat) → Slot → Bool
  | 0, _ => false
  | depth + 1, slot =>
    match printing.store.shape? slot with
    | some (.call false _ _) => true
    | some (.access _ object _) => printing.startsWithCall depth object
    | _ => false

/-- The properties of an object, each on a line of its own. -/
def propertyLines (emit : Emit) : List Slot → Page → Page
  | [], page => page
  | [last], page => (emit.item last page).newLine
  | property :: rest, page => propertyLines emit rest ((emit.item property page).write ",").newLine

/-- Prints an expression without the parentheses around it.  What is no expression
prints nothing. -/
def expressionNode (printing : Printing) (emit : Emit) (shape : Shape) (flags : Flags)
    (page : Page) : Page :=
  match shape with
  | .identifier text => page.write text
  | .literal .number text value =>
    page.write (if text.isEmpty then Number.format (value.getD Number.nan) else text)
  | .literal .string text _ => page.write (quote text !printing.options.minimalEscape)
  | .literal .pattern text _ => page.write text
  | .token .thisKeyword => page.write "this"
  | .token .trueKeyword => page.write "true"
  | .token .falseKeyword => page.write "false"
  | .token .nullKeyword => page.write "null"
  | .elements .sequence items => Emit.commaList emit.item items page
  | .binary left operator right =>
    let (leastLeft, leastRight) := operandPrecedence operator
    let page := emit (.expression (printing.leastFor operator left leastLeft)) left page
    let page := ((page.space).write operator.text).space
    emit (.expression (printing.leastFor operator right leastRight)) right page
  | .conditional condition whenTrue whenFalse =>
    let page := emit (.expression Precedence.coalesce) condition page
    let page := emit.item whenTrue (page.write " ? ")
    emit.item whenFalse (page.write " : ")
  | .unary false operator operand =>
    let page := page.write operator.text
    let page := if operator.isKeyword || printing.signsJoin operator operand then page.space else page
    emit (.expression Precedence.unary) operand page
  | .unary true operator operand =>
    (emit (.expression Precedence.member) operand page).write operator.text
  | .call false callee arguments =>
    let page := (emit (.expression Precedence.member) callee page).write "("
    (Emit.commaList emit.item arguments page).write ")"
  | .call true callee arguments =>
    let page := page.write "new "
    let page :=
      if printing.startsWithCall printing.store.depthBound callee then emit.parenthesized callee page
      else emit (.expression Precedence.member) callee page
    (Emit.commaList emit.item arguments (page.write "(")).write ")"
  | .access false object property =>
    let page :=
      if printing.store.satisfies object Shape.isDigitsOnly then emit.parenthesized object page
      else emit (.expression Precedence.member) object page
    Page.identifier printing property (page.write ".")
  | .access true object property =>
    let page := (emit (.expression Precedence.member) object page).write "["
    (emit.anyExpression property page).write "]"
  | .elements .array items =>
    let page := Emit.commaList emit.item items (page.write "[")
    let hole := items.getLast?.any fun last => printing.store.kind? last == some .omittedExpression
    (if hole then page.write "," else page).write "]"
  | .elements .object items =>
    if items.isEmpty then page.write "\x7b\x7d"
    else if flags.multiLine then
      ((propertyLines emit items ((page.write "\x7b").newLine.indented)).dedented).write "\x7d"
    else (Emit.commaList emit.item items (page.write "\x7b ")).write " \x7d"
  | .propertyAssignment name initializer =>
    let page := (emit (.expression Precedence.primary) name page).write ": "
    emit.item initializer page
  | .function true name parameters body =>
    let page := (page.write "function").space
    let page := (Page.identifier printing name page).write "("
    let page := (Emit.commaList (Page.identifier printing) parameters page).write ") "
    emit .statement body page
  | _ => page

/-- Prints an expression, in parentheses if it binds looser than asked for. -/
def expression (printing : Printing) (emit : Emit) (least : Nat) (node : Node) (page : Page) : Page :=
  if node.shape.precedence < least then
    (printing.expressionNode emit node.shape node.flags (page.write "(")).write ")"
  else printing.expressionNode emit node.shape node.flags page

end Printing

end Unflatten
