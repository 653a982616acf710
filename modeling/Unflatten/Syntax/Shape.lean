import Unflatten.Token.Kind
import Unflatten.Token.Comment

/-! # The shapes of nodes

A program is a tree of nodes, and a node refers to its children by name.  A `Slot` is
a place for a child, which may be empty.  The `Shape` of a node says what it is and
which slots it has; `Shape.slots` lists them and `Shape.withSlots` fills them anew, so
that every operation on children is an operation on a list.

Two lists of slots differ only for loops: a `while` loop and a `do` loop have an
initializer and an incrementor too, but those are no children (`Shape.visible`), and the
body of a `do` loop comes before its condition. -/

set_option autoImplicit false

namespace Unflatten

/-- The name of a node: its place in the store. -/
abbrev NodeId := Nat

/-- A place for a child. -/
abbrev Slot := Option NodeId

/-- The text of a file with the comments found in it. -/
structure Source where
  text : List Char
  comments : Array CommentRange
  deriving Repr, Inhabited

/-- The kinds of literal that are one token. -/
inductive LiteralKind where
  | number
  | string
  | pattern
  deriving DecidableEq, Repr, Inhabited

/-- The expressions that are lists. -/
inductive ListKind where
  | sequence
  | array
  | object
  deriving DecidableEq, Repr, Inhabited

/-- The loops with a condition. -/
inductive LoopKind where
  | forLoop
  | whileLoop
  | doLoop
  deriving DecidableEq, Repr, Inhabited

/-- The statements that leave a function. -/
inductive ExitKind where
  | returns
  | throws
  deriving DecidableEq, Repr, Inhabited

/-- The statements that jump within a function. -/
inductive JumpKind where
  | breaks
  | continues
  deriving DecidableEq, Repr, Inhabited

/-- What a node is, with its slots. -/
inductive Shape where
  | file (source : Source) (statements : List Slot)
  | block (statements : List Slot)
  | clause (isDefault : Bool) (label : Slot) (statements : List Slot)
  /-- A variable statement, or a list of declarations in the head of a loop. -/
  | declarationList (isStatement : Bool) (declarations : List Slot)
  | declaration (name initializer : Slot)
  | function (isExpression : Bool) (name : Slot) (parameters : List Slot) (body : Slot)
  | expressionStatement (expression : Slot)
  | conditionalStatement (test thenBody elseBody : Slot)
  | loop (kind : LoopKind) (initializer condition incrementor body : Slot)
  | forIn (initializer expression body : Slot)
  | switch (discriminant : Slot) (clauses : List Slot)
  | exit (kind : ExitKind) (expression : Slot)
  | jump (kind : JumpKind) (label : Slot)
  | labeled (label statement : Slot)
  | tryStatement (body handler finalizer : Slot)
  | catchClause (name body : Slot)
  | emptyStatement
  | debuggerStatement
  | omitted
  | identifier (text : String)
  /-- The text is the decoded value of a string and the source text otherwise. -/
  | literal (kind : LiteralKind) (text : String) (value : Option Float)
  | token (kind : TokenKind)
  | unary (isUpdateAfter : Bool) (operator : TokenKind) (operand : Slot)
  | binary (left : Slot) (operator : TokenKind) (right : Slot)
  | conditional (condition whenTrue whenFalse : Slot)
  | elements (kind : ListKind) (items : List Slot)
  | call (isNew : Bool) (callee : Slot) (arguments : List Slot)
  /-- A member by name or by an expression in brackets. -/
  | access (isElement : Bool) (object property : Slot)
  | propertyAssignment (name initializer : Slot)
  deriving Repr, Inhabited

namespace Shape

/-- All slots of a shape, in the order in which they are kept. -/
def slots : Shape → List Slot
  | .file _ statements => statements
  | .block statements => statements
  | .clause _ label statements => label :: statements
  | .declarationList _ declarations => declarations
  | .declaration name initializer => [name, initializer]
  | .function _ name parameters body => name :: (parameters ++ [body])
  | .expressionStatement expression => [expression]
  | .conditionalStatement test thenBody elseBody => [test, thenBody, elseBody]
  | .loop _ initializer condition incrementor body => [initializer, condition, incrementor, body]
  | .forIn initializer expression body => [initializer, expression, body]
  | .switch discriminant clauses => discriminant :: clauses
  | .exit _ expression => [expression]
  | .jump _ label => [label]
  | .labeled label statement => [label, statement]
  | .tryStatement body handler finalizer => [body, handler, finalizer]
  | .catchClause name body => [name, body]
  | .emptyStatement | .debuggerStatement | .omitted => []
  | .identifier _ | .literal _ _ _ | .token _ => []
  | .unary _ _ operand => [operand]
  | .binary left _ right => [left, right]
  | .conditional condition whenTrue whenFalse => [condition, whenTrue, whenFalse]
  | .elements _ items => items
  | .call _ callee arguments => callee :: arguments
  | .access _ object property => [object, property]
  | .propertyAssignment name initializer => [name, initializer]

/-- The shape with other slots.  A list of another length than `slots` is cut or filled
up with empty slots where the shape has a fixed number of them. -/
def withSlots (shape : Shape) (slots : List Slot) : Shape :=
  let slot (place : Nat) : Slot := slots[place]?.join
  match shape with
  | .file source _ => .file source slots
  | .block _ => .block slots
  | .clause isDefault _ _ => .clause isDefault (slot 0) (slots.drop 1)
  | .declarationList isStatement _ => .declarationList isStatement slots
  | .declaration _ _ => .declaration (slot 0) (slot 1)
  | .function isExpression _ _ _ =>
    .function isExpression (slot 0) (slots.drop 1).dropLast ((slots.drop 1).getLast?.join)
  | .expressionStatement _ => .expressionStatement (slot 0)
  | .conditionalStatement _ _ _ => .conditionalStatement (slot 0) (slot 1) (slot 2)
  | .loop kind _ _ _ _ => .loop kind (slot 0) (slot 1) (slot 2) (slot 3)
  | .forIn _ _ _ => .forIn (slot 0) (slot 1) (slot 2)
  | .switch _ _ => .switch (slot 0) (slots.drop 1)
  | .exit kind _ => .exit kind (slot 0)
  | .jump kind _ => .jump kind (slot 0)
  | .labeled _ _ => .labeled (slot 0) (slot 1)
  | .tryStatement _ _ _ => .tryStatement (slot 0) (slot 1) (slot 2)
  | .catchClause _ _ => .catchClause (slot 0) (slot 1)
  | .emptyStatement => .emptyStatement
  | .debuggerStatement => .debuggerStatement
  | .omitted => .omitted
  | .identifier text => .identifier text
  | .literal kind text value => .literal kind text value
  | .token kind => .token kind
  | .unary isUpdateAfter operator _ => .unary isUpdateAfter operator (slot 0)
  | .binary _ operator _ => .binary (slot 0) operator (slot 1)
  | .conditional _ _ _ => .conditional (slot 0) (slot 1) (slot 2)
  | .elements kind _ => .elements kind slots
  | .call isNew _ _ => .call isNew (slot 0) (slots.drop 1)
  | .access isElement _ _ => .access isElement (slot 0) (slot 1)
  | .propertyAssignment _ _ => .propertyAssignment (slot 0) (slot 1)

theorem withSlots_slots (shape : Shape) : shape.withSlots shape.slots = shape := by
  cases shape <;> simp [slots, withSlots]

/-- Slots of the same number are the slots of the shape that is filled with them. -/
theorem slots_withSlots (shape : Shape) (slots : List Slot)
    (same : slots.length = shape.slots.length) : (shape.withSlots slots).slots = slots := by
  cases shape
  case function isExpression name parameters body =>
    cases slots with
    | nil => simp [Shape.slots] at same
    | cons first rest =>
      have filled : rest ≠ [] := by
        rintro rfl
        simp [Shape.slots] at same
      simp [Shape.slots, withSlots, List.getLast?_eq_some_getLast filled,
        List.dropLast_concat_getLast filled]
  case file | block | declarationList | elements => rfl
  case emptyStatement | debuggerStatement | omitted | identifier | literal | token =>
    match slots, same with
    | [], _ => rfl
  case expressionStatement | exit | jump | unary =>
    match slots, same with
    | [_], _ => rfl
  case declaration | labeled | catchClause | binary | access | propertyAssignment =>
    match slots, same with
    | [_, _], _ => rfl
  case conditionalStatement | forIn | tryStatement | conditional =>
    match slots, same with
    | [_, _, _], _ => rfl
  case loop =>
    match slots, same with
    | [_, _, _, _], _ => rfl
  case clause | switch | call =>
    match slots, same with
    | _ :: _, _ => rfl

/-- The slots that count as children, in the order of the source. -/
def visible : Shape → List Slot
  | .loop .whileLoop _ condition _ body => [condition, body]
  | .loop .doLoop _ condition _ body => [body, condition]
  | shape => shape.slots

/-- The children, in the order of the source. -/
def children (shape : Shape) : List NodeId := shape.visible.filterMap id

/-- The statements of a file, a block or a clause. -/
def statements? : Shape → Option (List Slot)
  | .file _ statements => some statements
  | .block statements => some statements
  | .clause _ _ statements => some statements
  | _ => none

/-- The shape with other statements, if it has any. -/
def withStatements? (shape : Shape) (statements : List Slot) : Option Shape :=
  match shape with
  | .file source _ => some (.file source statements)
  | .block _ => some (.block statements)
  | .clause isDefault label _ => some (.clause isDefault label statements)
  | _ => none

/-- Whether the shape holds a list of statements. -/
def isContainer (shape : Shape) : Bool := shape.statements?.isSome

/-- A function, whether declared or an expression. -/
def isFunction : Shape → Bool
  | .function _ _ _ _ => true
  | _ => false

/-- A loop of any kind. -/
def isLoop : Shape → Bool
  | .loop _ _ _ _ _ | .forIn _ _ _ => true
  | _ => false

/-- A block. -/
def isBlock : Shape → Bool
  | .block _ => true
  | _ => false

end Shape

end Unflatten
