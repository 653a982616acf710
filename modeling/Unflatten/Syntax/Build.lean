import Unflatten.Number.Shortest
import Unflatten.Syntax.Edit

/-! # Nodes made by passes

A node that a pass makes has no place in the source and is marked as synthesized.  The
functions are named for what they make; each answers the store and the new node. -/

set_option autoImplicit false

namespace Unflatten

/-- The marks of a node without a place in the source. -/
def Flags.made : Flags := { Flags.none with synthesized := true }

namespace Store

/-- A synthesized node of some shape. -/
def make (store : Store) (shape : Shape) : Store × NodeId := store.add shape Flags.made 0 0

/-- An identifier. -/
def makeIdentifier (store : Store) (text : String) : Store × NodeId :=
  store.make (.identifier text)

/-- A number, written in its usual form. -/
def makeNumber (store : Store) (value : Float) : Store × NodeId :=
  store.make (.literal .number (Number.format value) (some value))

/-- A clause of a `switch`: a default clause if there is no label. -/
def makeClause (store : Store) (label : Slot) (statements : List Slot) : Store × NodeId :=
  store.make (.clause label.isNone label statements)

/-- A declaration of a name. -/
def makeDeclaration (store : Store) (name : String) (initializer : Slot) : Store × NodeId :=
  let (store, name) := store.makeIdentifier name
  store.make (.declaration (some name) initializer)

/-- A variable statement.  Of the marks only those for `let` and `const` are taken. -/
def makeVariables (store : Store) (declarations : List Slot) (flags : Flags) : Store × NodeId :=
  store.add (.declarationList true declarations)
    { Flags.made with isLet := flags.isLet, isConst := flags.isConst } 0 0

/-- A block. -/
def makeBlock (store : Store) (statements : List Slot) : Store × NodeId :=
  store.make (.block statements)

/-- An expression as a statement. -/
def makeExpressionStatement (store : Store) (expression : Slot) : Store × NodeId :=
  store.make (.expressionStatement expression)

/-- An `if` statement. -/
def makeConditionalStatement (store : Store) (test thenBody elseBody : Slot) : Store × NodeId :=
  store.make (.conditionalStatement test thenBody elseBody)

/-- A `while` loop. -/
def makeWhile (store : Store) (condition body : Slot) : Store × NodeId :=
  store.make (.loop .whileLoop none condition none body)

/-- A `break` without a label. -/
def makeBreak (store : Store) : Store × NodeId := store.make (.jump .breaks none)

/-- A `return`. -/
def makeReturn (store : Store) (expression : Slot) : Store × NodeId :=
  store.make (.exit .returns expression)

end Store

end Unflatten
