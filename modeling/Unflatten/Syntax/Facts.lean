import Unflatten.Number.Double
import Unflatten.Syntax.Store

/-! # Facts about statements

Short questions that the passes ask about statements: whether a statement ends its
list, which jumps leave a loop or a `switch` (`Store.escapingJumps`), and what a
statement assigns to a dispatch key. -/

set_option autoImplicit false

namespace Unflatten

namespace Shape

/-- A statement behind which the list does not go on. -/
def isTerminator : Shape → Bool
  | .jump _ _ | .exit _ _ => true
  | _ => false

/-- A `return` or a `throw`. -/
def isExit : Shape → Bool
  | .exit _ _ => true
  | _ => false

/-- A `break` without a label. -/
def isPlainBreak : Shape → Bool
  | .jump .breaks none => true
  | _ => false

/-- A `continue` without a label. -/
def isPlainContinue : Shape → Bool
  | .jump .continues none => true
  | _ => false

end Shape

namespace Store

/-- Whether a slot holds a statement behind which the list does not go on. -/
def isTerminator (store : Store) (slot : Slot) : Bool := store.satisfies slot Shape.isTerminator

/-- Whether a slot holds a `return` or a `throw`. -/
def isExit (store : Store) (slot : Slot) : Bool := store.satisfies slot Shape.isExit

/-- Whether a slot holds a `break` without a label. -/
def isPlainBreak (store : Store) (slot : Slot) : Bool := store.satisfies slot Shape.isPlainBreak

/-- Whether a slot holds a `continue` without a label. -/
def isPlainContinue (store : Store) (slot : Slot) : Bool :=
  store.satisfies slot Shape.isPlainContinue

/-- The jumps below a node that leave the loop or `switch` around it, last ones first:
a `break` outside inner loops and switches, a `continue` outside inner loops if those
are asked for, and every jump with a label, a `continue` again only if asked for.
Functions are not searched. -/
def jumpsBelow (store : Store) (withContinue : Bool) :
    (depth : Nat) → (inLoop inSwitch : Bool) → NodeId → List NodeId
  | 0, _, _, _ => []
  | depth + 1, inLoop, inSwitch, id =>
    match store.shape? (some id) with
    | none => []
    | some (.function _ _ _ _) => []
    | some (.jump .breaks label) => if label.isSome || !(inLoop || inSwitch) then [id] else []
    | some (.jump .continues label) =>
      if withContinue && (label.isSome || !inLoop) then [id] else []
    | some shape =>
      let inLoop := inLoop || shape.isLoop
      let inSwitch := inSwitch || match shape with
        | .switch _ _ => true
        | _ => false
      shape.children.reverse.flatMap (store.jumpsBelow withContinue depth inLoop inSwitch)

/-- The jumps below some statements that leave the loop or `switch` around them, last
ones first. -/
def escapingJumps (store : Store) (roots : List Slot) (withContinue : Bool) : List NodeId :=
  (roots.reverse.filterMap id).flatMap
    (store.jumpsBelow withContinue store.depthBound false false)

/-- The two sides of a statement that is a plain assignment. -/
def assignment? (store : Store) (statement : Slot) : Option (Slot × Slot) :=
  match (store.expression? statement).bind store.shape? with
  | some (.binary left .equals right) => some (left, right)
  | _ => none

/-- The whole number that a statement assigns to a name. -/
def keyValue? (store : Store) (statement : Slot) (key : String) : Option Int :=
  (store.assignment? statement).bind fun (left, right) =>
    if store.isIdentifier left key then (store.number? right).bind Number.safeInteger? else none

/-- Whether an expression is `undefined` or `void` before a number. -/
def isUndefined (store : Store) (slot : Slot) : Bool :=
  match store.shape? slot with
  | some (.identifier text) => text == "undefined"
  | some (.unary false .voidKeyword operand) => (store.number? operand).isSome
  | _ => false

/-- Whether a statement assigns `undefined` to a name. -/
def isKeyExit (store : Store) (statement : Slot) (key : String) : Bool :=
  (store.assignment? statement).any fun (left, right) =>
    store.isIdentifier left key && store.isUndefined right

/-- The statements of a block, or the statement itself. -/
def blockStatements (store : Store) (statement : Slot) : List Slot :=
  match store.shape? statement with
  | some (.block statements) => statements
  | _ => if statement.isSome then [statement] else []

end Store

end Unflatten
