import Unflatten.Canonical.Rule
import Unflatten.Token.Precedence

/-! # Rules for expressions

`void` before a number is `undefined`, and `void` whose value nobody uses is dropped
(`Canonical.removeVoid`).  An assignment of a conditional becomes a conditional of
assignments (`Canonical.conditionalAssign`).  A comparison in an `if` test has its number
on the right (`Canonical.ifTestBinary`). -/

set_option autoImplicit false

namespace Unflatten.Canonical

/-- The two sides and the operator of a binary expression. -/
def binary? (store : Store) (slot : Slot) : Option (Slot × TokenKind × Slot) :=
  match store.shape? slot with
  | some (.binary left operator right) => some (left, operator, right)
  | _ => none

/-- The test of an `if` statement. -/
def test? (store : Store) (slot : Slot) : Option Slot :=
  match store.shape? slot with
  | some (.conditionalStatement test _ _) => some test
  | _ => none

/-- The items of a sequence. -/
def sequenceItems? (store : Store) (slot : Slot) : Option (List Slot) :=
  match store.shape? slot with
  | some (.elements .sequence items) => some items
  | _ => none

/-- Whether a slot holds an expression statement. -/
def isExpressionStatement (store : Store) (slot : Slot) : Bool :=
  (store.expression? slot).isSome

/-! ## `void` -/

/-- A literal of a primitive value. -/
def isPrimitiveLiteral : Shape → Bool
  | .literal .number _ _ | .literal .string _ _ => true
  | .token .trueKeyword | .token .falseKeyword | .token .nullKeyword => true
  | _ => false

/-- Whether the value of an expression is used where it stands. -/
def isValueUsed (store : Store) (id : NodeId) : Bool :=
  match store.shape? (store.parent (some id)) with
  | some (.expressionStatement _) => false
  | some (.elements .sequence items) => items.getLast? == some (some id)
  | some (.loop .forLoop initializer _ incrementor _) =>
    incrementor != some id && initializer != some id
  | _ => true

/-- `void` before a number is `undefined`, and so is a used `void` before any literal.
A `void` whose value is not used gives way to its operand. -/
def removeVoid (store : Store) (id : NodeId) : Store × Outcome :=
  match store.shape? (some id) with
  | some (.unary false .voidKeyword operand) =>
    let isUsed := isValueUsed store id
    if (store.number? operand).isSome || (store.satisfies operand isPrimitiveLiteral && isUsed) then
      let (store, undefined) := store.makeIdentifier "undefined"
      Outcome.ofEdit (store.replaceNode (some id) (some undefined))
    else if isUsed then (store, .unchanged)
    else Outcome.ofEdit (store.replaceNode (some id) operand)
  | _ => (store, .unchanged)

/-! ## Assignments of conditionals -/

/-- Whether an expression is a name or `this`, or a member by name of such. -/
def isSimpleTarget (store : Store) : (depth : Nat) → Slot → Bool
  | 0, _ => false
  | depth + 1, slot =>
    match store.shape? slot with
    | some (.identifier _) | some (.token .thisKeyword) => true
    | some (.access false object _) => isSimpleTarget store depth object
    | _ => false

/-- `l = t ? a : b` becomes `t ? (l = a) : (l = b)`, with any assignment operator.  The
target is evaluated after the test then, so it has to be a simple one. -/
def conditionalAssign (store : Store) (id : NodeId) : Store × Outcome :=
  match store.shape? (some id) with
  | some (.conditional condition whenTrue whenFalse) =>
    let assignment := store.parent (some id)
    match binary? store assignment with
    | some (target, operator, value) =>
      if operator.isAssignment && value == some id
          && isSimpleTarget store store.depthBound target then
        let (store, targetCopy) := store.copy target
        let (store, first) := store.make (.binary target operator whenTrue)
        let (store, second) := store.make (.binary targetCopy operator whenFalse)
        let (store, replacement) := store.make (.conditional condition (some first) (some second))
        Outcome.ofEdit (store.replaceNode assignment (some replacement))
      else (store, .unchanged)
    | none => (store, .unchanged)
  | _ => (store, .unchanged)

/-! ## Comparisons in tests -/

/-- `if (3 == x)` becomes `if (x == 3)`; an order is turned around with its sides. -/
def ifTestBinary (store : Store) (id : NodeId) : Store × Outcome :=
  match test? store (some id) with
  | none => (store, .unchanged)
  | some test =>
    match binary? store test with
    | none => (store, .unchanged)
    | some (left, operator, right) =>
      match operator.mirrored? with
      | none => (store, .unchanged)
      | some mirrored =>
        if (store.number? left).isSome && (store.identifier? right).isSome then
          let (store, _) := store.swapOperands test
          let (store, _) := store.setOperator test mirrored
          (store, .changed)
        else (store, .unchanged)

end Unflatten.Canonical
