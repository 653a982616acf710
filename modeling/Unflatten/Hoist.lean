import Unflatten.Syntax.Build
import Unflatten.Syntax.Facts
import Unflatten.Token.Precedence

/-! # Assignments in brackets

`obj[x += 2] = v;` becomes `x += 2; obj[x] = v;`.  That is right only if the assignment
runs in any case and before everything else: it must not stand in a function, below a
conditional or behind a short circuit, and nothing evaluated before it may have an
effect or read the variable (`Hoist.runsFirst`). -/

set_option autoImplicit false

namespace Unflatten

namespace Hoist

/-- Assignments that may leave their right side unevaluated. -/
def isLogicalAssignment (operator : TokenKind) : Bool :=
  operator == .ampersandAmpersandEquals || operator == .barBarEquals
    || operator == .questionQuestionEquals

/-- The statement that evaluates a node in any case, searched from a node upwards. -/
def statementAbove? (store : Store) : (steps : Nat) → Slot → Slot
  | 0, _ => none
  | steps + 1, current =>
    match store.shape? current with
    | none => none
    | some (.expressionStatement _) => current
    | some (.conditional _ _ _) | some (.function _ _ _ _) => none
    | some (.binary _ operator _) =>
      if operator.isLogical || isLogicalAssignment operator then none
      else statementAbove? store steps (store.parent current)
    | some shape =>
      if shape.isContainer then none else statementAbove? store steps (store.parent current)

/-- Whether a node has an effect of its own or is the name itself. -/
def observes (store : Store) (name : String) (id : NodeId) : Bool :=
  match store.shape? (some id) with
  | some (.identifier text) => text == name
  | some (.call _ _ _) => true
  | some (.binary _ operator _) => operator.isAssignment
  | some (.unary _ operator _) =>
    operator == .plusPlus || operator == .minusMinus || operator == .deleteKeyword
  | _ => false

/-- Whether nothing that is evaluated before the index of a member has an effect or reads
a name.  The object of the member belongs to that. -/
def runsFirst (store : Store) (statement : Slot) (access : NodeId) (object : Slot)
    (name : String) : Bool :=
  let nodes := store.descendants statement
  let before := nodes.takeWhile (· != access)
  nodes.contains access
    && before.all (fun id =>
      store.isAncestorOrSelf (some id) (some access) || !observes store name id)
    && (store.descendants object).all fun id => !observes store name id

/-- The name assigned to in the brackets of a member, with the assignment and the
statement around, if the assignment may be moved before that statement. -/
def candidate? (store : Store) (access : NodeId) : Option (String × Slot × Slot) :=
  match store.shape? (some access) with
  | some (.access true object index) =>
    match store.shape? index with
    | some (.binary target operator _) =>
      if operator.compound?.isSome && !isLogicalAssignment operator then do
        let name ← store.identifier? target
        let statement := statementAbove? store store.depthBound (store.parent (some access))
        if (store.position? statement).isSome && runsFirst store statement access object name then
          some (name, index, statement)
        else none
      else none
    | _ => none
  | _ => none

/-- Moves the assignment in the brackets of a member before its statement, if it may be
moved. -/
def hoist (store : Store) (access : NodeId) : Store × Bool :=
  match candidate? store access with
  | none => (store, false)
  | some (name, assignment, statement) =>
    let (store, replacement) := store.makeIdentifier name
    match store.replaceChild (some access) assignment (some replacement) with
    | (store, false) => (store, false)
    | (store, true) =>
      let (store, before) := store.makeExpressionStatement assignment
      ((store.insertBefore statement [some before]).1, true)

end Hoist

/-- Moves assignments out of the brackets of members and answers their number. -/
def Store.hoistAssignments (store : Store) (root : NodeId) : Store × Nat :=
  let accesses := (store.descendants (some root)).filter fun id =>
    store.satisfies (some id) fun shape => shape.kind == .elementAccessExpression
  accesses.foldl (fun (state : Store × Nat) access =>
    let (store, moved) := Hoist.hoist state.1 access
    (store, if moved then state.2 + 1 else state.2)) (store, 0)

end Unflatten
