import Unflatten.Binding.Position
import Unflatten.Dispatch.CaseTable
import Unflatten.Dispatch.Tracking
import Unflatten.Evaluation.Evaluator

/-! # Collapsing a loop

When the case of the start value is all that is left of a dispatcher, and each path
through it leaves the loop, the loop runs exactly once.  Then it gives way to the
statements of the case, without the assignments and breaks that leave the loop
(`Store.collapse`).  Declarations of the prelude that nothing reads are dropped, and so
are the key and its last assignments. -/

set_option autoImplicit false

namespace Unflatten

namespace Collapse

/-- The block of the only clause of a dispatcher, if the clause is that of the start
value. -/
def startBlock? (store : Store) (key : DispatchKey) : Slot :=
  match store.shape? (key.dispatcher? store) with
  | some (.switch _ [clause]) =>
    match store.shape? clause with
    | some (.clause _ label (block :: _)) =>
      let isStart := (store.number? label).any fun value => value == Float.ofInt key.start
      if isStart && store.satisfies block Shape.isBlock then block else none
    | _ => none
  | _ => none

/-- Whether a statement gives the key a value that leaves the loop. -/
def isExitAssignment (store : Store) (key : DispatchKey) (statement : Slot) : Bool :=
  store.isKeyExit statement key.name
    || (store.keyValue? statement key.name).any key.exits.contains

/-- If every path through some statements ends in `return` or `throw`, or in `break` with
an assignment before it that leaves the loop: those breaks. -/
def exitBreaks? (store : Store) (key : DispatchKey) : (depth : Nat) → List Slot → Option (List Slot)
  | 0, _ => none
  | depth + 1, statements =>
    match statements.reverse with
    | [] => none
    | last :: before =>
      if store.isExit last then some []
      else if store.isPlainBreak last then
        if before.head?.any (isExitAssignment store key) then some [last] else none
      else
        match store.shape? last with
        | some (.conditionalStatement _ thenBody elseBody) => do
          let thenList ← store.statements? thenBody
          let elseList ← store.statements? elseBody
          let first ← exitBreaks? store key depth thenList
          let second ← exitBreaks? store key depth elseList
          return first ++ second
        | _ => none

/-- Drops the assignments and breaks that leave the loop. -/
def stripExits : (depth : Nat) → Store → List Slot → Store × List Slot
  | 0, store, statements => (store, statements)
  | depth + 1, store, statements =>
    let last : Slot := statements.getLast?.join
    if store.isPlainBreak last then (store, statements.take (statements.length - 2))
    else
      match store.shape? last with
      | some (.conditionalStatement _ thenBody elseBody) =>
        let stripArm (store : Store) (arm : Slot) : Store :=
          match store.statements? arm with
          | none => store
          | some inner =>
            let (store, stripped) := stripExits depth store inner
            (store.setStatements arm stripped).1
        (stripArm (stripArm store thenBody) elseBody, statements)
      | _ => (store, statements)

/-- The statements of the start case, if the loop runs exactly once. -/
def onlyRun? (store : Store) (key : DispatchKey) : Option (List Slot) :=
  let block := startBlock? store key
  let statements := store.statementsOf block
  match block, exitBreaks? store key store.depthBound statements, store.shape? (some key.loop) with
  | some _, some breaks, some (.loop _ _ condition _ _) =>
    let environment := Environment.bind [] key.name (Value.ofInt key.start)
    let isEntered := match evaluateCondition store environment condition with
      | .ok holds => holds
      | .error _ => false
    let isClosed := (store.escapingJumps statements true).all fun jump =>
      breaks.contains (some jump)
    if isEntered && isClosed && (store.position? (some key.loop)).isSome then some statements
    else none
  | _, _, _ => none

/-- The head of a loop as a statement. -/
def headStatement (store : Store) (loop : NodeId) : Store × Slot :=
  match store.shape? (some loop) with
  | some (.loop _ initializer _ _ _) =>
    match store.shape? initializer with
    | none => (store, none)
    | some (.declarationList false declarations) =>
      let marks := store.flags initializer
      let (store, statement) := store.makeVariables declarations marks
      (store, some statement)
    | some _ =>
      let (store, statement) := store.makeExpressionStatement initializer
      (store, some statement)
  | _ => (store, none)

/-! ## What is left over -/

/-- Removes a declaration from its statement, and the statement with the last one.
Answers whether the statement is gone. -/
def removeDeclaration (store : Store) (declaration : NodeId) : Store × Bool :=
  let statement := store.parent (some declaration)
  let remaining := ((store.declarations? statement).getD []).filter (· != some declaration)
  if remaining.isEmpty && store.kind? statement == some .variableStatement then
    ((store.replaceStatement statement []).1, true)
  else ((store.setDeclarations statement remaining).1, false)

/-- The first declaration of a prelude whose name nothing refers to. -/
def unusedDeclaration? (store : Store) (root : NodeId) (prelude : Slot) : Slot :=
  (((store.declarations? prelude).getD []).find? fun declaration =>
    (Tracking.declaredName? store declaration).any fun name =>
      (store.references (some root) name).isEmpty).join

/-- Removes the declarations of a prelude that nothing refers to, one after the other. -/
def trimPrelude (root : NodeId) (prelude : Slot) : (limit : Nat) → Store → Store
  | 0, store => store
  | limit + 1, store =>
    match unusedDeclaration? store root prelude with
    | none => store
    | some declaration =>
      let (store, isGone) := removeDeclaration store declaration
      if isGone then store else trimPrelude root prelude limit store

/-- The statements that assign constants to a key, if it is not referred to otherwise. -/
def deadWrites? (store : Store) (root : NodeId) (name : String) : Option (List Slot) :=
  (store.references (some root) name).mapM fun reference =>
    let statement := store.parent (store.parent (some reference))
    let isConstant := (store.keyValue? statement name).isSome || store.isKeyExit statement name
    if store.isWrite reference && isConstant && (store.position? statement).isSome then
      some statement
    else none

/-- Removes a key that is never read, with its assignments. -/
def removeKey (store : Store) (root : NodeId) (key : DispatchKey) : Store :=
  match deadWrites? store root key.name with
  | none => store
  | some writes =>
    let store := writes.foldl (fun store statement => (store.replaceStatement statement []).1) store
    (removeDeclaration store key.declaration).1

end Collapse

/-- Replaces the loop of a key by the statements of its start case, if it runs exactly
once, and answers whether it was replaced. -/
def Store.collapse (store : Store) (root : NodeId) (key : DispatchKey) : Store × Bool :=
  match Collapse.onlyRun? store key with
  | none => (store, false)
  | some statements =>
    let depth := store.depthBound
    let (store, stripped) := Collapse.stripExits depth store statements
    let (store, head) := Collapse.headStatement store key.loop
    let replacement := head.toList.map some ++ key.prelude.toList.map some ++ stripped
    match store.replaceStatement (some key.loop) replacement with
    | (store, false) => (store, false)
    | (store, true) =>
      let limit := ((store.declarations? key.prelude).getD []).length + 1
      let store := Collapse.trimPrelude root key.prelude limit store
      (Collapse.removeKey store root key, true)

end Unflatten
