import Unflatten.Canonical.Rule

/-! # Rules for blocks

The bodies of `if` and of loops become blocks (`Canonical.ifBody`), the statements of a
clause go into one block (`Canonical.switchCase`), and a block directly in a block is
spliced into it unless it declares names of its own (`Canonical.flattenBlock`).  The call
of a function on the spot gives way to the body of the function
(`Canonical.inlineCall`). -/

set_option autoImplicit false

namespace Unflatten.Canonical

/-! ## Bodies -/

/-- The bodies of an `if` statement or a loop. -/
def bodies : Shape → List Slot
  | .conditionalStatement _ thenBody elseBody => [thenBody, elseBody]
  | .loop _ _ _ _ body => [body]
  | .forIn _ _ body => [body]
  | _ => []

/-- Puts a body into a block; an empty statement becomes an empty block. -/
def wrapBody (store : Store) (id : NodeId) (body : Slot) : Store × Bool :=
  match store.shape? body with
  | none | some (.block _) => (store, false)
  | some shape =>
    let statements := match shape with
      | .emptyStatement => []
      | _ => [body]
    let (store, block) := store.makeBlock statements
    store.replaceChild (some id) body (some block)

/-- The bodies of `if` and of loops become blocks. -/
def ifBody (store : Store) (id : NodeId) : Store × Outcome :=
  Outcome.ofEdit (((store.shape? (some id)).elim [] bodies).foldl (fun (state : Store × Bool) body =>
    let (store, changed) := wrapBody state.1 id body
    (store, state.2 || changed)) (store, false))

/-- Every clause holds one block and nothing else. -/
def switchCase (store : Store) (id : NodeId) : Store × Outcome :=
  match store.shape? (some id) with
  | some (.clause _ _ statements) =>
    let isSettled := match statements with
      | [only] => store.satisfies only Shape.isBlock
      | _ => false
    if isSettled then (store, .unchanged)
    else
      let (store, block) := store.makeBlock statements
      Outcome.ofEdit (store.setStatements (some id) [some block])
  | _ => (store, .unchanged)

/-! ## Nested blocks -/

/-- Whether a block declares names with `let` or `const`. -/
def declaresBlockScoped (store : Store) (block : Slot) : Bool :=
  ((store.statements? block).getD []).any fun statement =>
    match store.shape? statement with
    | some (.declarationList true _) => (store.flags statement).isBlockScoped
    | _ => false

/-- Whether a statement is a block that can be spliced into the list around it. -/
def isSpliceable (store : Store) (statement : Slot) : Bool :=
  store.satisfies statement Shape.isBlock && !declaresBlockScoped store statement

/-- Blocks directly in a block or a file are spliced into it. -/
def flattenBlock (store : Store) (id : NodeId) : Store × Outcome :=
  let splice (statements : List Slot) : Store × Outcome :=
    if statements.any (isSpliceable store) then
      let flattened := statements.flatMap fun statement =>
        if isSpliceable store statement then (store.statements? statement).getD []
        else [statement]
      Outcome.ofEdit (store.setStatements (some id) flattened)
    else (store, .unchanged)
  match store.shape? (some id) with
  | some (.block statements) => splice statements
  | some (.file _ statements) => splice statements
  | _ => (store, .unchanged)

/-! ## Functions called on the spot -/

/-- The body of `!function () { ... }();` as a statement in a list inside a function:
no name, no parameters and no arguments. -/
def calledBody? (store : Store) (statement : Slot) : Option Slot := do
  let expression ← store.expression? statement
  let _ ← store.position? statement
  let _ ← store.enclosingFunction? statement
  match store.shape? expression with
  | some (.unary _ .exclamation operand) =>
    match store.shape? operand with
    | some (.call false callee []) =>
      match store.shape? callee with
      | some (.function true none [] body) => some body
      | _ => none
    | _ => none
  | _ => none

/-- Why the code below a node cannot run in the frame of the function around it; of
several reasons the one that stands last counts.  Functions are not searched. -/
def frameReason? (store : Store) : (depth : Nat) → NodeId → Option String
  | 0, _ => none
  | depth + 1, id =>
    match store.shape? (some id) with
    | none => none
    | some (.function _ _ _ _) => none
    | some (.exit .returns _) => some "body returns"
    | some (.token .thisKeyword) => some "body uses 'this'"
    | some (.identifier "arguments") => some "body uses 'arguments'"
    | some shape => shape.children.reverse.findSome? (frameReason? store depth)

/-- Why a body cannot run in the frame of the function around it. -/
def bodyReason? (store : Store) (body : Slot) : Option String :=
  (body.elim [] store.children).reverse.findSome? (frameReason? store store.depthBound)

/-- A function that is called on the spot for its effects gives way to its body. -/
def inlineCall (store : Store) (id : NodeId) : Store × Outcome :=
  match calledBody? store (some id) with
  | none => (store, .unchanged)
  | some body =>
    match bodyReason? store body with
    | some reason => (store, .refused ⟨.inlineSkipped, some id, [reason]⟩)
    | none => Outcome.ofEdit (store.replaceNode (some id) body)

end Unflatten.Canonical
