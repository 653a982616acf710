import Unflatten.Dispatch.Key
import Unflatten.Syntax.Build
import Unflatten.Syntax.Facts

/-! # Case tables

A `CaseTable` lists the statements that a dispatch loop runs for each value of its key,
together with the number of places that produce each value.  `CaseTable.emit` writes a
table as a `switch` again.  The other functions say how the statements of a case end:
with a jump to another case, with an `if` whose arms are blocks, or by falling through. -/

set_option autoImplicit false

namespace Unflatten

/-- The statements for each value of a key. -/
structure CaseTable where
  histogram : Histogram
  cases : Std.TreeMap Int (List Slot)

namespace CaseTable

/-- Takes a case out. -/
def erase (table : CaseTable) (value : Int) : CaseTable :=
  { table with cases := table.cases.erase value }

/-- Puts a case in. -/
def insert (table : CaseTable) (value : Int) (statements : List Slot) : CaseTable :=
  { table with cases := table.cases.insert value statements }

/-- The `switch` on a key with a clause for each case, in ascending order. -/
def emit (table : CaseTable) (store : Store) (key : String) : Store × NodeId :=
  let (store, clauses) := table.cases.toList.foldl
    (fun (state : Store × Array Slot) (value, statements) =>
      let (store, label) := state.1.makeNumber (Float.ofInt value)
      let (store, block) := store.makeBlock statements
      let (store, clause) := store.makeClause (some label) [some block]
      (store, state.2.push (some clause))) (store, #[])
  let (store, discriminant) := store.makeIdentifier key
  store.make (.switch (some discriminant) clauses.toList)

end CaseTable

/-- An `if` statement with blocks on both sides. -/
structure Arms where
  test : Slot
  thenBlock : Slot
  elseBlock : Slot

namespace Store

/-- The statements of a container; nothing has none. -/
def statementsOf (store : Store) (container : Slot) : List Slot :=
  (store.statements? container).getD []

/-- The arms of an `if` statement with blocks on both sides. -/
def arms? (store : Store) (statement : Slot) : Option Arms :=
  match store.shape? statement with
  | some (.conditionalStatement test thenBody elseBody) =>
    if store.satisfies thenBody Shape.isBlock && store.satisfies elseBody Shape.isBlock then
      some ⟨test, thenBody, elseBody⟩
    else none
  | _ => none

/-- The statements of a clause; a block around all of them is looked through. -/
def clauseStatements (store : Store) (clause : Slot) : List Slot :=
  match store.statementsOf clause with
  | [only] =>
    match store.shape? only with
    | some (.block statements) => statements
    | _ => [only]
  | statements => statements

/-- Whether statements end with `key = target; break;`. -/
def endsWithJump (store : Store) (key : String) (statements : List Slot) (target : Int) :
    Bool :=
  match statements.reverse with
  | last :: assignment :: _ =>
    store.isPlainBreak last && store.keyValue? assignment key == some target
  | _ => false

/-- Whether control can run off the end of some statements. -/
def fallsThrough (store : Store) : (depth : Nat) → List Slot → Bool
  | 0, _ => true
  | depth + 1, statements =>
    match statements.getLast? with
    | none => true
    | some last =>
      if store.isTerminator last then false
      else
        match store.shape? last with
        | some (.conditionalStatement _ thenBody elseBody) =>
          elseBody.isNone
            || store.fallsThrough depth (store.blockStatements thenBody)
            || store.fallsThrough depth (store.blockStatements elseBody)
        | _ => true

/-- The name that a statement updates: `x++`, `x += n` or `x = e`. -/
def updatedName? (store : Store) (statement : Slot) : Option String :=
  match (store.expression? statement).bind store.shape? with
  | some (.unary _ operator operand) =>
    if operator == .plusPlus || operator == .minusMinus then store.identifier? operand else none
  | some (.binary left operator _) =>
    if operator.isAssignment then store.identifier? left else none
  | _ => none

end Store

end Unflatten
