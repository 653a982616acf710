import Unflatten.Canonical.Expression

/-! # Rules that turn expressions into statements

A statement that is a conditional or an `&&` expression becomes an `if`, and a statement
that is a sequence becomes a block.  A sequence that is the test of an `if` or the value
of a `return` leaves all but its last item in a statement before. -/

set_option autoImplicit false

namespace Unflatten.Canonical

/-- The name of the kind of a node in a remark. -/
def kindName (store : Store) (slot : Slot) : String :=
  ((store.kind? slot).map (·.shortName)).getD "none"

/-- The refusal of a conditional that stands where no statement can be made of it. -/
def unexpectedParent (store : Store) (parent : Slot) (conditional : NodeId) (what : String) :
    Outcome :=
  .refused ⟨.unexpectedParentType, some conditional, [kindName store parent, what]⟩

/-- `a, b, c;` becomes `{ a; b; c; }`. -/
def sequenceToBlock (store : Store) (sequence statement : Slot) : Store × Outcome :=
  match sequenceItems? store sequence with
  | none => (store, .unchanged)
  | some items =>
    let (store, statements) := items.foldl (fun (state : Store × Array Slot) item =>
      let (store, made) := state.1.makeExpressionStatement item
      (store, state.2.push (some made))) (store, #[])
    let (store, block) := store.makeBlock statements.toList
    Outcome.ofEdit (store.replaceNode statement (some block))

/-- `l && r;` becomes `if (l) r;`. -/
def andToConditional (store : Store) (left right statement : Slot) : Store × Outcome :=
  let (store, body) := store.makeExpressionStatement right
  let (store, replacement) := store.makeConditionalStatement left (some body) none
  Outcome.ofEdit (store.replaceNode statement (some replacement))

/-- `l && r;` around a conditional becomes `if (l) r;`.  Any other operator, and any
other place for the `&&`, is refused. -/
def lowerAnd (store : Store) (expression : Slot) (conditional : NodeId) : Store × Outcome :=
  match binary? store expression with
  | none => (store, .unchanged)
  | some (left, operator, right) =>
    let statement := store.parent expression
    if operator != .ampersandAmpersand then
      (store, unexpectedParent store expression conditional "conditional expression")
    else if !isExpressionStatement store statement then
      (store, unexpectedParent store statement conditional "logical expression")
    else andToConditional store left right statement

/-- `t ? a : b;` becomes `if (t) a; else b;`.  In a sequence that is a statement the
sequence is split up, and below `&&` that is lowered first. -/
def conditionalIf (store : Store) (id : NodeId) : Store × Outcome :=
  match store.shape? (some id) with
  | some (.conditional condition whenTrue whenFalse) =>
    let parent := store.parent (some id)
    match store.shape? parent with
    | none => (store, .unchanged)
    | some (.expressionStatement _) =>
      let (store, thenBody) := store.makeExpressionStatement whenTrue
      let (store, elseBody) := store.makeExpressionStatement whenFalse
      let (store, replacement) :=
        store.makeConditionalStatement condition (some thenBody) (some elseBody)
      Outcome.ofEdit (store.replaceNode parent (some replacement))
    | some (.elements .sequence _) =>
      let around := store.parent parent
      match store.shape? around with
      | some (.binary _ _ _) => lowerAnd store around id
      | some (.expressionStatement _) => sequenceToBlock store parent around
      | _ => (store, unexpectedParent store around id "sequence expression")
    | some (.binary _ _ _) => lowerAnd store parent id
    | some _ => (store, unexpectedParent store parent id "conditional expression")
  | _ => (store, .unchanged)

/-- The statement `l && r;` becomes `if (l) r;`. -/
def logicalIf (store : Store) (id : NodeId) : Store × Outcome :=
  match binary? store (some id) with
  | some (left, .ampersandAmpersand, right) =>
    let statement := store.parent (some id)
    if isExpressionStatement store statement then andToConditional store left right statement
    else (store, .unchanged)
  | _ => (store, .unchanged)

/-- A sequence that is a statement becomes a block of statements. -/
def sequence (store : Store) (id : NodeId) : Store × Outcome :=
  let statement := store.parent (some id)
  if isExpressionStatement store statement then sequenceToBlock store (some id) statement
  else (store, .unchanged)

/-- Moves all but the last item of a sequence, which is a slot of a statement in a list,
into a statement before that one. -/
def hoistLeading (store : Store) (statement expression : Slot) : Store × Outcome :=
  match sequenceItems? store expression with
  | none => (store, .unchanged)
  | some items =>
    if (store.position? statement).isNone then (store, .unchanged)
    else
      match items.dropLast, items.getLast? with
      | _, none => (store, .unchanged)
      | [], some last => Outcome.ofEdit (store.replaceChild statement expression last)
      | first :: more, some last =>
        let (store, leading) : Store × Slot :=
          if more.isEmpty then (store, first)
          else
            let (store, sequence) := store.make (.elements .sequence (first :: more))
            (store, some sequence)
        let (store, before) := store.makeExpressionStatement leading
        let (store, _) := store.insertBefore statement [some before]
        Outcome.ofEdit (store.replaceChild statement expression last)

/-- `if ((a, b, c))` becomes `a, b; if (c)`. -/
def ifTestSequence (store : Store) (id : NodeId) : Store × Outcome :=
  match test? store (some id) with
  | none => (store, .unchanged)
  | some test => hoistLeading store (some id) test

/-- `return a, b;` becomes `a; return b;`. -/
def returnSequence (store : Store) (id : NodeId) : Store × Outcome :=
  match store.shape? (some id) with
  | some (.exit .returns value) => hoistLeading store (some id) value
  | _ => (store, .unchanged)

end Unflatten.Canonical
