import Std.Data.TreeMap
import Unflatten.Evaluation.Value
import Unflatten.Journal

/-! # Dispatch keys

A flattened function runs a loop around a `switch`, the dispatcher.  The variable that
selects the clause is the key of the loop.  A dispatch variable is a part of a key that a
mask cuts out.  `Findings` holds what the passes know about both, together with the
journal. -/

set_option autoImplicit false

namespace Unflatten

/-- How many places give the key each value. -/
abbrev Histogram := Std.TreeMap Int Nat

namespace Histogram

/-- The number of places that give the key a value. -/
def count (histogram : Histogram) (value : Int) : Nat := (histogram[value]?).getD 0

/-- Counts one more place for a value. -/
def increment (histogram : Histogram) (value : Int) : Histogram :=
  histogram.insert value (histogram.count value + 1)

/-- Counts one place less for a value. -/
def decrement (histogram : Histogram) (value : Int) : Histogram :=
  if histogram.contains value then histogram.insert value (histogram.count value - 1)
  else histogram

end Histogram

/-- A variable that holds the low bits of a key. -/
structure DispatchVariable where
  name : String
  /-- The number of values the variable can take. -/
  domainSize : Nat
  /-- The key of the loop around it. -/
  rootKey : String
  /-- The first name in the masked expression. -/
  parent : Option String
  declaration : NodeId
  deriving Repr

/-- Why the values of a key cannot be tracked. -/
inductive Obstacle where
  | detachedLoop
  | noLoop
  | updateClause
  | bodyLength (count : Nat)
  | noSwitch
  | impurePrelude
  | usedOutside
  | readInside
  | writtenInFunction
  | computedWrite
  | partUsedOutside (name : String)
  | undecidedTest (cause : EvalError)
  | startExits
  deriving DecidableEq, Repr

/-- The text of an obstacle. -/
def Obstacle.message : Obstacle → String
  | .detachedLoop => "loop is no longer in the tree"
  | .noLoop => "not a loop"
  | .updateClause => "loop has an update clause"
  | .bodyLength count => "loop body has " ++ toString count ++ " statements"
  | .noSwitch => "dispatcher is not a switch"
  | .impurePrelude => "prelude has side effects"
  | .usedOutside => "key is used outside its loop"
  | .readInside => "key is read inside the dispatcher"
  | .writtenInFunction => "key is written inside a nested function"
  | .computedWrite => "key is written with a non-literal value"
  | .partUsedOutside name => "'" ++ name ++ "' is used outside a dispatch test"
  | .undecidedTest cause => "loop test cannot be decided: " ++ cause.message
  | .startExits => "loop test fails for the start value"

/-- The key of a dispatch loop. -/
structure DispatchKey where
  name : String
  start : Int
  loop : NodeId
  /-- The statement that derives the dispatch variables from the key. -/
  prelude : Slot
  /-- The place of the dispatcher in the body of the loop. -/
  place : Nat
  /-- The declaration of the key, in the head of the loop or right before it. -/
  declaration : NodeId
  /-- The dispatch variables cut out of the key. -/
  children : List String
  histogram : Histogram
  /-- The values that leave the loop instead of selecting a clause, in order. -/
  exits : List Int
  obstacle : Option Obstacle
  /-- Whether the dispatcher has been taken on. -/
  isVisited : Bool

/-- What the passes know. -/
structure Findings where
  /-- The dispatch variables, in the order in which they were found. -/
  parts : List DispatchVariable
  /-- The keys, in the order in which they were found. -/
  keys : List DispatchKey
  journal : Journal

namespace Findings

/-- Nothing is known. -/
def empty : Findings := ⟨[], [], Journal.empty⟩

/-- The dispatch variable of a name. -/
def variableNamed? (findings : Findings) (name : String) : Option DispatchVariable :=
  findings.parts.find? (·.name == name)

/-- The key of a name. -/
def key? (findings : Findings) (name : String) : Option DispatchKey :=
  findings.keys.find? (·.name == name)

/-- Changes the key of a name. -/
def updateKey (findings : Findings) (name : String) (change : DispatchKey → DispatchKey) :
    Findings :=
  { findings with
    keys := findings.keys.map fun key => if key.name == name then change key else key }

/-- Adds a remark to the journal. -/
def note (findings : Findings) (store : Store) (remark : Remark) : Findings :=
  { findings with journal := findings.journal.add store remark }

end Findings

namespace Store

/-- The statements in the body of a loop with a condition. -/
def loopBody (store : Store) (loop : NodeId) : List Slot :=
  match store.shape? (some loop) with
  | some (.loop _ _ _ _ body) => (store.statements? body).getD []
  | _ => []

/-- The value a `switch` selects by. -/
def discriminant? (store : Store) (slot : Slot) : Option Slot :=
  match store.shape? slot with
  | some (.switch discriminant _) => some discriminant
  | _ => none

/-- Whether a slot holds a `switch`. -/
def isSwitch (store : Store) (slot : Slot) : Bool := (store.discriminant? slot).isSome

end Store

/-- The dispatcher of a key. -/
def DispatchKey.dispatcher? (key : DispatchKey) (store : Store) : Slot :=
  ((store.loopBody key.loop)[key.place]?).join

end Unflatten
