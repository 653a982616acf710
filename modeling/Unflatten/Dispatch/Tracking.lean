import Unflatten.Binding.Position
import Unflatten.Dispatch.Key
import Unflatten.Evaluation.Evaluator
import Unflatten.Syntax.Facts

/-! # Tracking the values of a key

`Tracking.track` counts the places that give a key each value: its start and every
statement `k = 5;` in the dispatcher.  It also finds the values for which the test of
the loop fails.  A key that can change in any other way, or that is read by anything but
a `switch`, has an `Obstacle` and is left alone. -/

set_option autoImplicit false

namespace Unflatten

namespace Tracking

/-- What is found out about a key. -/
structure Tracked where
  histogram : Histogram
  exits : List Int

/-- Whether a node is allowed in a prelude: declarations, names, literals and operators
without effects. -/
def isPure : Shape → Bool
  | .declarationList _ _ | .declaration _ _ | .conditional _ _ _ | .identifier _ => true
  | .binary _ operator _ => !operator.isAssignment
  | .unary false operator _ =>
    operator != .plusPlus && operator != .minusMinus && operator != .deleteKeyword
  | .literal .number _ _ | .literal .string _ _ => true
  | .token .trueKeyword | .token .falseKeyword | .token .nullKeyword => true
  | _ => false

/-- Whether a prelude has no effects. -/
def isPurePrelude (store : Store) (prelude : Slot) : Bool :=
  (store.descendants prelude).all fun id => store.satisfies (some id) isPure

/-- The name that a declaration declares. -/
def declaredName? (store : Store) (declaration : Slot) : Option String :=
  match store.shape? declaration with
  | some (.declaration name _) => store.identifier? name
  | _ => none

/-- The names that a variable statement declares. -/
def declaredNames (store : Store) (statement : Slot) : List String :=
  ((store.declarations? statement).getD []).filterMap (declaredName? store)

/-- Whether an identifier is what a `switch` selects by. -/
def isDiscriminant (store : Store) (reference : NodeId) : Bool :=
  store.discriminant? (store.parent (some reference)) == some (some reference)

/-- The statement that assigns to an identifier and does nothing else. -/
def assignmentStatement (store : Store) (target : NodeId) : Slot :=
  let statement := store.parent (store.parent (some target))
  if (store.expression? statement).isSome then statement else none

/-- The surroundings in which the references to a key are looked at. -/
structure Frame where
  name : String
  prelude : Slot
  condition : Slot
  dispatcher : Slot
  /-- The function around the loop. -/
  home : Slot

/-- The frame of a key, if its loop has the form of a dispatch loop. -/
def frame (store : Store) (root : NodeId) (key : DispatchKey) : Except Obstacle Frame :=
  if !store.isAttached root (some key.loop) then .error .detachedLoop
  else
    match store.shape? (some key.loop) with
    | some (.loop _ _ condition incrementor _) =>
      if incrementor.isSome then .error .updateClause
      else
        let body := store.loopBody key.loop
        let isExpected := match key.prelude, body with
          | some prelude, [first, _] => first == some prelude
          | none, [_] => true
          | _, _ => false
        if !isExpected then .error (.bodyLength body.length)
        else
          let dispatcher := (body[key.place]?).join
          if !store.isSwitch dispatcher then .error .noSwitch
          else if key.prelude.isSome && !isPurePrelude store key.prelude then
            .error .impurePrelude
          else
            .ok ⟨key.name, key.prelude, condition, dispatcher,
              store.enclosingFunction? (some key.loop)⟩
    | _ => .error .noLoop

/-- Looks at one reference to the key and counts the value it is given there. -/
def countReference (store : Store) (frame : Frame) (histogram : Histogram) (reference : NodeId) :
    Except Obstacle Histogram :=
  let isBelow (slot : Slot) : Bool := store.isAncestorOrSelf slot (some reference)
  if isBelow frame.condition || isBelow frame.prelude then .ok histogram
  else if !isBelow frame.dispatcher then .error .usedOutside
  else if !store.isWrite reference then
    if isDiscriminant store reference then .ok histogram else .error .readInside
  else if store.enclosingFunction? (some reference) != frame.home then
    .error .writtenInFunction
  else
    let statement := assignmentStatement store reference
    match store.keyValue? statement frame.name with
    | some value => .ok (histogram.increment value)
    | none =>
      if store.isKeyExit statement frame.name then .ok histogram else .error .computedWrite

/-- Looks at one reference to a name of the prelude: it is read there or selects. -/
def checkPart (store : Store) (frame : Frame) (name : String) (reference : NodeId) :
    Except Obstacle Unit :=
  let isBelow (slot : Slot) : Bool := store.isAncestorOrSelf slot (some reference)
  if isBelow frame.prelude then .ok ()
  else if isBelow frame.dispatcher && isDiscriminant store reference then .ok ()
  else .error (.partUsedOutside name)

/-- The values for which the test of the loop fails. -/
def exitValues (store : Store) (frame : Frame) : List Int → Except Obstacle (List Int)
  | [] => .ok []
  | value :: rest =>
    let environment := Environment.bind [] frame.name (Value.ofInt value)
    match evaluateCondition store environment frame.condition with
    | .error cause => .error (.undecidedTest cause)
    | .ok holds => (exitValues store frame rest).map fun exits =>
      if holds then exits else value :: exits

/-- Tracks a key through the tree. -/
def track (store : Store) (root : NodeId) (key : DispatchKey) : Except Obstacle Tracked := do
  let frame ← frame store root key
  let references (name : String) := store.references (some root) name
  let histogram ← (references key.name).foldlM (countReference store frame)
    (Std.TreeMap.empty.insert key.start 1)
  (declaredNames store key.prelude).forM fun name =>
    (references name).forM (checkPart store frame name)
  let exits ← exitValues store frame histogram.keys
  if exits.contains key.start then .error .startExits else .ok ⟨histogram, exits⟩

end Tracking

namespace Findings

/-- Takes down what comes of tracking a key. -/
def trackKey (store : Store) (root : NodeId) (findings : Findings) (key : DispatchKey) :
    Findings :=
  if key.isVisited || key.obstacle.isSome then findings
  else
    match Tracking.track store root key with
    | .ok tracked =>
      let findings := findings.updateKey key.name fun key =>
        { key with histogram := tracked.histogram, exits := tracked.exits }
      findings.note store
        ⟨.keySize, some key.loop, [key.name, toString tracked.histogram.size]⟩
    | .error obstacle =>
      let findings := findings.updateKey key.name fun key =>
        { key with obstacle := some obstacle }
      findings.note store ⟨.opaqueKey, some key.loop, [key.name, obstacle.message]⟩

/-- Tracks every key. -/
def trackKeys (findings : Findings) (store : Store) (root : NodeId) : Findings :=
  findings.keys.foldl (trackKey store root) findings

end Findings

end Unflatten
