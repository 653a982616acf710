import Unflatten.Syntax.Facts

/-! # Walks with a stack

A walk visits the items on a stack until none is left: the top item is taken off, something may be
found at it, and other items take its place.  `Store.walkDown` lists the nodes of a tree parents
first, `Store.walkUp` lists them children first, and `Store.walkJumps` lists the jumps that leave
the loop or `switch` around some statements.

A walk has no bound.  It has an answer if it comes to an end, and below a node that stands below
itself it does not. -/

set_option autoImplicit false

namespace Unflatten

/-- What a walk does at an item. -/
structure Walk (α β : Type) where
  /-- What is found at the item. -/
  found? : α → Option β
  /-- The items that take its place on the stack, the next one first. -/
  next : α → List α

namespace Walk
variable {α β : Type}

/-- Visits the items on a stack, the top one first, until none is left. -/
def loop (walk : Walk α β) (stack : List α) (found : Array β) : Option (Array β) :=
  match stack with
  | [] => some found
  | item :: stack =>
    walk |>.loop (walk.next item ++ stack) ((walk.found? item).elim found found.push)
partial_fixpoint

/-- What is found in a walk that starts with some items, in order. -/
def run (walk : Walk α β) (stack : List α) : Option (List β) :=
  (walk.loop stack #[]).map Array.toList

end Walk

namespace Store

/-- A node is listed, and its children are next. -/
def downward (store : Store) : Walk NodeId NodeId where
  found? id := some id
  next id := store.children id

/-- A node is opened first: its children are next, and it comes back behind them to be listed. -/
def upward (store : Store) : Walk (NodeId × Bool) NodeId where
  found? := fun (id, isOpened) => if isOpened then some id else none
  next := fun (id, isOpened) =>
    if isOpened then [] else (store.children id).map (·, false) ++ [(id, true)]

/-- The node of a slot and all nodes below it, parents first. -/
def walkDown (store : Store) (root : Slot) : Option (List NodeId) :=
  store.downward.run root.toList

/-- The node of a slot and all nodes below it, children first. -/
def walkUp (store : Store) (root : Slot) : Option (List NodeId) :=
  store.upward.run (root.toList.map (·, false))

/-- A node in which jumps are looked for. -/
structure Site where
  id : NodeId
  /-- Whether a loop that was come through stands around it. -/
  inLoop : Bool
  /-- Whether a `switch` that was come through stands around it. -/
  inSwitch : Bool

/-- A jump is listed if it has a label or leaves all that was come through, a `continue` only if
those are asked for.  Nothing is looked for in functions and below jumps. -/
def outward (store : Store) (withContinue : Bool) : Walk Site NodeId where
  found? site :=
    match store.shape? (some site.id) with
    | some (.jump .breaks label) =>
      if label.isSome || !(site.inLoop || site.inSwitch) then some site.id else none
    | some (.jump .continues label) =>
      if withContinue && (label.isSome || !site.inLoop) then some site.id else none
    | _ => none
  next site :=
    match store.shape? (some site.id) with
    | none | some (.function _ _ _ _) | some (.jump _ _) => []
    | some shape =>
      let inLoop := site.inLoop || shape.isLoop
      let inSwitch := site.inSwitch || match shape with
        | .switch _ _ => true
        | _ => false
      shape.children.reverse.map (⟨·, inLoop, inSwitch⟩)

/-- The jumps below some statements that leave the loop or `switch` around them, in the order in
which they are come to: the last statement is searched first. -/
def walkJumps (store : Store) (roots : List Slot) (withContinue : Bool) : Option (List NodeId) :=
  (store.outward withContinue).run ((roots.reverse.filterMap id).map (⟨·, false, false⟩))

end Store

end Unflatten
