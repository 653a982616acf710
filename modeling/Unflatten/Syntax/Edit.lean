import Unflatten.Syntax.Store

/-! # Editing the tree

Every operation here keeps the slots of a node and the parent links of its children in
step: a child that comes in gets the link, and a child that goes loses its link unless
another node has adopted it in the meantime (`Store.release`).  An operation answers
the store and whether it applied; if it did not, the store is as before. -/

set_option autoImplicit false

namespace Unflatten

/-- The list with the first occurrence of a slot replaced, if there is one. -/
def replaceFirst (slots : List Slot) (old new : Slot) : Option (List Slot) :=
  match slots with
  | [] => none
  | slot :: rest =>
    if slot = old then some (new :: rest)
    else (replaceFirst rest old new).map (slot :: ·)

theorem length_replaceFirst {slots changed : List Slot} {old new : Slot}
    (found : replaceFirst slots old new = some changed) : changed.length = slots.length := by
  induction slots generalizing changed with
  | nil => cases found
  | cons slot rest ih =>
    unfold replaceFirst at found
    split at found
    · cases found; rfl
    · obtain ⟨tail, there, rfl⟩ := Option.map_eq_some_iff.1 found
      simp [ih there]

namespace Store

/-- Gives a node another shape and leaves all parent links as they are. -/
def setShape (store : Store) (id : NodeId) (shape : Shape) : Store :=
  ⟨store.nodes.modify id fun node => { node with shape := shape }⟩

/-- Clears the parent link of a removed child that still points to its old parent. -/
def release (store : Store) (child : Slot) (parent : NodeId) : Store :=
  if store.parent child = some parent then store.setParent child none else store

/-- Releases several removed children. -/
def releaseAll (store : Store) (removed : List Slot) (parent : NodeId) : Store :=
  removed.foldl (fun store child => store.release child parent) store

/-- Puts `new` into the first slot of `parent` that holds `old`.  Both may be nothing. -/
def replaceChild (store : Store) (parent old new : Slot) : Store × Bool :=
  match parent, store.shape? parent with
  | some id, some shape =>
    match replaceFirst shape.slots old new with
    | some slots =>
      let store := store.setShape id (shape.withSlots slots)
      let store := store.release old id
      (store.setParent new parent, true)
    | none => (store, false)
  | _, _ => (store, false)

/-- Puts `new` where `old` stands in its parent.  If `new` was built around `old`, the
parent has to be asked for before that, and `replaceChild` used. -/
def replaceNode (store : Store) (old new : Slot) : Store × Bool :=
  match store.parent old with
  | none => (store, false)
  | some parent => store.replaceChild (some parent) old new

/-! ## Lists of statements and declarations -/

/-- Gives a container other statements. -/
def setStatements (store : Store) (container : Slot) (statements : List Slot) : Store × Bool :=
  match container, store.shape? container with
  | some id, some shape =>
    match shape.statements?, shape.withStatements? statements with
    | some removed, some changed =>
      let store := store.setShape id changed
      let store := store.releaseAll removed id
      (store.setParents statements container, true)
    | _, _ => (store, false)
  | _, _ => (store, false)

/-- Takes statements out of a container from a place on and puts others there. -/
def splice (store : Store) (container : Slot) (place count : Nat) (inserted : List Slot) :
    Store × Bool :=
  match container, store.shape? container with
  | some id, some shape =>
    match shape.statements? with
    | none => (store, false)
    | some statements =>
      let behind := statements.drop (place + count)
      match shape.withStatements? (statements.take place ++ inserted ++ behind) with
      | none => (store, false)
      | some changed =>
        if statements.length < place then (store, false)
        else
          let store := store.setShape id changed
          let store := store.releaseAll ((statements.drop place).take count) id
          (store.setParents inserted container, true)
  | _, _ => (store, false)

/-- Puts a list of statements in the place of one. -/
def replaceStatement (store : Store) (statement : Slot) (replacement : List Slot) :
    Store × Bool :=
  match store.position? statement with
  | some (container, place) => store.splice (some container) place 1 replacement
  | none => (store, false)

/-- Puts statements immediately before another. -/
def insertBefore (store : Store) (statement : Slot) (inserted : List Slot) : Store × Bool :=
  match store.position? statement with
  | some (container, place) => store.splice (some container) place 0 inserted
  | none => (store, false)

/-- Gives a variable statement or a declaration list other declarations. -/
def setDeclarations (store : Store) (slot : Slot) (declarations : List Slot) : Store × Bool :=
  match slot, store.shape? slot with
  | some id, some (.declarationList isStatement removed) =>
    let store := store.setShape id (.declarationList isStatement declarations)
    let store := store.releaseAll removed id
    (store.setParents declarations slot, true)
  | _, _ => (store, false)

/-! ## Single fields -/

/-- Gives a binary expression another operator. -/
def setOperator (store : Store) (slot : Slot) (operator : TokenKind) : Store × Bool :=
  match slot, store.shape? slot with
  | some id, some (.binary left _ right) => (store.setShape id (.binary left operator right), true)
  | _, _ => (store, false)

/-- Exchanges the operands of a binary expression. -/
def swapOperands (store : Store) (slot : Slot) : Store × Bool :=
  match slot, store.shape? slot with
  | some id, some (.binary left operator right) =>
    (store.setShape id (.binary right operator left), true)
  | _, _ => (store, false)

/-- Gives an `if` statement another else branch, or none. -/
def setElse (store : Store) (slot : Slot) (elseBody : Slot) : Store × Bool :=
  match slot, store.shape? slot with
  | some id, some (.conditionalStatement test thenBody removed) =>
    let store := store.setShape id (.conditionalStatement test thenBody elseBody)
    let store := store.release removed id
    (store.setParent elseBody slot, true)
  | _, _ => (store, false)

/-- Gives an identifier another text. -/
def setText (store : Store) (slot : Slot) (text : String) : Store × Bool :=
  match slot, store.shape? slot with
  | some id, some (.identifier _) => (store.setShape id (.identifier text), true)
  | _, _ => (store, false)

/-! ## Copies -/

/-- Copies a subtree and answers the root of the copy, which has no parent.  The copies
keep their places in the source and are marked as synthesized.  A slot whose node is no
child keeps that node. -/
def copyTo (store : Store) : (depth : Nat) → NodeId → Store × Slot
  | 0, _ => (store, none)
  | depth + 1, id =>
    let (store, copies) := (store.children id).foldl
      (fun (state : Store × List (NodeId × Slot)) child =>
        let (store, copy) := state.1.copyTo depth child
        (store, (child, copy) :: state.2)) (store, [])
    match store.node? (some id) with
    | none => (store, none)
    | some node =>
      let renamed (slot : Slot) : Slot := slot.bind fun child => (copies.lookup child).getD slot
      let shape := node.shape.withSlots (node.shape.slots.map renamed)
      let (store, copy) :=
        store.push shape { node.flags with synthesized := true } node.start node.stop
      (store.setParents (shape.children.map some) (some copy), some copy)

/-- A copy of the subtree below a node. -/
def copy (store : Store) (slot : Slot) : Store × Slot :=
  match slot with
  | none => (store, none)
  | some id => store.copyTo store.depthBound id

/-- Copies of several subtrees. -/
def copyAll (store : Store) (slots : List Slot) : Store × List Slot :=
  slots.foldl (fun (state : Store × List Slot) slot =>
    let (store, copy) := state.1.copy slot
    (store, state.2 ++ [copy])) (store, [])

end Store

end Unflatten
