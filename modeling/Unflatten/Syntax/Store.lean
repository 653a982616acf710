import Unflatten.Syntax.Kind

/-! # The store of nodes

A `Store` holds every node ever made; a node that is no longer wanted is merely no
longer referred to.  Each node has a shape, flags, a stretch of the source and a link
to its parent.  `Store.add` makes a node and adopts its children.

`Store.descendants` lists the nodes below a node, parents first, and `Store.postorder`
lists them children first.  `Store.isAttached` follows the parent links up to a root.
Walks carry a bound on their depth: no path through a tree is longer than the store. -/

set_option autoImplicit false

namespace Unflatten

/-- Marks of a node. -/
structure Flags where
  /-- A list of `let` declarations. -/
  isLet : Bool
  /-- A list of `const` declarations. -/
  isConst : Bool
  /-- Made by a pass and not found in the source. -/
  synthesized : Bool
  /-- An object or array written over several lines. -/
  multiLine : Bool
  deriving DecidableEq, Repr, Inhabited

namespace Flags

/-- No marks. -/
def none : Flags := ⟨false, false, false, false⟩

/-- Declarations that belong to a block and not to a function. -/
def isBlockScoped (flags : Flags) : Bool := flags.isLet || flags.isConst

end Flags

/-- A node: its shape, its marks, the stretch of the source it comes from and its
parent. -/
structure Node where
  shape : Shape
  flags : Flags
  start : Nat
  stop : Nat
  parent : Slot
  deriving Repr, Inhabited

/-- All nodes, by name. -/
structure Store where
  nodes : Array Node
  deriving Repr, Inhabited

namespace Store

/-- The store without nodes. -/
def empty : Store := ⟨#[]⟩

/-! ## Looking at nodes -/

/-- The node of a slot. -/
def node? (store : Store) (slot : Slot) : Option Node := slot.bind fun id => store.nodes[id]?

/-- The shape of the node of a slot. -/
def shape? (store : Store) (slot : Slot) : Option Shape := (store.node? slot).map (·.shape)

/-- The kind of the node of a slot. -/
def kind? (store : Store) (slot : Slot) : Option NodeKind := (store.shape? slot).map (·.kind)

/-- The parent of a node; nothing has no parent. -/
def parent (store : Store) (slot : Slot) : Slot := (store.node? slot).bind (·.parent)

/-- The flags of a node. -/
def flags (store : Store) (slot : Slot) : Flags :=
  ((store.node? slot).map (·.flags)).getD Flags.none

/-- The children of a node. -/
def children (store : Store) (id : NodeId) : List NodeId :=
  ((store.shape? (some id)).map (·.children)).getD []

/-- The statements of a file, block or clause. -/
def statements? (store : Store) (slot : Slot) : Option (List Slot) :=
  (store.shape? slot).bind (·.statements?)

/-- Whether the node of a slot has a shape with some property. -/
def satisfies (store : Store) (slot : Slot) (test : Shape → Bool) : Bool :=
  (store.shape? slot).any test

/-- The text of an identifier. -/
def identifier? (store : Store) (slot : Slot) : Option String :=
  match store.shape? slot with
  | some (.identifier text) => some text
  | _ => none

/-- Whether a slot holds an identifier with a given text. -/
def isIdentifier (store : Store) (slot : Slot) (name : String) : Bool :=
  store.identifier? slot == some name

/-- The value of a numeric literal. -/
def number? (store : Store) (slot : Slot) : Option Float :=
  match store.shape? slot with
  | some (.literal .number _ value) => value
  | _ => none

/-- The expression of an expression statement. -/
def expression? (store : Store) (slot : Slot) : Option Slot :=
  match store.shape? slot with
  | some (.expressionStatement expression) => some expression
  | _ => none

/-- The declarations of a variable statement or a declaration list. -/
def declarations? (store : Store) (slot : Slot) : Option (List Slot) :=
  match store.shape? slot with
  | some (.declarationList _ declarations) => some declarations
  | _ => none

/-- The container of a statement and its place in it. -/
def position? (store : Store) (statement : Slot) : Option (NodeId × Nat) :=
  match store.parent statement with
  | none => none
  | some container =>
    (store.statements? (some container)).bind fun statements =>
      (statements.findIdx? (· == statement)).map fun place => (container, place)

/-! ## Making nodes -/

/-- Sets the parent link of a node; nothing is left as it is. -/
def setParent (store : Store) (child parent : Slot) : Store :=
  match child with
  | none => store
  | some id => ⟨store.nodes.modify id fun node => { node with parent := parent }⟩

/-- Sets the parent links of several nodes. -/
def setParents (store : Store) (slots : List Slot) (parent : Slot) : Store :=
  slots.foldl (fun store child => store.setParent child parent) store

/-- Adds a node without a parent and leaves its children as they are. -/
def push (store : Store) (shape : Shape) (flags : Flags) (start stop : Nat) : Store × NodeId :=
  let id := store.nodes.size
  (⟨store.nodes.push ⟨shape, flags, start, stop, none⟩⟩, id)

/-- Adds a node and becomes the parent of its children. -/
def add (store : Store) (shape : Shape) (flags : Flags) (start stop : Nat) : Store × NodeId :=
  let (store, id) := store.push shape flags start stop
  (store.setParents shape.slots (some id), id)

/-! ## Walking down -/

/-- A bound on the depth of every tree in the store. -/
def depthBound (store : Store) : Nat := store.nodes.size + 1

/-- The node and those below it, parents first, in front of a tail. -/
def preorderOnto (store : Store) : (depth : Nat) → NodeId → List NodeId → List NodeId
  | 0, _, tail => tail
  | depth + 1, id, tail =>
    id :: (store.children id).foldr (fun child rest => store.preorderOnto depth child rest) tail

/-- The node and those below it, parents last, in front of a tail. -/
def postorderOnto (store : Store) : (depth : Nat) → NodeId → List NodeId → List NodeId
  | 0, _, tail => tail
  | depth + 1, id, tail =>
    (store.children id).foldr (fun child rest => store.postorderOnto depth child rest) (id :: tail)

/-- The node of a slot and all nodes below it, parents first. -/
def descendants (store : Store) (root : Slot) : List NodeId :=
  match root with
  | none => []
  | some id => store.preorderOnto store.depthBound id []

/-- The node of a slot and all nodes below it, children first. -/
def postorder (store : Store) (root : Slot) : List NodeId :=
  match root with
  | none => []
  | some id => store.postorderOnto store.depthBound id []

/-! ## Walking up -/

/-- The first of a node and its ancestors that satisfies a test, within a number of
steps. -/
def climb (store : Store) (test : NodeId → Bool) : (steps : Nat) → Slot → Slot
  | 0, _ => none
  | _, none => none
  | steps + 1, some id =>
    if test id then some id else store.climb test steps (store.parent (some id))

/-- Whether `ancestor` is the node itself or above it. -/
def isAncestorOrSelf (store : Store) (ancestor node : Slot) : Bool :=
  match ancestor with
  | none => false
  | some id => (store.climb (· == id) store.depthBound node).isSome

/-- The nearest function around a node. -/
def enclosingFunction? (store : Store) (node : Slot) : Slot :=
  store.climb (fun id => store.satisfies (some id) Shape.isFunction) store.depthBound
    (store.parent node)

/-- Whether a node is reached from the root: parent links of removed children are
cleared, so it is enough to follow them. -/
def isAttached (store : Store) (root : NodeId) (node : Slot) : Bool :=
  (store.climb (· == root) store.depthBound node).isSome

/-! ## Simple laws -/

theorem push_size (store : Store) (shape : Shape) (flags : Flags) (start stop : Nat) :
    (store.push shape flags start stop).1.nodes.size = store.nodes.size + 1 := by
  simp [push]

theorem setParent_size (store : Store) (child parent : Slot) :
    (store.setParent child parent).nodes.size = store.nodes.size := by
  cases child <;> simp [setParent]

theorem shape?_setParent (store : Store) (child parent slot : Slot) :
    (store.setParent child parent).shape? slot = store.shape? slot := by
  cases child with
  | none => rfl
  | some child =>
    cases slot with
    | none => rfl
    | some id =>
      simp only [shape?, node?, setParent, Option.bind_some, Array.getElem?_modify]
      split
      · cases store.nodes[id]? <;> rfl
      · rfl

end Store

end Unflatten
