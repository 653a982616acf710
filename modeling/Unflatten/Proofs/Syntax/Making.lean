import Unflatten.Proofs.Syntax.Tree
import Unflatten.Syntax.Build

/-! # Making nodes

A new node takes the next free name.  Making it changes no shape, and of the parent links
only those of its children. -/

set_option autoImplicit false

namespace Unflatten.Store

/-- Every node of the one store has the same shape in the other. -/
def Keeps (store later : Store) : Prop :=
  ∀ id shape, store.shape? (some id) = some shape → later.shape? (some id) = some shape

section Keeps
variable {store middle later : Store}

theorem Keeps.refl (store : Store) : store.Keeps store := fun _ _ found => found

theorem Keeps.trans (first : store.Keeps middle) (second : middle.Keeps later) :
    store.Keeps later := fun id shape found => second id shape (first id shape found)

theorem Keeps.shape? (keeps : store.Keeps later) {slot : Slot} {shape : Shape}
    (found : store.shape? slot = some shape) : later.shape? slot = some shape := by
  cases slot with
  | none => cases found
  | some id => exact keeps id shape found

end Keeps

section Parents
variable (store : Store) (id : NodeId) (slot : Slot)

@[simp] theorem shape?_none : store.shape? none = none := rfl

@[simp] theorem parent_none : store.parent none = none := rfl

theorem shape?_setParents (slots : List Slot) (parent : Slot) :
    (store.setParents slots parent).shape? slot = store.shape? slot := by
  unfold setParents
  induction slots generalizing store with
  | nil => rfl
  | cons first rest ih => rw [List.foldl_cons, ih, shape?_setParent]

theorem size_setParents (slots : List Slot) (parent : Slot) :
    (store.setParents slots parent).nodes.size = store.nodes.size := by
  unfold setParents
  induction slots generalizing store with
  | nil => rfl
  | cons first rest ih => rw [List.foldl_cons, ih, setParent_size]

theorem parent_setParent (child parent : Slot) :
    (store.setParent child parent).parent (some id) =
      if child = some id ∧ id < store.nodes.size then parent else store.parent (some id) := by
  cases child with
  | none => simp [setParent]
  | some child =>
    simp only [Store.parent, node?, setParent, Option.bind_some, Array.getElem?_modify,
      Option.some.injEq]
    by_cases same : child = id
    · subst same
      by_cases bound : child < store.nodes.size
      · simp [bound]
      · simp [bound]
    · simp [same]

theorem parent_setParents (slots : List Slot) (parent : Slot) :
    (store.setParents slots parent).parent (some id) =
      if some id ∈ slots ∧ id < store.nodes.size then parent else store.parent (some id) := by
  unfold setParents
  induction slots generalizing store with
  | nil => simp
  | cons first rest ih =>
    rw [List.foldl_cons, ih, parent_setParent, setParent_size]
    by_cases bound : id < store.nodes.size
    · by_cases later : some id ∈ rest
      · simp [bound, later]
      · by_cases here : first = some id
        · simp [bound, later, here]
        · have other : ¬ some id = first := fun same => here same.symm
          simp [bound, later, here, other]
    · simp [bound]

theorem shape?_push (shape : Shape) (flags : Flags) (start stop : Nat) :
    (store.push shape flags start stop).1.shape? (some id) =
      if id = store.nodes.size then some shape else store.shape? (some id) := by
  simp only [shape?, node?, push, Option.bind_some, Array.getElem?_push]
  split <;> rfl

theorem parent_push (shape : Shape) (flags : Flags) (start stop : Nat) :
    (store.push shape flags start stop).1.parent (some id) =
      if id = store.nodes.size then none else store.parent (some id) := by
  simp only [Store.parent, node?, push, Option.bind_some, Array.getElem?_push]
  split <;> rfl

theorem parent_eq_none (beyond : store.nodes.size ≤ id) : store.parent (some id) = none := by
  simp [parent, node?, beyond]

end Parents

/-! ## New nodes -/

section Add
variable (store : Store) (shape : Shape) (flags : Flags) (start stop : Nat) (id : NodeId)

theorem size_add : (store.add shape flags start stop).1.nodes.size = store.nodes.size + 1 := by
  unfold add
  rw [size_setParents, push_size]

theorem shape?_add : (store.add shape flags start stop).1.shape? (some id) =
    if id = store.nodes.size then some shape else store.shape? (some id) := by
  unfold add
  rw [shape?_setParents, shape?_push]

theorem keeps_add : store.Keeps (store.add shape flags start stop).1 := by
  intro id found there
  have other : id ≠ store.nodes.size := Nat.ne_of_lt (lt_size_of_shape? there)
  rw [shape?_add, if_neg other, there]

theorem parent_add (bound : id < store.nodes.size) :
    (store.add shape flags start stop).1.parent (some id) =
      if some id ∈ shape.slots then some store.nodes.size else store.parent (some id) := by
  unfold add
  have other : id ≠ store.nodes.size := Nat.ne_of_lt bound
  rw [parent_setParents, parent_push, if_neg other, push_size]
  have inside : id < store.nodes.size + 1 := Nat.lt_succ_of_lt bound
  simp only [inside, and_true]
  rfl

end Add

section Make
variable (store : Store) (shape : Shape) (id : NodeId)

@[simp] theorem make_id : (store.make shape).2 = store.nodes.size := rfl

@[simp] theorem size_make : (store.make shape).1.nodes.size = store.nodes.size + 1 :=
  size_add store shape _ _ _

theorem shape?_make : (store.make shape).1.shape? (some id) =
    if id = store.nodes.size then some shape else store.shape? (some id) :=
  shape?_add store shape _ _ _ id

@[simp] theorem shape?_make_id :
    (store.make shape).1.shape? (some store.nodes.size) = some shape := by
  rw [shape?_make, if_pos rfl]

theorem keeps_make : store.Keeps (store.make shape).1 := keeps_add store shape _ _ _

theorem parent_make (bound : id < store.nodes.size) :
    (store.make shape).1.parent (some id) =
      if some id ∈ shape.slots then some store.nodes.size else store.parent (some id) :=
  parent_add store shape _ _ _ id bound

end Make

end Unflatten.Store

/-! ## How deep a tree is

The operands of an operator, the object of a member access and the callee of a call hang below
their node in a chain (`Shape.linked`); whatever else stands in a slot is nested (`Shape.enclosed`).
A part of a tree lies so many steps below the root, of which some follow chains (`Tree.LiesAt`).
`Store.IsShallow` bounds the other steps: a chain may be of any length. -/

namespace Unflatten

namespace Shape

/-- The slots that continue a chain. -/
def linked : Shape → List Slot
  | .binary left _ right => [left, right]
  | .access _ object _ => [object]
  | .call _ callee _ => [callee]
  | _ => []

/-- The slots that continue no chain. -/
def enclosed : Shape → List Slot
  | .binary _ _ _ => []
  | .access _ _ property => [property]
  | .call _ _ passed => passed
  | shape => shape.slots

theorem slots_eq (shape : Shape) : shape.slots = shape.linked ++ shape.enclosed := by
  cases shape <;> rfl

end Shape

namespace Tree

/-- A part lies below the root by steps into slots that continue no chain, and steps along chains. -/
inductive LiesAt (part : Tree) : Tree → (nested linked : Nat) → Prop
  | whole : LiesAt part part 0 0
  | nested {id : NodeId} {shape : Shape} {below : List Tree} {tree : Tree} {nested linked : Nat}
      (member : tree ∈ below) (slot : tree.root ∈ shape.enclosed) (inner : LiesAt part tree nested linked) :
      LiesAt part (.node id shape below) (nested + 1) linked
  | linked {id : NodeId} {shape : Shape} {below : List Tree} {tree : Tree} {nested linked : Nat}
      (member : tree ∈ below) (slot : tree.root ∈ shape.linked) (inner : LiesAt part tree nested linked) :
      LiesAt part (.node id shape below) nested (linked + 1)

/-- How many steps a part lies below the root. -/
inductive IsAtDepth (part : Tree) : Tree → Nat → Prop
  | whole : IsAtDepth part part 0
  | deeper {id : NodeId} {shape : Shape} {below : List Tree} {tree : Tree} {depth : Nat}
      (member : tree ∈ below) (inner : IsAtDepth part tree depth) :
      IsAtDepth part (.node id shape below) (depth + 1)

end Tree

namespace Store
variable {store later : Store} {slot : Slot} {level more : Nat} {tree part : Tree}

/-- No way down from a slot has more than some number of nodes, those in a chain counting as one. -/
inductive IsShallow (store : Store) : Nat → Slot → Prop
  | nothing {level : Nat} : IsShallow store level none
  | node {level : Nat} {id : NodeId} {shape : Shape} (found : store.shape? (some id) = some shape)
      (linked : ∀ slot ∈ shape.linked, IsShallow store (level + 1) slot)
      (enclosed : ∀ slot ∈ shape.enclosed, IsShallow store level slot) : IsShallow store (level + 1) (some id)

theorem IsShallow.mono (nests : store.IsShallow level slot) (fewer : level ≤ more) : store.IsShallow more slot := by
  induction nests generalizing more with
  | nothing => exact .nothing
  | node found _ _ linked enclosed =>
    cases more with
    | zero => exact absurd fewer (Nat.not_succ_le_zero _)
    | succ more =>
      have fits := Nat.le_of_succ_le_succ fewer
      exact .node found (fun slot listed => linked slot listed fewer)
        fun slot listed => enclosed slot listed fits

theorem IsShallow.carry (nests : store.IsShallow level slot) (keeps : store.Keeps later) :
    later.IsShallow level slot := by
  induction nests with
  | nothing => exact .nothing
  | node found _ _ linked enclosed => exact .node (keeps _ _ found) linked enclosed

/-- A part of a tree lies at its depth by steps of both sorts. -/
theorem Holds.exists_liesAt (holds : store.Holds tree) {depth : Nat} (deep : part.IsAtDepth tree depth) :
    ∃ nested linked, part.LiesAt tree nested linked ∧ depth = nested + linked := by
  induction deep with
  | whole => exact ⟨0, 0, .whole, rfl⟩
  | @deeper id shape below tree depth member _ ih =>
    cases holds with
    | node _ _ roots _ inner =>
      obtain ⟨nested, linked, lies, sum⟩ := ih (inner tree member)
      have slot : tree.root ∈ shape.slots := by
        rw [roots]
        exact List.mem_map_of_mem member
      rw [Shape.slots_eq] at slot
      rcases List.mem_append.mp slot with chained | apart
      · exact ⟨nested, linked + 1, .linked member chained lies, by omega⟩
      · exact ⟨nested + 1, linked, .nested member apart lies, by omega⟩

/-- The steps that follow no chain are bounded. -/
theorem IsShallow.lt_of_liesAt (nests : store.IsShallow level tree.root) (holds : store.Holds tree)
    {nested linked : Nat} (lies : part.LiesAt tree nested linked) (present : part.root.isSome) :
    nested < level := by
  -- on the way down a step along a chain stays on its level, and any other step uses one up
  induction lies generalizing level with
  | whole =>
    generalize part.root = root at nests present
    cases nests with
    | nothing => cases present
    | node => exact Nat.succ_pos _
  | @nested id shape below tree nested linked member slot _ ih =>
    cases holds with
    | node found _ _ _ inner =>
      cases nests with
      | node also _ enclosed =>
        cases found.symm.trans also
        exact Nat.succ_lt_succ (ih (enclosed _ slot) (inner tree member))
  | @linked id shape below tree nested linked member slot _ ih =>
    cases holds with
    | node found _ _ _ inner =>
      cases nests with
      | node also linked _ =>
        cases found.symm.trans also
        exact ih (linked _ slot) (inner tree member)

end Store

end Unflatten
