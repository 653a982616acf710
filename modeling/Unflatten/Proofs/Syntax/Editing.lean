import Unflatten.Proofs.Syntax.Making

/-! # Editing nodes

An edit changes the shape of one node, and of the parent links only those of the children
that come or go. -/

set_option autoImplicit false

namespace Unflatten

theorem exists_replaceFirst {slots : List Slot} {old : Slot} (member : old ∈ slots) (new : Slot) :
    ∃ changed, replaceFirst slots old new = some changed := by
  induction slots with
  | nil => cases member
  | cons slot rest ih =>
    unfold replaceFirst
    by_cases same : slot = old
    · exact ⟨new :: rest, by rw [if_pos same]⟩
    · have later : old ∈ rest := by
        rcases List.mem_cons.mp member with here | later
        · exact absurd here.symm same
        · exact later
      obtain ⟨changed, found⟩ := ih later
      exact ⟨slot :: changed, by rw [if_neg same, found]; rfl⟩

namespace Store

section Shapes
variable (store : Store) (id : NodeId) (slot : Slot)

@[simp] theorem size_setShape (shape : Shape) :
    (store.setShape id shape).nodes.size = store.nodes.size := by
  simp [setShape]

theorem shape?_setShape (changed : NodeId) (shape : Shape) :
    (store.setShape changed shape).shape? (some id) =
      if changed = id ∧ id < store.nodes.size then some shape else store.shape? (some id) := by
  simp only [shape?, node?, setShape, Option.bind_some, Array.getElem?_modify]
  by_cases same : changed = id
  · subst same
    by_cases bound : changed < store.nodes.size
    · simp [bound]
    · simp [bound]
  · simp [same]

/-- Of two shapes the second stays. -/
theorem setShape_setShape (changed : NodeId) (first second : Shape) :
    (store.setShape changed first).setShape changed second = store.setShape changed second := by
  refine congrArg Store.mk (Array.ext_getElem? fun place => ?_)
  simp only [setShape, Array.getElem?_modify]
  split
  · cases store.nodes[place]? <;> rfl
  · rfl

theorem parent_setShape (changed : NodeId) (shape : Shape) :
    (store.setShape changed shape).parent slot = store.parent slot := by
  cases slot with
  | none => rfl
  | some id =>
    simp only [Store.parent, node?, setShape, Option.bind_some, Array.getElem?_modify]
    split
    · cases store.nodes[id]? <;> rfl
    · rfl

theorem shape?_release (child : Slot) (parent : NodeId) :
    (store.release child parent).shape? slot = store.shape? slot := by
  unfold release
  split
  · exact shape?_setParent store child none slot
  · rfl

@[simp] theorem size_release (child : Slot) (parent : NodeId) :
    (store.release child parent).nodes.size = store.nodes.size := by
  unfold release
  split
  · exact setParent_size store child none
  · rfl

theorem parent_release (child : Slot) (parent : NodeId) :
    (store.release child parent).parent (some id) =
      if child = some id ∧ store.parent (some id) = some parent then none
      else store.parent (some id) := by
  unfold release
  by_cases same : child = some id
  · subst same
    by_cases adopted : store.parent (some id) = some parent
    · have bound : id < store.nodes.size := by
        by_contra beyond
        rw [parent_eq_none store id (Nat.le_of_not_lt beyond)] at adopted
        cases adopted
      rw [if_pos adopted, parent_setParent, if_pos ⟨rfl, bound⟩, if_pos ⟨rfl, adopted⟩]
    · rw [if_neg adopted, if_neg fun both => adopted both.2]
  · have apart : ¬ (child = some id ∧ store.parent (some id) = some parent) :=
      fun both => same both.1
    rw [if_neg apart]
    split
    · rw [parent_setParent, if_neg fun both => same both.1]
    · rfl

theorem shape?_releaseAll (removed : List Slot) (parent : NodeId) :
    (store.releaseAll removed parent).shape? slot = store.shape? slot := by
  unfold releaseAll
  induction removed generalizing store with
  | nil => rfl
  | cons first rest ih => rw [List.foldl_cons, ih, shape?_release]

@[simp] theorem size_releaseAll (removed : List Slot) (parent : NodeId) :
    (store.releaseAll removed parent).nodes.size = store.nodes.size := by
  unfold releaseAll
  induction removed generalizing store with
  | nil => rfl
  | cons first rest ih => rw [List.foldl_cons, ih, size_release]

theorem parent_releaseAll (removed : List Slot) (parent : NodeId) :
    (store.releaseAll removed parent).parent (some id) =
      if some id ∈ removed ∧ store.parent (some id) = some parent then none
      else store.parent (some id) := by
  unfold releaseAll
  induction removed generalizing store with
  | nil => simp
  | cons first rest ih =>
    rw [List.foldl_cons, ih, parent_release]
    by_cases adopted : store.parent (some id) = some parent
    · by_cases here : first = some id
      · simp [here, adopted]
      · have other : ¬ some id = first := fun same => here same.symm
        simp [here, other, adopted]
    · simp [adopted]

end Shapes

/-! ## Replacing a node -/

section Replace
variable {store : Store} {old new parent : NodeId} {shape : Shape} {slots : List Slot}

/-- A node takes the first place of another below its parent. -/
theorem replaceNode_eq (linked : store.parent (some old) = some parent)
    (found : store.shape? (some parent) = some shape)
    (replaced : replaceFirst shape.slots (some old) (some new) = some slots) :
    store.replaceNode (some old) (some new) =
      (((store.setShape parent (shape.withSlots slots)).release (some old) parent).setParent
        (some new) (some parent), true) := by
  simp only [replaceNode, linked, replaceChild, found, replaced]

theorem shape?_replaceNode (linked : store.parent (some old) = some parent)
    (found : store.shape? (some parent) = some shape)
    (replaced : replaceFirst shape.slots (some old) (some new) = some slots) (id : NodeId) :
    (store.replaceNode (some old) (some new)).1.shape? (some id) =
      if id = parent then some (shape.withSlots slots) else store.shape? (some id) := by
  rw [replaceNode_eq linked found replaced, shape?_setParent, shape?_release, shape?_setShape]
  have bound := lt_size_of_shape? found
  by_cases same : id = parent
  · subst same
    rw [if_pos ⟨rfl, bound⟩, if_pos rfl]
  · rw [if_neg fun both => same both.1.symm, if_neg same]

theorem parent_replaceNode (linked : store.parent (some old) = some parent)
    (found : store.shape? (some parent) = some shape)
    (replaced : replaceFirst shape.slots (some old) (some new) = some slots)
    (bound : new < store.nodes.size) :
    (store.replaceNode (some old) (some new)).1.parent (some new) = some parent := by
  rw [replaceNode_eq linked found replaced, parent_setParent, size_release, size_setShape,
    if_pos ⟨rfl, bound⟩]

end Replace

/-! ## Setting the statements of a block -/

section Statements
variable {store : Store} {container : NodeId} {before after : List Slot}

theorem setStatements_block (found : store.shape? (some container) = some (.block before)) :
    (store.setStatements (some container) after).1 =
      ((store.setShape container (.block after)).releaseAll before container).setParents after
        (some container) := by
  simp [setStatements, found, Shape.statements?, Shape.withStatements?]

theorem size_setStatements (found : store.shape? (some container) = some (.block before)) :
    (store.setStatements (some container) after).1.nodes.size = store.nodes.size := by
  rw [setStatements_block found, size_setParents, size_releaseAll, size_setShape]

theorem shape?_setStatements (found : store.shape? (some container) = some (.block before))
    (id : NodeId) :
    (store.setStatements (some container) after).1.shape? (some id) =
      if id = container then some (.block after) else store.shape? (some id) := by
  rw [setStatements_block found, shape?_setParents, shape?_releaseAll, shape?_setShape]
  have bound := lt_size_of_shape? found
  by_cases same : id = container
  · subst same
    rw [if_pos ⟨rfl, bound⟩, if_pos rfl]
  · rw [if_neg fun both => same both.1.symm, if_neg same]

theorem parent_setStatements (found : store.shape? (some container) = some (.block before))
    {id : NodeId} (bound : id < store.nodes.size) :
    (store.setStatements (some container) after).1.parent (some id) =
      if some id ∈ after then some container
      else if some id ∈ before ∧ store.parent (some id) = some container then none
      else store.parent (some id) := by
  rw [setStatements_block found, parent_setParents, size_releaseAll, size_setShape,
    parent_releaseAll, parent_setShape]
  simp only [bound, and_true]

end Statements

end Store

end Unflatten
