import Unflatten.Proofs.Syntax.Copying

/-! # What edits never change

An edit changes shapes and links and makes new nodes.  It never gives a file another source or a node
other marks, and a new node has no place of its own: it has none at all or that of the node it is a copy
of.  So of all stores that come from one by edits (`Store.Descends`) the nodes begin where nodes began. -/

set_option autoImplicit false

namespace Unflatten

/-- The source of a file. -/
def Shape.source? : Shape → Option Source
  | .file source _ => some source
  | _ => none

theorem Shape.source?_withSlots (shape : Shape) (slots : List Slot) :
    (shape.withSlots slots).source? = shape.source? := by
  cases shape <;> rfl

theorem Shape.source?_of_withStatements? {shape changed : Shape} {statements : List Slot}
    (changes : shape.withStatements? statements = some changed) : changed.source? = shape.source? := by
  cases shape <;> cases changes <;> rfl

namespace Store

/-- A place without a node in the source, or where a node begins. -/
def Begins (store : Store) (place : Nat) : Prop :=
  place = 0 ∨ ∃ slot node, store.node? slot = some node ∧ node.start = place

/-- Files keep their sources and nodes their marks, and no node begins where none did. -/
structure Descends (store later : Store) : Prop where
  source : ∀ slot source, (store.shape? slot).bind Shape.source? = some source →
    (later.shape? slot).bind Shape.source? = some source
  marks : ∀ slot flags, (store.node? slot).map Node.flags = some flags →
    (later.node? slot).map Node.flags = some flags
  starts : ∀ slot node, later.node? slot = some node → store.Begins node.start

section Elementary
variable {store middle later : Store} {slot container old new statement : Slot} {id : NodeId} {shape : Shape}
  {slots : List Slot}

theorem Descends.refl (store : Store) : Descends store store :=
  ⟨fun _ _ found => found, fun _ _ found => found, fun slot node found => .inr ⟨slot, node, found, rfl⟩⟩

theorem Descends.begins (descends : Descends store later) {place : Nat} (begins : later.Begins place) :
    store.Begins place := by
  rcases begins with zero | ⟨slot, node, found, rfl⟩
  · exact .inl zero
  · exact descends.starts slot node found

theorem Descends.trans (first : Descends store middle) (second : Descends middle later) :
    Descends store later :=
  ⟨fun slot source found => second.source slot source (first.source slot source found),
    fun slot flags found => second.marks slot flags (first.marks slot flags found),
    fun slot node found => first.begins (second.starts slot node found)⟩

/-- A node keeps its marks. -/
theorem Descends.flags (descends : Descends store later) (bound : id < store.nodes.size) :
    later.flags (some id) = store.flags (some id) := by
  have there : (store.node? (some id)).map Node.flags = some store.nodes[id].flags := by
    rw [node?, Option.bind_some, Array.getElem?_eq_getElem bound, Option.map_some]
  rw [Store.flags, Store.flags, descends.marks _ _ there, there]

theorem Descends.of_eq {α : Type} {answer : Store × α} {result : α} (same : answer = (later, result))
    (descends : store.Descends answer.1) : store.Descends later := by
  subst same
  exact descends

/-- A fold of which each step descends. -/
theorem descends_foldl {σ α : Type} (view : σ → Store) {step : σ → α → σ} {items : List α}
    (each : ∀ state, ∀ item ∈ items, (view state).Descends (view (step state item))) (state : σ) :
    (view state).Descends (view (items.foldl step state)) := by
  induction items generalizing state with
  | nil => exact .refl _
  | cons item rest ih =>
    exact (each state item List.mem_cons_self).trans
      (ih (fun state other member => each state other (List.mem_cons_of_mem item member)) _)

/-- A node is changed in its links or in its shape, which stays the file it is. -/
theorem descends_modify {change : Node → Node}
    (kept : ∀ node, store.nodes[id]? = some node →
      (change node).start = node.start ∧ (change node).flags = node.flags ∧
        (change node).shape.source? = node.shape.source?) :
    store.Descends ⟨store.nodes.modify id change⟩ := by
  have each : ∀ slot node, Store.node? ⟨store.nodes.modify id change⟩ slot = some node →
      ∃ before, store.node? slot = some before ∧ node.start = before.start ∧ node.flags = before.flags ∧
        node.shape.source? = before.shape.source? := by
    intro slot node found
    cases slot with
    | none => cases found
    | some other =>
      rw [node?, Option.bind_some, Array.getElem?_modify] at found
      split at found
      · obtain ⟨before, there, rfl⟩ := Option.map_eq_some_iff.mp found
        subst id
        exact ⟨before, there, kept before there⟩
      · exact ⟨node, found, rfl, rfl, rfl⟩
  have still : ∀ slot before, store.node? slot = some before →
      ∃ node, Store.node? ⟨store.nodes.modify id change⟩ slot = some node ∧ node.flags = before.flags ∧
        node.shape.source? = before.shape.source? := by
    intro slot before there
    have some : ∃ node, Store.node? ⟨store.nodes.modify id change⟩ slot = some node := by
      cases slot with
      | none => cases there
      | some other =>
        rw [node?, Option.bind_some] at there
        rw [node?, Option.bind_some, Array.getElem?_modify, there]
        split <;> exact ⟨_, rfl⟩
    obtain ⟨node, here⟩ := some
    obtain ⟨also, there', -, marked, sourced⟩ := each slot node here
    cases there.symm.trans there'
    exact ⟨node, here, marked, sourced⟩
  refine ⟨fun slot source found => ?_, fun slot flags found => ?_, fun slot node found => ?_⟩
  · obtain ⟨shape, shaped, same⟩ := Option.bind_eq_some_iff.mp found
    obtain ⟨before, there, rfl⟩ := Option.map_eq_some_iff.mp shaped
    obtain ⟨node, here, -, sourced⟩ := still slot before there
    rw [shape?, here, Option.map_some, Option.bind_some, sourced, same]
  · obtain ⟨before, there, rfl⟩ := Option.map_eq_some_iff.mp found
    obtain ⟨node, here, marked, -⟩ := still slot before there
    rw [here, Option.map_some, marked]
  · obtain ⟨before, there, start, -⟩ := each slot node found
    exact .inr ⟨slot, before, there, start.symm⟩

theorem descends_setParent (child parent : Slot) : store.Descends (store.setParent child parent) := by
  cases child with
  | none => exact .refl store
  | some id => exact descends_modify fun _ _ => ⟨rfl, rfl, rfl⟩

theorem descends_setParents (slots : List Slot) (parent : Slot) :
    store.Descends (store.setParents slots parent) :=
  descends_foldl id (fun _ child _ => descends_setParent child parent) store

theorem descends_setShape (found : store.shape? (some id) = some shape) {changed : Shape}
    (same : changed.source? = shape.source?) : store.Descends (store.setShape id changed) := by
  refine descends_modify fun node there => ⟨rfl, rfl, ?_⟩
  obtain ⟨before, here, rfl⟩ := Option.map_eq_some_iff.mp found
  cases here.symm.trans there
  exact same

theorem descends_push (shape : Shape) (flags : Flags) {start : Nat} (placed : store.Begins start) (stop : Nat) :
    store.Descends (store.push shape flags start stop).1 := by
  have still : ∀ slot node, store.node? slot = some node →
      (store.push shape flags start stop).1.node? slot = some node := by
    intro slot node there
    cases slot with
    | none => cases there
    | some other =>
      have inside : other < store.nodes.size := (Array.getElem?_eq_some_iff.mp there).1
      rw [node?, Option.bind_some, push, Array.getElem?_push, if_neg (Nat.ne_of_lt inside)]
      exact there
  refine ⟨fun slot source found => ?_, fun slot marked found => ?_, fun slot node found => ?_⟩
  · obtain ⟨shape', shaped, same⟩ := Option.bind_eq_some_iff.mp found
    obtain ⟨node, there, rfl⟩ := Option.map_eq_some_iff.mp shaped
    rw [shape?, still slot node there, Option.map_some, Option.bind_some, same]
  · obtain ⟨node, there, rfl⟩ := Option.map_eq_some_iff.mp found
    rw [still slot node there, Option.map_some]
  · cases slot with
    | none => cases found
    | some other =>
      rw [node?, Option.bind_some, push, Array.getElem?_push] at found
      split at found
      · cases found
        exact placed
      · exact .inr ⟨some other, node, found, rfl⟩

/-! ## Edits -/

theorem descends_make (shape : Shape) : store.Descends (store.make shape).1 :=
  (descends_push shape Flags.made (.inl rfl) 0).trans (descends_setParents _ _)

theorem descends_makeVariables (declarations : List Slot) (flags : Flags) :
    store.Descends (store.makeVariables declarations flags).1 :=
  (descends_push _ _ (.inl rfl) 0).trans (descends_setParents _ _)

theorem descends_release (child : Slot) (parent : NodeId) : store.Descends (store.release child parent) := by
  unfold release
  split
  · exact descends_setParent child none
  · exact .refl store

theorem descends_releaseAll (removed : List Slot) (parent : NodeId) :
    store.Descends (store.releaseAll removed parent) :=
  descends_foldl id (fun _ child _ => descends_release child parent) store

theorem descends_replaceChild (parent old new : Slot) :
    store.Descends (store.replaceChild parent old new).1 := by
  unfold replaceChild
  split
  · split
    · exact ((descends_setShape ‹_› (Shape.source?_withSlots _ _)).trans (descends_release _ _)).trans
        (descends_setParent _ _)
    · exact .refl store
  · exact .refl store

theorem descends_replaceNode (old new : Slot) : store.Descends (store.replaceNode old new).1 := by
  unfold replaceNode
  split
  · exact .refl store
  · exact descends_replaceChild _ _ _

theorem descends_setStatements (container : Slot) (statements : List Slot) :
    store.Descends (store.setStatements container statements).1 := by
  unfold setStatements
  split
  · split
    · exact ((descends_setShape ‹_› (Shape.source?_of_withStatements? ‹_›)).trans (descends_releaseAll _ _)).trans
        (descends_setParents _ _)
    · exact .refl store
  · exact .refl store

theorem descends_splice (container : Slot) (place count : Nat) (inserted : List Slot) :
    store.Descends (store.splice container place count inserted).1 := by
  unfold splice
  split
  · split
    · exact .refl store
    · dsimp only
      split
      · exact .refl store
      · split
        · exact .refl store
        · exact ((descends_setShape ‹_› (Shape.source?_of_withStatements? ‹_›)).trans
            (descends_releaseAll _ _)).trans (descends_setParents _ _)
  · exact .refl store

theorem descends_replaceStatement (statement : Slot) (replacement : List Slot) :
    store.Descends (store.replaceStatement statement replacement).1 := by
  unfold replaceStatement
  split
  · exact descends_splice _ _ _ _
  · exact .refl store

theorem descends_insertBefore (statement : Slot) (inserted : List Slot) :
    store.Descends (store.insertBefore statement inserted).1 := by
  unfold insertBefore
  split
  · exact descends_splice _ _ _ _
  · exact .refl store

theorem descends_setDeclarations (slot : Slot) (declarations : List Slot) :
    store.Descends (store.setDeclarations slot declarations).1 := by
  unfold setDeclarations
  split
  · rename_i id isStatement removed found
    have changed : (Shape.declarationList isStatement declarations).source? =
        (Shape.declarationList isStatement removed).source? := rfl
    exact ((descends_setShape found changed).trans (descends_releaseAll _ _)).trans (descends_setParents _ _)
  · exact .refl store

theorem descends_setOperator (slot : Slot) (operator : TokenKind) :
    store.Descends (store.setOperator slot operator).1 := by
  unfold setOperator
  split
  · rename_i found
    exact descends_setShape found rfl
  · exact .refl store

theorem descends_swapOperands (slot : Slot) : store.Descends (store.swapOperands slot).1 := by
  unfold swapOperands
  split
  · rename_i found
    exact descends_setShape found rfl
  · exact .refl store

theorem descends_setText (slot : Slot) (text : String) : store.Descends (store.setText slot text).1 := by
  unfold setText
  split
  · rename_i found
    exact descends_setShape found rfl
  · exact .refl store

/-! ## Copies -/

theorem descends_copyTo (depth : Nat) (id : NodeId) : store.Descends (store.copyTo depth id).1 := by
  induction depth generalizing store id with
  | zero => exact .refl store
  | succ depth ih =>
    have copied : store.Descends (copyChildren depth (store.children id) (store, [])).1 :=
      descends_foldl (fun state : Store × List (NodeId × Slot) => state.1)
        (fun state child _ => @ih state.1 child) (store, [])
    unfold copyChildren at copied
    rw [copyTo]
    split
    next middle copies made =>
      rw [made] at copied
      cases found : middle.node? (some id) with
      | none => exact copied
      | some node =>
        exact (copied.trans (descends_push _ _ (.inr ⟨some id, node, found, rfl⟩) _)).trans
          (descends_setParents _ _)

theorem descends_copy (slot : Slot) : store.Descends (store.copy slot).1 := by
  cases slot with
  | none => exact .refl store
  | some id => exact descends_copyTo _ id

theorem descends_copyAll (slots : List Slot) : store.Descends (store.copyAll slots).1 :=
  descends_foldl (fun state : Store × List Slot => state.1) (fun _ slot _ => descends_copy slot) (store, [])

end Elementary

end Store

end Unflatten
