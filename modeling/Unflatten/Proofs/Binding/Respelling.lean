import Unflatten.Rename
import Unflatten.Proofs.Binding.Sites

/-! # Spelling identifiers anew

`Store.respell` writes a text into every identifier of a store.  The nodes stay where they are, so
whatever does not ask for the text of an identifier is as before: the walks, what an identifier
stands for, and the steps of binding. -/

set_option autoImplicit false

namespace Unflatten

/-- The shape with another text, if it is that of an identifier. -/
def Shape.spell (text : String) : Shape → Shape
  | .identifier _ => .identifier text
  | shape => shape

/-- The store with other texts in its identifiers. -/
def Store.respell (store : Store) (text : NodeId → String) : Store :=
  ⟨store.nodes.mapIdx fun id node => { node with shape := node.shape.spell (text id) }⟩

/-- The text of an identifier; nothing for any other node. -/
def Store.spelling (store : Store) (id : NodeId) : String := (store.identifier? (some id)).getD ""

namespace Shape
variable (text : String) (shape : Shape)

@[simp] theorem spell_spell (first second : String) :
    (shape.spell first).spell second = shape.spell second := by
  cases shape <;> rfl

@[simp] theorem slots_spell : (shape.spell text).slots = shape.slots := by
  cases shape <;> rfl

@[simp] theorem children_spell : (shape.spell text).children = shape.children := by
  cases shape <;> rfl

@[simp] theorem kind_spell : (shape.spell text).kind = shape.kind := by
  cases shape <;> rfl

@[simp] theorem statements?_spell : (shape.spell text).statements? = shape.statements? := by
  cases shape <;> rfl

end Shape

namespace Store

section Respelling
variable (store : Store) (text : NodeId → String)

@[simp] theorem size_respell : (store.respell text).nodes.size = store.nodes.size :=
  Array.size_mapIdx

@[simp] theorem respell_respell (first second : NodeId → String) :
    (store.respell first).respell second = store.respell second := by
  simp only [respell, Array.mapIdx_mapIdx, Function.comp_def, Shape.spell_spell]

theorem node?_respell (id : NodeId) : (store.respell text).node? (some id) =
    (store.node? (some id)).map fun node => { node with shape := node.shape.spell (text id) } := by
  simp only [node?, Option.bind_some, respell, Array.getElem?_mapIdx]

theorem shape?_respell (id : NodeId) : (store.respell text).shape? (some id) =
    (store.shape? (some id)).map (Shape.spell (text id)) := by
  simp only [shape?, node?_respell, Option.map_map, Function.comp_def]

theorem identifier?_respell (id : NodeId) : (store.respell text).identifier? (some id) =
    (store.identifier? (some id)).map fun _ => text id := by
  rw [identifier?, identifier?, shape?_respell]
  cases store.shape? (some id) with
  | none => rfl
  | some shape => cases shape <;> rfl

@[simp] theorem parent_respell (slot : Slot) :
    (store.respell text).parent slot = store.parent slot := by
  cases slot with
  | none => rfl
  | some id =>
    rw [parent, parent, node?_respell]
    cases store.node? (some id) <;> rfl

@[simp] theorem kind?_respell (slot : Slot) : (store.respell text).kind? slot = store.kind? slot := by
  cases slot with
  | none => rfl
  | some id => simp only [kind?, shape?_respell, Option.map_map, Function.comp_def, Shape.kind_spell]

@[simp] theorem children_respell (id : NodeId) :
    (store.respell text).children id = store.children id := by
  simp only [children, shape?_respell, Option.map_map, Function.comp_def, Shape.children_spell]

@[simp] theorem statements?_respell (slot : Slot) :
    (store.respell text).statements? slot = store.statements? slot := by
  cases slot with
  | none => rfl
  | some id => simp only [statements?, shape?_respell, Option.bind_map, Function.comp_def,
      Shape.statements?_spell]

@[simp] theorem depthBound_respell : (store.respell text).depthBound = store.depthBound := by
  rw [depthBound, size_respell, depthBound]

@[simp] theorem climb_respell (test : NodeId → Bool) (steps : Nat) (slot : Slot) :
    (store.respell text).climb test steps slot = store.climb test steps slot := by
  induction steps generalizing slot with
  | zero => rfl
  | succ steps ih =>
    cases slot with
    | none => rfl
    | some id => rw [climb, climb, ih, parent_respell]

theorem preorderOnto_respell (depth : Nat) (id : NodeId) (tail : List NodeId) :
    (store.respell text).preorderOnto depth id tail = store.preorderOnto depth id tail := by
  induction depth generalizing id tail with
  | zero => rfl
  | succ depth ih => simp only [preorderOnto, children_respell, ih]

@[simp] theorem descendants_respell (slot : Slot) :
    (store.respell text).descendants slot = store.descendants slot := by
  cases slot with
  | none => rfl
  | some id => rw [descendants, descendants, depthBound_respell, preorderOnto_respell]

@[simp] theorem isReference_respell (id : NodeId) :
    (store.respell text).isReference id = store.isReference id := by
  rw [isReference, isReference, parent_respell]
  cases store.parent (some id) with
  | none => rfl
  | some above =>
    rw [shape?_respell]
    cases store.shape? (some above) with
    | none => rfl
    | some shape => cases shape <;> rfl

@[simp] theorem isWrite_respell (id : NodeId) :
    (store.respell text).isWrite id = store.isWrite id := by
  rw [isWrite, isWrite, parent_respell]
  cases store.parent (some id) with
  | none => rfl
  | some above =>
    rw [shape?_respell]
    cases store.shape? (some above) with
    | none => rfl
    | some shape => cases shape <;> rfl

/-! ## Writing a text into an identifier -/

variable {store : Store} {text : NodeId → String}

theorem eq_of_getElem? {later : Store} (same : ∀ id : Nat, store.nodes[id]? = later.nodes[id]?) :
    store = later := by
  obtain ⟨nodes⟩ := store
  obtain ⟨others⟩ := later
  exact congrArg Store.mk (Array.ext_getElem? same)

theorem getElem?_respell (id : NodeId) : (store.respell text).nodes[id]? =
    (store.nodes[id]?).map fun node => { node with shape := node.shape.spell (text id) } :=
  store.node?_respell text id

/-- Identifiers that are given the text they have stay as they are. -/
theorem spell_spelling {id : NodeId} {node : Node} (found : store.nodes[id]? = some node) :
    node.shape.spell (store.spelling id) = node.shape := by
  have there : store.shape? (some id) = some node.shape := by
    rw [shape?, node?, Option.bind_some, found, Option.map_some]
  rw [spelling, identifier?, there]
  cases node.shape <;> rfl

theorem respell_spelling (store : Store) : store.respell store.spelling = store := by
  refine eq_of_getElem? fun id => ?_
  rw [getElem?_respell]
  cases found : store.nodes[id]? with
  | none => rfl
  | some node => rw [Option.map_some, spell_spelling found]

/-- Only the texts of identifiers matter. -/
theorem respell_congr {other : NodeId → String}
    (same : ∀ id, (store.identifier? (some id)).isSome → text id = other id) :
    store.respell text = store.respell other := by
  refine eq_of_getElem? fun id => ?_
  rw [getElem?_respell, getElem?_respell]
  cases found : store.nodes[id]? with
  | none => rfl
  | some node =>
    have there : store.shape? (some id) = some node.shape := by
      rw [shape?, node?, Option.bind_some, found, Option.map_some]
    have same := same id
    rw [identifier?, there] at same
    cases shaped : node.shape with
    | identifier _ =>
      rw [shaped] at same
      rw [Option.map_some, Option.map_some, same rfl]
    | _ => simp only [Option.map_some, shaped, Shape.spell]

theorem spelling_respell {id : NodeId} (spelled : (store.identifier? (some id)).isSome) :
    (store.respell text).spelling id = text id := by
  obtain ⟨word, found⟩ := Option.isSome_iff_exists.mp spelled
  rw [spelling, identifier?_respell, found, Option.map_some, Option.getD_some]

theorem setText_eq (store : Store) (id : NodeId) (word : String) :
    (store.setText (some id) word).1 =
      store.respell fun other => if other = id then word else store.spelling other := by
  rw [setText.eq_def]
  split
  · rename_i old same found
    cases same
    refine eq_of_getElem? fun other => ?_
    rw [getElem?_respell, setShape, Array.getElem?_modify]
    cases there : store.nodes[other]? with
    | none => split <;> rfl
    | some node =>
      by_cases here : id = other
      · subst here
        have shaped : node.shape = .identifier old := by
          rw [shape?, node?, Option.bind_some, there, Option.map_some] at found
          exact Option.some.inj found
        rw [if_pos rfl, if_pos rfl, Option.map_some, Option.map_some, shaped, Shape.spell]
      · rw [if_neg here, if_neg (Ne.symm here), Option.map_some, spell_spelling there]
  · rename_i missing
    nth_rewrite 1 [← respell_spelling store]
    refine respell_congr fun other spelled => ?_
    rw [if_neg]
    rintro rfl
    obtain ⟨old, there⟩ := Option.isSome_iff_exists.mp spelled
    unfold identifier? at there
    split at there
    · rename_i found
      exact missing _ _ rfl found
    · cases there

/-- Writing one text into several identifiers. -/
theorem setTexts_eq (store : Store) (sites : List NodeId) (word : String) :
    store.setTexts sites word =
      store.respell fun other => if other ∈ sites then word else store.spelling other := by
  induction sites generalizing store with
  | nil =>
    nth_rewrite 1 [Store.setTexts, List.foldl_nil, ← respell_spelling store]
    exact respell_congr fun _ _ => (if_neg List.not_mem_nil).symm
  | cons site rest ih =>
    have step : store.setTexts (site :: rest) word =
        ((store.setText (some site) word).1).setTexts rest word := rfl
    rw [step, ih, setText_eq, respell_respell]
    refine respell_congr fun other spelled => ?_
    rw [spelling_respell spelled]
    simp only [List.mem_cons]
    split
    · rw [if_pos (.inr ‹_›)]
    · split
      · rw [if_pos (.inl ‹_›)]
      · rw [if_neg]
        tauto

end Respelling

end Store

namespace Bindings

/-! ## Binding does not depend on texts -/

section Script
variable (store : Store) (text : NodeId → String)

theorem declaratorSteps_respell (kind : DeclarationKind) (isLoopHead : Bool)
    (below : Slot → List Step) (slot : Slot) :
    declaratorSteps (store.respell text) kind isLoopHead below slot =
      declaratorSteps store kind isLoopHead below slot := by
  cases slot with
  | none => rfl
  | some id =>
    rw [declaratorSteps, declaratorSteps, Store.shape?_respell]
    cases store.shape? (some id) with
    | none => rfl
    | some shape => cases shape <;> rfl

/-- The steps of binding are the same. -/
theorem script_respell (depth : Nat) (slot : Slot) :
    script (store.respell text) depth slot = script store depth slot := by
  induction depth generalizing slot with
  | zero => rfl
  | succ depth ih =>
    have below : script (store.respell text) depth = script store depth := funext ih
    have declarators : ∀ kind isLoopHead,
        declaratorSteps (store.respell text) kind isLoopHead (script store depth) =
          declaratorSteps store kind isLoopHead (script store depth) :=
      fun kind isLoopHead => funext fun slot => declaratorSteps_respell store text _ _ _ slot
    cases slot with
    | none => rfl
    | some id =>
      cases found : store.node? (some id) with
      | none => simp only [script, Store.node?_respell, found, Option.map_none]
      | some node =>
        obtain ⟨shape, flags, start, stop, parent⟩ := node
        cases shape
        case loop kind _ _ _ _ =>
          cases kind <;> simp only [script, Store.node?_respell, found, Option.map_some, Shape.spell, below]
        all_goals simp only [script, Store.node?_respell, found, Option.map_some, Shape.spell, below,
          declarators, Store.statements?_respell, Store.kind?_respell, Shape.children, Shape.visible,
          Shape.slots]

theorem fileScript_respell (root : NodeId) :
    fileScript (store.respell text) root = fileScript store root := by
  have below : script (store.respell text) store.depthBound = script store store.depthBound :=
    funext (script_respell store text _)
  rw [fileScript, fileScript, Store.depthBound_respell, Store.statements?_respell, below]

end Script

end Bindings

end Unflatten
