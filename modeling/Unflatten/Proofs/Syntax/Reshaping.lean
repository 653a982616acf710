import Unflatten.Proofs.Syntax.Climbing
import Unflatten.Proofs.Syntax.Sparing

/-! # Edits as reshapings

Every edit of a node that exists gives it another shape, clears the links of children that go and
sets those of children that come.  In whatever order nodes are made and reshaped, parent links
stay true. -/

set_option autoImplicit false

namespace Unflatten

namespace Shape

variable {shape changed : Shape} {statements : List Slot}

theorem exists_withStatements? (has : shape.isContainer = true) (statements : List Slot) :
    ∃ changed, shape.withStatements? statements = some changed := by
  cases shape
  case file => exact ⟨_, rfl⟩
  case block => exact ⟨_, rfl⟩
  case clause => exact ⟨_, rfl⟩
  all_goals cases has

/-- The slots of a container before its statements: the label of a clause. -/
def leading : Shape → List Slot
  | .clause _ label _ => [label]
  | _ => []

theorem slots_of_statements? (has : shape.statements? = some statements) :
    shape.slots = shape.leading ++ statements := by
  cases shape
  case file => cases has; rfl
  case block => cases has; rfl
  case clause => cases has; rfl
  all_goals cases has

theorem slots_of_withStatements? (changes : shape.withStatements? statements = some changed) :
    changed.slots = shape.leading ++ statements ∧ changed.statements? = some statements := by
  cases shape
  case file => cases changes; exact ⟨rfl, rfl⟩
  case block => cases changes; exact ⟨rfl, rfl⟩
  case clause => cases changes; exact ⟨rfl, rfl⟩
  all_goals cases changes

end Shape

namespace Store

/-- One node gets another shape, `removed` lose their links to it and `new` get links to it. -/
structure Reshapes (store later : Store) (id : NodeId) (shape : Shape) (removed new : List Slot) :
    Prop where
  bound : id < store.nodes.size
  size : later.nodes.size = store.nodes.size
  shapes : ∀ other, later.shape? (some other) =
    if other = id then some shape else store.shape? (some other)
  parents : ∀ child, child < store.nodes.size → later.parent (some child) =
    if some child ∈ new then some id
    else if some child ∈ removed ∧ store.parent (some child) = some id then none
    else store.parent (some child)

section Reshapes
variable {store later : Store} {id : NodeId} {shape old changed : Shape}
  {removed new slots statements : List Slot} {slot : Slot}

theorem reshapes_setShape (bound : id < store.nodes.size) (shape : Shape) (removed new : List Slot) :
    Reshapes store (((store.setShape id shape).releaseAll removed id).setParents new (some id)) id
      shape removed new := by
  refine ⟨bound, by rw [size_setParents, size_releaseAll, size_setShape], fun other => ?_,
    fun child inside => ?_⟩
  · rw [shape?_setParents, shape?_releaseAll, shape?_setShape]
    by_cases same : other = id
    · subst same
      rw [if_pos ⟨rfl, bound⟩, if_pos rfl]
    · rw [if_neg fun both => same both.1.symm, if_neg same]
  · rw [parent_setParents, size_releaseAll, size_setShape, parent_releaseAll, parent_setShape]
    simp only [inside, and_true]

/-- A change of shape alone. -/
theorem reshapes_setShape_only (bound : id < store.nodes.size) (shape : Shape) :
    Reshapes store (store.setShape id shape) id shape [] [] :=
  reshapes_setShape bound shape [] []

theorem replaceChild_reshapes (found : store.shape? (some id) = some shape) {old new : Slot}
    (replaced : replaceFirst shape.slots old new = some slots) :
    ∃ later, store.replaceChild (some id) old new = (later, true) ∧
      Reshapes store later id (shape.withSlots slots) [old] [new] := by
  refine ⟨_, ?_, reshapes_setShape (lt_size_of_shape? found) _ _ _⟩
  simp only [replaceChild, found, replaced]
  rfl

theorem replaceChild_cases (store : Store) (parent old new : Slot) :
    store.replaceChild parent old new = (store, false) ∨
      ∃ id shape slots later, parent = some id ∧ store.shape? (some id) = some shape ∧
        replaceFirst shape.slots old new = some slots ∧
        store.replaceChild parent old new = (later, true) ∧
        Reshapes store later id (shape.withSlots slots) [old] [new] := by
  cases parent with
  | none => exact .inl rfl
  | some id =>
    cases found : store.shape? (some id) with
    | none => exact .inl (by simp only [replaceChild, found])
    | some shape =>
      cases replaced : replaceFirst shape.slots old new with
      | none => exact .inl (by simp only [replaceChild, found, replaced])
      | some slots =>
        obtain ⟨later, result, reshapes⟩ := replaceChild_reshapes found replaced
        exact .inr ⟨id, shape, slots, later, rfl, found, replaced, result, reshapes⟩

theorem setStatements_reshapes (found : store.shape? (some id) = some shape)
    (has : shape.statements? = some removed) (changes : shape.withStatements? new = some changed) :
    ∃ later, store.setStatements (some id) new = (later, true) ∧
      Reshapes store later id changed removed new := by
  refine ⟨_, ?_, reshapes_setShape (lt_size_of_shape? found) _ _ _⟩
  simp only [setStatements, found, has, changes]

theorem setStatements_cases (store : Store) (container : Slot) (statements : List Slot) :
    store.setStatements container statements = (store, false) ∨
      ∃ id shape removed changed later, container = some id ∧
        store.shape? (some id) = some shape ∧ shape.statements? = some removed ∧
        shape.withStatements? statements = some changed ∧
        store.setStatements container statements = (later, true) ∧
        Reshapes store later id changed removed statements := by
  cases container with
  | none => exact .inl rfl
  | some id =>
    cases found : store.shape? (some id) with
    | none => exact .inl (by simp only [setStatements, found])
    | some shape =>
      cases has : shape.statements? with
      | none => exact .inl (by simp only [setStatements, found, has])
      | some removed =>
        obtain ⟨changed, changes⟩ :=
          Shape.exists_withStatements? (by rw [Shape.isContainer, has]; rfl : shape.isContainer = true)
            statements
        obtain ⟨later, result, reshapes⟩ := setStatements_reshapes found has changes
        exact .inr ⟨id, shape, removed, changed, later, rfl, found, has, changes, result, reshapes⟩

theorem splice_reshapes {place count : Nat} (found : store.shape? (some id) = some shape)
    (has : shape.statements? = some statements) (within : place ≤ statements.length)
    (changes : shape.withStatements?
      (statements.take place ++ new ++ statements.drop (place + count)) = some changed) :
    ∃ later, store.splice (some id) place count new = (later, true) ∧
      Reshapes store later id changed ((statements.drop place).take count) new := by
  refine ⟨_, ?_, reshapes_setShape (lt_size_of_shape? found) _ _ _⟩
  simp only [splice, found, has, changes, if_neg (Nat.not_lt_of_le within)]

theorem splice_cases (store : Store) (container : Slot) (place count : Nat) (new : List Slot) :
    store.splice container place count new = (store, false) ∨
      ∃ id shape statements changed later, container = some id ∧
        store.shape? (some id) = some shape ∧ shape.statements? = some statements ∧
        place ≤ statements.length ∧
        shape.withStatements?
          (statements.take place ++ new ++ statements.drop (place + count)) = some changed ∧
        store.splice container place count new = (later, true) ∧
        Reshapes store later id changed ((statements.drop place).take count) new := by
  cases container with
  | none => exact .inl rfl
  | some id =>
    cases found : store.shape? (some id) with
    | none => exact .inl (by simp only [splice, found])
    | some shape =>
      cases has : shape.statements? with
      | none => exact .inl (by simp only [splice, found, has])
      | some statements =>
        obtain ⟨changed, changes⟩ := Shape.exists_withStatements?
          (by rw [Shape.isContainer, has]; rfl : shape.isContainer = true)
          (statements.take place ++ new ++ statements.drop (place + count))
        by_cases beyond : statements.length < place
        · exact .inl (by simp only [splice, found, has, changes, if_pos beyond])
        · obtain ⟨later, result, reshapes⟩ :=
            splice_reshapes found has (Nat.le_of_not_lt beyond) changes
          exact .inr ⟨id, shape, statements, changed, later, rfl, found, has, Nat.le_of_not_lt beyond,
            changes, result, reshapes⟩

theorem setDeclarations_cases (store : Store) (slot : Slot) (declarations : List Slot) :
    store.setDeclarations slot declarations = (store, false) ∨
      ∃ id isStatement removed later, slot = some id ∧
        store.shape? (some id) = some (.declarationList isStatement removed) ∧
        store.setDeclarations slot declarations = (later, true) ∧
        Reshapes store later id (.declarationList isStatement declarations) removed declarations := by
  unfold setDeclarations
  split
  · rename_i id isStatement removed found
    exact .inr ⟨id, isStatement, removed, _, rfl, found, rfl,
      reshapes_setShape (lt_size_of_shape? found) _ _ _⟩
  · exact .inl rfl

/-! ## True links -/

/-- A node that gives up no child but those it removes keeps all links true. -/
theorem Reshapes.hasTrueLinks (reshapes : Reshapes store later id shape removed new)
    (found : store.shape? (some id) = some old)
    (kept : ∀ slot ∈ old.slots, slot ∈ shape.slots ∨ slot ∈ removed)
    (listed : ∀ slot ∈ new, slot ∈ shape.slots) (links : store.HasTrueLinks) :
    later.HasTrueLinks := by
  intro child parent linked
  have bound : child < store.nodes.size := by
    by_contra beyond
    rw [parent_eq_none later child (by rw [reshapes.size]; exact Nat.le_of_not_lt beyond)] at linked
    cases linked
  rw [reshapes.parents child bound] at linked
  split at linked
  · rename_i come
    cases linked
    exact ⟨shape, by rw [reshapes.shapes, if_pos rfl], listed _ come⟩
  · split at linked
    · cases linked
    · rename_i stays
      obtain ⟨other, there, inside⟩ := links child parent linked
      by_cases same : parent = id
      · subst same
        rw [found] at there
        cases there
        refine ⟨shape, by rw [reshapes.shapes, if_pos rfl], ?_⟩
        exact (kept _ inside).resolve_right fun gone => stays ⟨gone, linked⟩
      · exact ⟨other, by rw [reshapes.shapes, if_neg same, there], inside⟩

theorem mem_replaceFirst {old new : Slot} (replaced : replaceFirst slots old new = some removed) :
    (∀ slot ∈ slots, slot ∈ removed ∨ slot = old) ∧ new ∈ removed := by
  induction slots generalizing removed with
  | nil => cases replaced
  | cons first rest ih =>
    unfold replaceFirst at replaced
    split at replaced
    · rename_i same
      cases replaced
      refine ⟨fun slot member => ?_, List.mem_cons_self⟩
      rcases List.mem_cons.mp member with here | there
      · exact .inr (here.trans same)
      · exact .inl (List.mem_cons_of_mem _ there)
    · obtain ⟨tail, found, rfl⟩ := Option.map_eq_some_iff.mp replaced
      obtain ⟨stays, comes⟩ := ih found
      refine ⟨fun slot member => ?_, List.mem_cons_of_mem _ comes⟩
      rcases List.mem_cons.mp member with rfl | there
      · exact .inl List.mem_cons_self
      · exact (stays slot there).imp_left (List.mem_cons_of_mem _)

theorem hasTrueLinks_replaceChild (parent old new : Slot) (links : store.HasTrueLinks) :
    (store.replaceChild parent old new).1.HasTrueLinks := by
  rcases replaceChild_cases store parent old new with
    same | ⟨id, shape, slots, later, -, found, replaced, result, reshapes⟩
  · rw [same]
    exact links
  · rw [result]
    have filled : (shape.withSlots slots).slots = slots :=
      Shape.slots_withSlots _ _ (length_replaceFirst replaced)
    refine reshapes.hasTrueLinks found (fun slot member => ?_) (fun slot member => ?_) links
    · rw [filled]
      exact ((mem_replaceFirst replaced).1 slot member).imp_right List.mem_singleton.mpr
    · rw [filled, List.mem_singleton.mp member]
      exact (mem_replaceFirst replaced).2

theorem hasTrueLinks_replaceNode (old new : Slot) (links : store.HasTrueLinks) :
    (store.replaceNode old new).1.HasTrueLinks := by
  unfold replaceNode
  split
  · exact links
  · exact hasTrueLinks_replaceChild _ old new links

theorem hasTrueLinks_setStatements (container : Slot) (statements : List Slot)
    (links : store.HasTrueLinks) : (store.setStatements container statements).1.HasTrueLinks := by
  rcases setStatements_cases store container statements with
    same | ⟨id, shape, removed, changed, later, -, found, has, changes, result, reshapes⟩
  · rw [same]
    exact links
  · rw [result]
    have slots := Shape.slots_of_statements? has
    obtain ⟨after, -⟩ := Shape.slots_of_withStatements? changes
    refine reshapes.hasTrueLinks found (fun slot member => ?_) (fun slot member => ?_) links
    · rw [slots] at member
      rw [after]
      exact (List.mem_append.mp member).imp_left (List.mem_append_left _)
    · rw [after]
      exact List.mem_append_right _ member

theorem hasTrueLinks_splice (container : Slot) (place count : Nat) (new : List Slot)
    (links : store.HasTrueLinks) : (store.splice container place count new).1.HasTrueLinks := by
  rcases splice_cases store container place count new with
    same | ⟨id, shape, statements, changed, later, -, found, has, -, changes, result, reshapes⟩
  · rw [same]
    exact links
  · rw [result]
    have slots := Shape.slots_of_statements? has
    obtain ⟨after, -⟩ := Shape.slots_of_withStatements? changes
    refine reshapes.hasTrueLinks found (fun slot member => ?_) (fun slot member => ?_) links
    · have split : statements = statements.take place ++
          ((statements.drop place).take count ++ statements.drop (place + count)) := by
        rw [← List.drop_drop, List.take_append_drop, List.take_append_drop]
      rw [slots, split] at member
      rw [after]
      simp only [List.mem_append] at member ⊢
      tauto
    · rw [after]
      exact List.mem_append_right _ (List.mem_append_left _ (List.mem_append_right _ member))

theorem hasTrueLinks_replaceStatement (statement : Slot) (replacement : List Slot)
    (links : store.HasTrueLinks) :
    (store.replaceStatement statement replacement).1.HasTrueLinks := by
  unfold replaceStatement
  split
  · exact hasTrueLinks_splice _ _ _ _ links
  · exact links

theorem hasTrueLinks_insertBefore (statement : Slot) (inserted : List Slot)
    (links : store.HasTrueLinks) : (store.insertBefore statement inserted).1.HasTrueLinks := by
  unfold insertBefore
  split
  · exact hasTrueLinks_splice _ _ _ _ links
  · exact links

theorem hasTrueLinks_setDeclarations (slot : Slot) (declarations : List Slot)
    (links : store.HasTrueLinks) : (store.setDeclarations slot declarations).1.HasTrueLinks := by
  rcases setDeclarations_cases store slot declarations with
    same | ⟨id, isStatement, removed, later, -, found, result, reshapes⟩
  · rw [same]
    exact links
  · rw [result]
    exact reshapes.hasTrueLinks found (fun slot member => .inr member) (fun slot member => member)
      links

/-- A node with other content and the same children. -/
theorem hasTrueLinks_setShape (found : store.shape? (some id) = some old)
    (same : ∀ slot ∈ old.slots, slot ∈ shape.slots) (links : store.HasTrueLinks) :
    (store.setShape id shape).HasTrueLinks :=
  (reshapes_setShape_only (lt_size_of_shape? found) shape).hasTrueLinks found
    (fun slot member => .inl (same slot member)) (List.forall_mem_nil _) links

theorem hasTrueLinks_setText (slot : Slot) (text : String) (links : store.HasTrueLinks) :
    (store.setText slot text).1.HasTrueLinks := by
  unfold setText
  split
  · rename_i found
    exact hasTrueLinks_setShape found (fun _ member => member) links
  · exact links

theorem hasTrueLinks_setOperator (slot : Slot) (operator : TokenKind) (links : store.HasTrueLinks) :
    (store.setOperator slot operator).1.HasTrueLinks := by
  unfold setOperator
  split
  · rename_i found
    exact hasTrueLinks_setShape found (fun _ member => member) links
  · exact links

theorem hasTrueLinks_swapOperands (slot : Slot) (links : store.HasTrueLinks) :
    (store.swapOperands slot).1.HasTrueLinks := by
  unfold swapOperands
  split
  · rename_i id left operator right found
    refine hasTrueLinks_setShape found (fun slot member => ?_) links
    simp only [Shape.slots, List.mem_cons] at member ⊢
    tauto
  · exact links

/-! ## New nodes -/

/-- A new node adopts some of the children that it lists. -/
theorem hasTrueLinks_push (shape : Shape) (flags : Flags) (start stop : Nat)
    (listed : ∀ slot ∈ slots, slot ∈ shape.slots) (links : store.HasTrueLinks) :
    ((store.push shape flags start stop).1.setParents slots (some store.nodes.size)).HasTrueLinks := by
  intro child parent linked
  rw [parent_setParents, parent_push, push_size] at linked
  split at linked
  · rename_i come
    cases linked
    exact ⟨shape, by rw [shape?_setParents, shape?_push, if_pos rfl], listed _ come.1⟩
  · split at linked
    · cases linked
    · obtain ⟨other, there, inside⟩ := links child parent linked
      refine ⟨other, ?_, inside⟩
      rw [shape?_setParents, shape?_push, if_neg (Nat.ne_of_lt (lt_size_of_shape? there)), there]

theorem hasTrueLinks_add (shape : Shape) (flags : Flags) (start stop : Nat)
    (links : store.HasTrueLinks) : (store.add shape flags start stop).1.HasTrueLinks :=
  hasTrueLinks_push shape flags start stop (fun _ member => member) links

theorem hasTrueLinks_make (shape : Shape) (links : store.HasTrueLinks) :
    (store.make shape).1.HasTrueLinks :=
  hasTrueLinks_add shape _ _ _ links

theorem hasTrueLinks_copyTo (depth : Nat) (id : NodeId) (links : store.HasTrueLinks) :
    (store.copyTo depth id).1.HasTrueLinks := by
  induction depth generalizing store id with
  | zero => exact links
  | succ depth ih =>
    have children : ∀ (ids : List NodeId) (state : Store × List (NodeId × Slot)),
        state.1.HasTrueLinks → (copyChildren depth ids state).1.HasTrueLinks := by
      intro ids
      induction ids with
      | nil => exact fun _ links => links
      | cons first rest again => exact fun state links => again _ (ih first links)
    have copied := children (store.children id) (store, []) links
    rw [copyTo]
    simp only
    split
    · exact copied
    · refine hasTrueLinks_push _ _ _ _ (fun slot member => ?_) copied
      obtain ⟨child, visible, rfl⟩ := List.mem_map.mp member
      exact Shape.some_mem_slots_of_mem_children visible

theorem hasTrueLinks_copy (slot : Slot) (links : store.HasTrueLinks) :
    (store.copy slot).1.HasTrueLinks := by
  cases slot with
  | none => exact links
  | some id => exact hasTrueLinks_copyTo _ id links

theorem hasTrueLinks_copyAll (slots : List Slot) (links : store.HasTrueLinks) :
    (store.copyAll slots).1.HasTrueLinks := by
  have onto : ∀ state : Store × List Slot, state.1.HasTrueLinks →
      (copyOnto slots state).1.HasTrueLinks := by
    induction slots with
    | nil => exact fun _ links => links
    | cons slot rest ih => exact fun state links => ih _ (hasTrueLinks_copy slot links)
  exact onto (store, []) links

end Reshapes

end Store

end Unflatten

/-! ## Edits of two nodes in either order -/

namespace Unflatten

theorem modify_comm {α : Type} (xs : Array α) {i j : Nat} {f g : α → α}
    (apart : i ≠ j ∨ ∀ x, f (g x) = g (f x)) :
    (xs.modify i f).modify j g = (xs.modify j g).modify i f := by
  apply Array.ext_getElem?
  intro place
  simp only [Array.getElem?_modify]
  by_cases first : i = place
  · by_cases second : j = place
    · simp only [first, second, if_true, Option.map_map]
      have same := apart.resolve_left fun other => other (first.trans second.symm)
      congr 1
      funext x
      exact (same x).symm
    · simp [first, second]
  · by_cases second : j = place
    · simp [first, second]
    · simp [first, second]

namespace Store

section Commuting
variable (store : Store) {first second : NodeId} {child parent other : Slot}

theorem setShape_comm (apart : first ≠ second) (shape changed : Shape) :
    (store.setShape first shape).setShape second changed =
      (store.setShape second changed).setShape first shape := by
  exact congrArg Store.mk (modify_comm store.nodes (f := fun node => { node with shape := shape })
    (g := fun node => { node with shape := changed }) (.inl apart))

theorem setShape_setParent (id : NodeId) (shape : Shape) (child parent : Slot) :
    (store.setShape id shape).setParent child parent =
      (store.setParent child parent).setShape id shape := by
  cases child with
  | none => rfl
  | some child =>
    exact congrArg Store.mk (modify_comm store.nodes (f := fun node => { node with shape := shape })
      (g := fun node => { node with parent := parent }) (.inr fun _ => rfl))

theorem setParent_comm {left right : Slot} (apart : left ≠ right ∨ left = none)
    (parent above : Slot) : (store.setParent left parent).setParent right above =
      (store.setParent right above).setParent left parent := by
  cases left with
  | none => rfl
  | some left =>
    cases right with
    | none => rfl
    | some right =>
      have other : left ≠ right := fun same =>
        apart.elim (fun other => other (congrArg some same)) nofun
      exact congrArg Store.mk (modify_comm store.nodes (f := fun node => { node with parent := parent })
        (g := fun node => { node with parent := above }) (.inl other))

theorem release_setShape (id : NodeId) (shape : Shape) (child : Slot) (parent : NodeId) :
    (store.setShape id shape).release child parent =
      (store.release child parent).setShape id shape := by
  unfold release
  rw [parent_setShape]
  split
  · exact setShape_setParent store id shape child none
  · rfl

theorem release_setParent {left right : NodeId} (apart : left ≠ right) (above : Slot)
    (parent : NodeId) : (store.setParent (some left) above).release (some right) parent =
      (store.release (some right) parent).setParent (some left) above := by
  have same : (store.setParent (some left) above).parent (some right) = store.parent (some right) := by
    rw [parent_setParent, if_neg fun both => apart (Option.some.inj both.1)]
  rw [release, release, same]
  split
  · exact setParent_comm store (.inl fun same => apart (Option.some.inj same)) above none
  · rfl

variable {store}

/-- A statement can be put before another one first, or a child of that one be replaced first. -/
theorem insertBefore_replaceChild {statement container old new : NodeId} {inner : Slot} {place : Nat}
    {shape outer changed : Shape} {slots statements : List Slot}
    (position : store.position? (some statement) = some (container, place))
    (found : store.shape? (some statement) = some shape)
    (there : store.shape? (some container) = some outer)
    (listed : outer.statements? = some statements) (within : place ≤ statements.length)
    (changes : outer.withStatements?
      (statements.take place ++ [some new] ++ statements.drop (place + 0)) = some changed)
    (replaced : replaceFirst shape.slots (some old) inner = some slots)
    (apart : container ≠ statement) (notOld : new ≠ old) (notInner : some new ≠ inner)
    (still : (store.replaceChild (some statement) (some old) inner).1.position? (some statement) =
      some (container, place)) :
    (store.insertBefore (some statement) [some new]).1.replaceChild (some statement) (some old)
        inner =
      (((store.replaceChild (some statement) (some old) inner).1.insertBefore (some statement)
        [some new]).1, true) := by
  have inserts : ∀ {store : Store}, store.position? (some statement) = some (container, place) →
      store.shape? (some container) = some outer →
      (store.insertBefore (some statement) [some new]).1 =
        (store.setShape container changed).setParent (some new) (some container) := by
    intro store position there
    simp only [insertBefore, position, splice, there, listed, changes,
      if_neg (Nat.not_lt_of_le within)]
    rw [List.take_zero]
    rfl
  have replaces : ∀ {store : Store}, store.shape? (some statement) = some shape →
      store.replaceChild (some statement) (some old) inner =
        (((store.setShape statement (shape.withSlots slots)).release (some old) statement).setParent
          inner (some statement), true) := by
    intro store found
    simp only [replaceChild, found, replaced]
  have foundLater : ((store.setShape container changed).setParent (some new)
      (some container)).shape? (some statement) = some shape := by
    rw [shape?_setParent, shape?_setShape, if_neg fun both => apart both.1, found]
  have thereLater : (store.replaceChild (some statement) (some old) inner).1.shape?
      (some container) = some outer := by
    rw [replaces found, shape?_setParent, shape?_release, shape?_setShape,
      if_neg fun both => apart both.1.symm, there]
  rw [inserts position there, replaces foundLater, inserts still thereLater, replaces found]
  rw [← setShape_setParent, setShape_comm store apart, release_setParent _ notOld,
    release_setShape, setParent_comm _ (.inl notInner), setShape_setParent]

end Commuting

end Store

end Unflatten
