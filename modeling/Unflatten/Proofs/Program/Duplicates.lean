import Unflatten.Proofs.Program.Edits

/-! # Copies stand apart

A copy of a tree mirrors it node by node (`Store.Mirrors`): same kind, same content, same stretch
of the source, and the mark of a synthesized node.  Neither tree has a slot that leads into the
other, so whatever is changed without handling a node of one of them leaves that one as it is
(`Store.IsClosed.changes`). -/

set_option autoImplicit false

namespace Unflatten

namespace Store

/-! ## What a node holds -/

/-- The node of a slot without its link. -/
def content? (store : Store) (slot : Slot) : Option Node :=
  (store.node? slot).map fun node => { node with parent := none }

section Content
variable {store later : Store} {id : NodeId} {node : Node} {slot : Slot}

theorem content?_eq_some : store.content? slot = some node ↔
    ∃ held, store.node? slot = some held ∧ { held with parent := none } = node :=
  Option.map_eq_some_iff

theorem shape?_eq_content? (store : Store) (slot : Slot) :
    store.shape? slot = (store.content? slot).map (·.shape) := by
  unfold shape? content?
  rw [Option.map_map]
  rfl

theorem node?_eq_content? (store : Store) (slot : Slot) :
    store.node? slot = (store.content? slot).map fun node => { node with parent := store.parent slot } := by
  unfold content? parent
  cases store.node? slot <;> rfl

theorem content?_setParent (store : Store) (child parent slot : Slot) :
    (store.setParent child parent).content? slot = store.content? slot := by
  cases child with
  | none => rfl
  | some child =>
    cases slot with
    | none => rfl
    | some id =>
      simp only [content?, node?, setParent, Option.bind_some, Array.getElem?_modify]
      split
      · cases store.nodes[id]? <;> rfl
      · rfl

theorem content?_setParents (store : Store) (slots : List Slot) (parent slot : Slot) :
    (store.setParents slots parent).content? slot = store.content? slot := by
  unfold setParents
  induction slots generalizing store with
  | nil => rfl
  | cons first rest ih => rw [List.foldl_cons, ih, content?_setParent]

theorem content?_releaseAll (store : Store) (removed : List Slot) (parent : NodeId) (slot : Slot) :
    (store.releaseAll removed parent).content? slot = store.content? slot := by
  unfold releaseAll
  induction removed generalizing store with
  | nil => rfl
  | cons first rest ih =>
    rw [List.foldl_cons, ih]
    unfold release
    split
    · exact content?_setParent _ _ _ _
    · rfl

theorem content?_setShape (store : Store) {changed : NodeId} (shape : Shape) (other : changed ≠ id) :
    (store.setShape changed shape).content? (some id) = store.content? (some id) := by
  simp only [content?, node?, setShape, Option.bind_some, Array.getElem?_modify, if_neg other]

theorem content?_push (store : Store) (shape : Shape) (flags : Flags) (start stop : Nat) (id : NodeId) :
    (store.push shape flags start stop).1.content? (some id) =
      if id = store.nodes.size then some ⟨shape, flags, start, stop, none⟩
      else store.content? (some id) := by
  simp only [content?, node?, push, Option.bind_some, Array.getElem?_push]
  split <;> rfl

theorem Sustains.content? (sustains : Sustains store later) (old : id < store.nodes.size) :
    later.content? (some id) = store.content? (some id) := by
  have same := sustains id (Nat.not_le_of_lt old)
  simp only [Store.content?, node?, Option.bind_some]
  rw [same]

theorem lt_size_of_content? (found : store.content? (some id) = some node) :
    id < store.nodes.size := by
  have shaped : store.shape? (some id) = some node.shape := by
    rw [shape?_eq_content?, found, Option.map_some]
  exact lt_size_of_shape? shaped

end Content

/-! ## Node by node -/

/-- The two slots are both empty, or their nodes are the same but for their names and the mark of
a synthesized node, and so are the nodes in their slots, one by one. -/
inductive Mirrors (store : Store) : Slot → Slot → Prop
  | nothing : Mirrors store none none
  | node {id copy : NodeId} {node made : Node} (found : store.content? (some id) = some node)
      (there : store.content? (some copy) = some made)
      (shape : made.shape.withSlots [] = node.shape.withSlots [])
      (flags : made.flags = { node.flags with synthesized := true })
      (start : made.start = node.start) (stop : made.stop = node.stop)
      (length : made.shape.slots.length = node.shape.slots.length)
      (slots : ∀ pair ∈ node.shape.slots.zip made.shape.slots, Mirrors store pair.1 pair.2) :
      Mirrors store (some id) (some copy)

section Mirrors
variable {store later : Store} {id copy : NodeId} {slot made : Slot} {depth : Nat}

theorem Mirrors.mono (mirrors : store.Mirrors slot made)
    (kept : ∀ id, id < store.nodes.size → later.content? (some id) = store.content? (some id)) :
    later.Mirrors slot made := by
  induction mirrors with
  | nothing => exact .nothing
  | node found there shape flags start stop length _ ih =>
    exact .node ((kept _ (lt_size_of_content? found)).trans found)
      ((kept _ (lt_size_of_content? there)).trans there) shape flags start stop length ih

/-- Children that have been copied one after the other, each with its copy. -/
structure MirrorsAll (store later : Store) (ids : List NodeId) (copies : List (NodeId × Slot)) :
    Prop where
  sustains : Sustains store later
  mirrored : ∀ pair ∈ copies, later.Mirrors (some pair.1) pair.2
  all : ∀ id ∈ ids, ∃ slot, (id, slot) ∈ copies

theorem copyChildren_mirrors {ids done : List NodeId} {copies : List (NodeId × Slot)}
    (each : ∀ id ∈ ids, ∀ later, Sustains store later →
      (later.copyTo depth id).1.Mirrors (some id) (later.copyTo depth id).2)
    (before : MirrorsAll store later done copies) :
    MirrorsAll store (copyChildren depth ids (later, copies)).1 (done ++ ids)
      (copyChildren depth ids (later, copies)).2 := by
  induction ids generalizing later copies done with
  | nil =>
    rw [List.append_nil]
    exact before
  | cons id rest ih =>
    have sustains := (copyTo_sustains later depth id).1
    have next : MirrorsAll store (later.copyTo depth id).1 (done ++ [id])
        ((id, (later.copyTo depth id).2) :: copies) := by
      refine ⟨before.sustains.trans sustains, fun pair member => ?_, fun other member => ?_⟩
      · rcases List.mem_cons.mp member with rfl | old
        · exact each id List.mem_cons_self later before.sustains
        · exact (before.mirrored pair old).mono fun id bound => sustains.content? bound
      · rcases List.mem_append.mp member with old | here
        · obtain ⟨slot, listed⟩ := before.all other old
          exact ⟨slot, List.mem_cons_of_mem _ listed⟩
        · rw [List.mem_singleton.mp here]
          exact ⟨_, List.mem_cons_self⟩
    rw [List.append_cons]
    exact ih (fun other member => each other (List.mem_cons_of_mem id member)) next

/-- A copied child has a mirrored copy. -/
theorem MirrorsAll.renameSlot {ids : List NodeId} {copies : List (NodeId × Slot)}
    (mirrored : MirrorsAll store later ids copies) (member : id ∈ ids) :
    later.Mirrors (some id) (Store.renameSlot copies (some id)) := by
  obtain ⟨slot, listed⟩ := mirrored.all id member
  rw [Store.renameSlot, Option.bind_some]
  cases looked : copies.lookup id with
  | none => simpa using List.lookup_eq_none_iff.mp looked (id, slot) listed
  | some found => exact mirrored.mirrored _ (mem_of_lookup looked)

theorem copyTo_mirrors {tree : Tree} (unfolds : store.UnfoldsTo tree) (rooted : tree.root = some id)
    (deep : tree.height ≤ depth) :
    (store.copyTo depth id).1.Mirrors (some id) (store.copyTo depth id).2 := by
  induction depth generalizing store tree id with
  | zero =>
    cases tree with
    | nothing => cases rooted
    | node => exact absurd deep (Nat.not_succ_le_zero _)
  | succ depth ih =>
    cases unfolds with
    | nothing => cases rooted
    | @node name shape below found regular roots inner =>
      cases rooted
      have children : ∀ child ∈ shape.children, ∃ tree ∈ below, tree.root = some child := by
        intro child member
        have listed := regular.mem_iff.mp member
        rw [roots, List.filterMap_map] at listed
        exact List.mem_filterMap.mp listed
      have mirrored := @copyChildren_mirrors store store depth shape.children [] []
        (fun child member later sustains => by
          obtain ⟨tree, there, root⟩ := children child member
          have kept : later.UnfoldsTo tree := by
            have whole := inner tree there
            clear root there
            induction whole with
            | nothing => exact .nothing
            | node found regular roots _ again =>
              exact .node (sustains.shape? found) regular roots again
          exact ih kept root (Nat.lt_succ_iff.mp (Nat.lt_of_lt_of_le (Tree.height_lt_node there) deep)))
        ⟨.refl store, List.forall_mem_nil _, List.forall_mem_nil _⟩
      generalize folded : copyChildren depth shape.children (store, []) = result at mirrored
      obtain ⟨later, copies⟩ := result
      obtain ⟨node, there, same⟩ := Option.map_eq_some_iff.mp (mirrored.sustains.shape? found)
      rw [copyTo_node store later depth id found folded there same]
      generalize renamed : shape.withSlots (shape.slots.map (Store.renameSlot copies)) = made
      have slots : made.slots = shape.slots.map (Store.renameSlot copies) := by
        rw [← renamed, Shape.slots_withSlots _ _ (List.length_map _)]
      have content : ∀ id, id < later.nodes.size →
          (((later.push made { node.flags with synthesized := true } node.start node.stop).1.setParents
            (made.children.map some) (some later.nodes.size)).content? (some id)) =
            later.content? (some id) := by
        intro id bound
        rw [content?_setParents, content?_push, if_neg (Nat.ne_of_lt bound)]
      have bound : id < later.nodes.size :=
        Nat.lt_of_lt_of_le (lt_size_of_shape? found) mirrored.sustains.size
      refine @Mirrors.node _ _ _ { node with parent := none }
        ⟨made, { node.flags with synthesized := true }, node.start, node.stop, none⟩
        ?_ ?_ ?_ rfl rfl rfl ?_ ?_
      · rw [content id bound]
        exact content?_eq_some.mpr ⟨node, there, rfl⟩
      · rw [content?_setParents, content?_push, if_pos rfl]
      · change made.withSlots [] = node.shape.withSlots []
        rw [← renamed, same, Shape.withSlots_withSlots]
      · change made.slots.length = node.shape.slots.length
        rw [slots, same, List.length_map]
      · intro pair member
        change pair ∈ node.shape.slots.zip made.slots at member
        rw [slots, same, ← List.map_prod_left_eq_zip] at member
        obtain ⟨slot, inside, rfl⟩ := List.mem_map.mp member
        cases slot with
        | none => exact .nothing
        | some child =>
          have visible : child ∈ shape.children :=
            regular.mem_iff.mpr (List.mem_filterMap.mpr ⟨_, inside, rfl⟩)
          exact (mirrored.renameSlot visible).mono content

end Mirrors

/-! ## Nodes that are left alone -/

/-- Some nodes stay as they are.  At most a link to another node is gone, if that one is among the
slots that were handled. -/
structure Stays (names : List NodeId) (handled : List Slot) (store later : Store) : Prop where
  content : ∀ id ∈ names, later.content? (some id) = store.content? (some id)
  link : ∀ id ∈ names, later.parent (some id) = store.parent (some id) ∨
    later.parent (some id) = none ∧
      ∃ above, above ∉ names ∧ store.parent (some id) = some above ∧ some above ∈ handled

section Stays
variable {store middle later : Store} {names : List NodeId} {handled new removed : List Slot}
  {id : NodeId} {shape : Shape}

theorem IsClosed.lt_size (closed : store.IsClosed names) (member : id ∈ names) :
    id < store.nodes.size := by
  obtain ⟨shape, found, -⟩ := closed id member
  exact lt_size_of_shape? found

/-- The children of a node among the closed ones are among them. -/
theorem IsClosed.slot_mem (closed : store.IsClosed names) {child : NodeId} (member : id ∈ names)
    (found : store.shape? (some id) = some shape) (listed : some child ∈ shape.slots) :
    child ∈ names := by
  obtain ⟨other, there, -, inside⟩ := closed id member
  cases found.symm.trans there
  exact inside child listed

theorem Stays.refl (names : List NodeId) (handled : List Slot) (store : Store) :
    Stays names handled store store :=
  ⟨fun _ _ => rfl, fun _ _ => .inl rfl⟩

theorem Stays.trans (one : Stays names handled store middle) (two : Stays names handled middle later) :
    Stays names handled store later := by
  refine ⟨fun id member => (two.content id member).trans (one.content id member), fun id member => ?_⟩
  rcases one.link id member with same | ⟨gone, led⟩
  · rw [← same]
    exact two.link id member
  · refine .inr ⟨?_, led⟩
    rcases two.link id member with same | ⟨still, -⟩
    · rw [same, gone]
    · exact still

theorem Stays.mono (stays : Stays names handled store later) (more : handled ⊆ new) :
    Stays names new store later :=
  ⟨stays.content, fun id member => (stays.link id member).imp_right fun ⟨gone, above, outside, led, listed⟩ =>
    ⟨gone, above, outside, led, more listed⟩⟩

theorem Stays.isClosed (stays : Stays names handled store later) (closed : store.IsClosed names) :
    later.IsClosed names := by
  intro id member
  obtain ⟨shape, found, inside⟩ := closed id member
  refine ⟨shape, ?_, inside⟩
  rw [shape?_eq_content?, stays.content id member, ← shape?_eq_content?, found]

theorem Sustains.stays (sustains : Sustains store later) (closed : store.IsClosed names) :
    Stays names handled store later := by
  refine ⟨fun id member => sustains.content? (closed.lt_size member), fun id member => .inl ?_⟩
  have same := sustains id (Nat.not_le_of_lt (closed.lt_size member))
  simp only [Store.parent, node?, Option.bind_some]
  rw [same]

/-- Nodes whose links lead nowhere else stay as they are altogether. -/
theorem Stays.node?_eq (stays : Stays names handled store later)
    (links : ∀ id ∈ names, ∀ above, store.parent (some id) = some above → above ∈ names)
    (member : id ∈ names) : later.node? (some id) = store.node? (some id) := by
  have linked : later.parent (some id) = store.parent (some id) := by
    rcases stays.link id member with same | ⟨-, above, outside, led, -⟩
    · exact same
    · exact absurd (links id member above led) outside
  rw [node?_eq_content?, stays.content id member, linked, ← node?_eq_content?]

/-! ## One change -/

/-- A node beside them gets another shape and other children. -/
theorem stays_reshape (outside : id ∉ names) (others : ∀ child ∈ names, some child ∉ new)
    (released : ∀ child ∈ names, some child ∈ removed → some id ∈ handled) :
    Stays names handled store
      (((store.setShape id shape).releaseAll removed id).setParents new (some id)) := by
  refine ⟨fun child member => ?_, fun child member => ?_⟩
  · have other : id ≠ child := fun same => outside (same ▸ member)
    rw [content?_setParents, content?_releaseAll, content?_setShape _ _ other]
  · rw [parent_setParents, if_neg fun both => others child member both.1, parent_releaseAll,
      parent_setShape]
    split
    · rename_i gone
      exact .inr ⟨rfl, id, outside, gone.2, released child member gone.1⟩
    · exact .inl rfl

theorem stays_setShape (outside : id ∉ names) : Stays names handled store (store.setShape id shape) :=
  @stays_reshape store names handled [] [] id shape outside (fun _ _ => List.not_mem_nil)
    fun _ _ listed => absurd listed List.not_mem_nil

theorem stays_setParent {child parent : Slot} (other : ∀ id ∈ names, some id ≠ child) :
    Stays names handled store (store.setParent child parent) := by
  refine ⟨fun id _ => content?_setParent _ _ _ _, fun id member => .inl ?_⟩
  rw [parent_setParent, if_neg fun both => other id member both.1.symm]

theorem stays_add (closed : store.IsClosed names) (flags : Flags) (start stop : Nat)
    (others : ∀ child ∈ names, some child ∉ shape.slots) :
    Stays names handled store (store.add shape flags start stop).1 := by
  refine ⟨fun id member => ?_, fun id member => .inl ?_⟩
  · unfold add
    rw [content?_setParents, content?_push, if_neg (Nat.ne_of_lt (closed.lt_size member))]
  · rw [parent_add _ _ _ _ _ _ (closed.lt_size member), if_neg (others id member)]

theorem stays_replaceChild {parent old new : Slot} (outside : ∀ id ∈ names, some id ≠ parent)
    (left : ∀ id ∈ names, some id ≠ old) (other : ∀ id ∈ names, some id ≠ new) :
    Stays names handled store (store.replaceChild parent old new).1 := by
  unfold replaceChild
  split
  · split
    · exact @stays_reshape store names handled [new] [old] _ _ (fun member => outside _ member rfl)
        (fun child member listed => other child member (List.mem_singleton.mp listed))
        fun child member listed => absurd (List.mem_singleton.mp listed) (left child member)
    · exact .refl _ _ _
  · exact .refl _ _ _

/-- A node that is exchanged has no parent among those that are left alone. -/
theorem IsClosed.stays_replaceNode (closed : store.IsClosed names) {old new : Slot}
    (left : ∀ id ∈ names, some id ≠ old) (other : ∀ id ∈ names, some id ≠ new) :
    Stays names handled store (store.replaceNode old new).1 := by
  unfold replaceNode
  split
  · exact .refl _ _ _
  · rename_i above linked
    by_cases inside : above ∈ names
    · -- a link that is not true
      rcases replaceChild_cases store (some above) old new with
        same | ⟨id, shape, slots, -, same, found, replaced, -⟩
      · rw [same]
        exact .refl _ _ _
      · cases same
        obtain ⟨front, back, before, -⟩ := exists_middle_of_replaceFirst replaced
        have listed : old ∈ shape.slots := by
          rw [before]
          exact List.mem_append_right _ List.mem_cons_self
        cases old with
        | none => cases linked
        | some child => exact absurd rfl (left child (closed.slot_mem inside found listed))
    · exact stays_replaceChild (fun id member same => inside (by cases same; exact member)) left other

theorem stays_setStatements {container : Slot} {statements : List Slot}
    (outside : ∀ id ∈ names, some id ≠ container) (others : ∀ id ∈ names, some id ∉ statements)
    (listed : container ∈ handled) :
    Stays names handled store (store.setStatements container statements).1 := by
  unfold setStatements
  split
  · split
    · exact stays_reshape (fun member => outside _ member rfl) others fun _ _ _ => listed
    · exact .refl _ _ _
  · exact .refl _ _ _

theorem stays_splice {container place count : NodeId} (outside : container ∉ names)
    (others : ∀ id ∈ names, some id ∉ new)
    (released : ∀ slots, store.statements? (some container) = some slots →
      ∀ id ∈ names, some id ∈ (slots.drop place).take count → some container ∈ handled) :
    Stays names handled store (store.splice (some container) place count new).1 := by
  rcases splice_cases store (some container) place count new with
    same | ⟨id, shape, slots, changed, later, same, found, has, within, changes, result, -⟩
  · rw [same]
    exact .refl _ _ _
  · cases same
    simp only [splice, found, has, changes, if_neg (Nat.not_lt_of_le within)]
    refine stays_reshape outside others (released slots ?_)
    rw [statements?, found, Option.bind_some, has]

/-- The container of a statement is not among those that are left alone. -/
theorem IsClosed.container_not_mem (closed : store.IsClosed names) {statement : Slot}
    {container place : NodeId} (stands : store.position? statement = some (container, place))
    (left : ∀ id ∈ names, some id ≠ statement) : container ∉ names := by
  intro inside
  obtain ⟨linked, shape, slots, found, has, there⟩ := getElem?_of_position? stands
  cases statement with
  | none => cases linked
  | some child =>
    have listed := Shape.statements?_subset has (List.mem_of_getElem? there)
    exact left child (closed.slot_mem inside found listed) rfl

/-- Other statements come in the place of one, or before it. -/
theorem IsClosed.stays_splice_position (closed : store.IsClosed names) {statement : Slot}
    {container place count : NodeId} (stands : store.position? statement = some (container, place))
    (short : count ≤ 1) (left : ∀ id ∈ names, some id ≠ statement)
    (others : ∀ id ∈ names, some id ∉ new) :
    Stays names handled store (store.splice (some container) place count new).1 := by
  refine stays_splice (closed.container_not_mem stands left) others
    fun slots has id member gone => absurd ?_ (left id member)
  obtain ⟨-, shape, listed, found, stated, there⟩ := getElem?_of_position? stands
  rw [statements?, found, Option.bind_some, stated] at has
  cases has
  have only : some id ∈ (slots.drop place).take 1 := List.take_subset_take_left _ short gone
  rw [List.drop_eq_getElem_cons (List.getElem?_eq_some_iff.mp there).1] at only
  rw [List.take_succ_cons, List.take_zero, List.mem_singleton,
    (List.getElem?_eq_some_iff.mp there).2] at only
  exact only

end Stays

end Store

/-- The slots that an edit takes. -/
def Edit.handled : Edit → List Slot
  | .create shape _ _ _ _ => shape.slots
  | .copy _ => []
  | .replaceChild parent old new => [parent, some old, new]
  | .replaceNode old new => [old, new]
  | .setStatements container statements => container :: statements
  | .splice container _ _ inserted => container :: inserted
  | .replaceStatement statement replacement => statement :: replacement
  | .insertBefore statement inserted => statement :: inserted
  | .setDeclarations slot declarations => slot :: declarations
  | .setElse slot elseBody => [slot, elseBody]
  | .swapOperands slot | .setOperator slot _ | .setText slot _ => [slot]

/-- Any change of a store: an edit, or one that may leave behind what no edit does, that is slots
beside the children and links that are not true. -/
inductive Change where
  | edit (edit : Edit)
  | add (shape : Shape) (flags : Flags) (start stop : Nat)
  /-- Something comes into the first empty slot. -/
  | fill (parent new : Slot)
  | adopt (child parent : Slot)

/-- The slots that a change takes.  A node that is copied or becomes a parent is as before. -/
def Change.handled : Change → List Slot
  | .edit made => made.handled
  | .add shape _ _ _ => shape.slots
  | .fill parent new => [parent, new]
  | .adopt child _ => [child]

namespace Store

/-- The store after a change. -/
def change (store : Store) : Change → Store
  | .edit edit => store.edit edit
  | .add shape flags start stop => (store.add shape flags start stop).1
  | .fill parent new => (store.replaceChild parent none new).1
  | .adopt child parent => store.setParent child parent

section Change
variable {store later : Store} {names : List NodeId} {tree : Tree}

theorem IsClosed.stays_edit (closed : store.IsClosed names) {edit : Edit}
    (other : ∀ id ∈ names, some id ∉ edit.handled) :
    Stays names edit.handled store (store.edit edit) := by
  cases edit with
  | create shape _ flags start stop => exact stays_add closed flags start stop other
  | copy slot => exact (copy_sustains store slot).stays closed
  | replaceChild parent old new =>
    simp only [Edit.handled, List.mem_cons, List.not_mem_nil, or_false, not_or] at other
    exact stays_replaceChild (fun id member => (other id member).1)
      (fun id member => (other id member).2.1) fun id member => (other id member).2.2
  | replaceNode old new =>
    simp only [Edit.handled, List.mem_cons, List.not_mem_nil, or_false, not_or] at other
    exact closed.stays_replaceNode (fun id member => (other id member).1)
      fun id member => (other id member).2
  | setStatements container statements =>
    simp only [Edit.handled, List.mem_cons, not_or] at other
    exact stays_setStatements (fun id member => (other id member).1)
      (fun id member => (other id member).2) List.mem_cons_self
  | splice container place count inserted =>
    simp only [Edit.handled, List.mem_cons, not_or] at other
    cases container with
    | none => exact .refl _ _ _
    | some container =>
      exact stays_splice (fun member => (other container member).1 rfl)
        (fun id member => (other id member).2) fun _ _ _ _ _ => List.mem_cons_self
  | replaceStatement statement replacement =>
    simp only [Edit.handled, List.mem_cons, not_or] at other
    change Stays names _ store (store.replaceStatement statement replacement).1
    unfold replaceStatement
    split
    · exact closed.stays_splice_position ‹_› (Nat.le_refl 1) (fun id member => (other id member).1)
        fun id member => (other id member).2
    · exact .refl _ _ _
  | insertBefore statement inserted =>
    simp only [Edit.handled, List.mem_cons, not_or] at other
    change Stays names _ store (store.insertBefore statement inserted).1
    unfold insertBefore
    split
    · exact closed.stays_splice_position ‹_› (Nat.zero_le 1) (fun id member => (other id member).1)
        fun id member => (other id member).2
    · exact .refl _ _ _
  | setDeclarations slot declarations =>
    simp only [Edit.handled, List.mem_cons, not_or] at other
    change Stays names _ store (store.setDeclarations slot declarations).1
    unfold setDeclarations
    split
    · exact stays_reshape (fun member => (other _ member).1 rfl) (fun id member => (other id member).2)
        fun _ _ _ => List.mem_cons_self
    · exact .refl _ _ _
  | setElse slot elseBody =>
    simp only [Edit.handled, List.mem_cons, List.not_mem_nil, or_false, not_or] at other
    change Stays names _ store (store.setElse slot elseBody).1
    unfold setElse
    split
    · exact @stays_reshape store names _ [elseBody] [_] _ _ (fun member => (other _ member).1 rfl)
        (fun id member listed => (other id member).2 (List.mem_singleton.mp listed))
        fun _ _ _ => List.mem_cons_self
    · exact .refl _ _ _
  | swapOperands slot =>
    change Stays names _ store (store.swapOperands slot).1
    unfold swapOperands
    split
    · exact stays_setShape fun member => other _ member (List.mem_singleton.mpr rfl)
    · exact .refl _ _ _
  | setOperator slot operator =>
    change Stays names _ store (store.setOperator slot operator).1
    unfold setOperator
    split
    · exact stays_setShape fun member => other _ member (List.mem_singleton.mpr rfl)
    · exact .refl _ _ _
  | setText slot text =>
    change Stays names _ store (store.setText slot text).1
    unfold setText
    split
    · exact stays_setShape fun member => other _ member (List.mem_singleton.mpr rfl)
    · exact .refl _ _ _

theorem IsClosed.stays_change (closed : store.IsClosed names) {change : Change}
    (other : ∀ id ∈ names, some id ∉ change.handled) :
    Stays names change.handled store (store.change change) := by
  cases change with
  | edit edit => exact closed.stays_edit other
  | add shape flags start stop => exact stays_add closed flags start stop other
  | fill parent new =>
    simp only [Change.handled, List.mem_cons, List.not_mem_nil, or_false, not_or] at other
    exact stays_replaceChild (fun id member => (other id member).1) (fun _ _ => nofun)
      fun id member => (other id member).2
  | adopt child parent =>
    exact stays_setParent fun id member same => other id member (List.mem_singleton.mpr same)

/-- What no change takes stays as it is. -/
theorem IsClosed.changes (closed : store.IsClosed names) (changes : List Change)
    (other : ∀ id ∈ names, some id ∉ changes.flatMap Change.handled) :
    Stays names (changes.flatMap Change.handled) store (changes.foldl change store) := by
  induction changes generalizing store with
  | nil => exact .refl _ _ _
  | cons first rest ih =>
    rw [List.flatMap_cons] at other ⊢
    have step := closed.stays_change fun id member listed =>
      other id member (List.mem_append_left _ listed)
    have run := ih (step.isClosed closed) fun id member listed =>
      other id member (List.mem_append_right _ listed)
    exact (step.mono (List.subset_append_left _ _)).trans (run.mono (List.subset_append_right _ _))

end Change

/-! ## The copy and the original -/

section Copy
variable {store : Store} {tree copied : Tree} {id : NodeId} {shape : Shape}

/-- The links of a tree lead through the tree if its root has none. -/
theorem Holds.parent_inside (holds : store.Holds tree) (free : store.parent tree.root = none)
    (inside : id ∈ tree.names) {above : NodeId} (led : store.parent (some id) = some above) :
    above ∈ tree.names := by
  cases tree with
  | nothing => cases inside
  | node root shape below =>
    rcases List.mem_cons.mp inside with rfl | deeper
    · cases led.symm.trans free
    · obtain ⟨parent, member, linked⟩ := holds.parent_mem deeper
      cases led.symm.trans linked
      exact member

/-- A copy that is a tree has no parent. -/
theorem copy_parent (found : store.shape? (some id) = some shape)
    (held : (store.copy (some id)).1.Holds copied)
    (rooted : copied.root = (store.copy (some id)).2) (nodup : copied.names.Nodup) :
    (store.copy (some id)).1.parent copied.root = none := by
  have children := @copyChildren_copiesOf store store store.nodes.size shape.children []
    (fun store id => copyTo_sustains store _ id) []
    ⟨.refl store, List.forall_mem_nil _, List.forall_mem_nil _⟩
  generalize folded : copyChildren store.nodes.size shape.children (store, []) = result at children
  obtain ⟨later, copies⟩ := result
  obtain ⟨flags, start, stop, made⟩ :=
    copyTo_succ store later store.nodes.size id found folded (children.sustains.shape? found)
  change store.copy (some id) = _ at made
  generalize shape.withSlots (shape.slots.map (renameSlot copies)) = top at made
  rw [made] at held rooted ⊢
  -- the root of the copy is none of its own children
  have apart : some later.nodes.size ∉ top.children.map some := by
    intro listed
    have slot := Shape.some_mem_slots_of_mem_children
      ((List.mem_map_of_injective (Option.some_injective _)).mp listed)
    cases held with
    | nothing => cases rooted
    | node there _ roots _ _ =>
      cases rooted
      rw [shape?_setParents, shape?_push, if_pos rfl] at there
      cases there
      rw [roots] at slot
      obtain ⟨part, member, same⟩ := List.mem_map.mp slot
      exact (List.nodup_cons.mp nodup).1
        (Tree.mem_namesAll.mpr ⟨part, member, Tree.mem_names_root same⟩)
  rw [rooted, parent_setParents, if_neg fun both => apart both.1, parent_push, if_pos rfl]

/-- A tree, by its slots, can be copied whatever its links are.  The copy mirrors it node by node,
is a tree of new nodes, with links to match and no parent, and no node that was there is changed.
Later changes that take no node of the one of the two leave it as it is, with no link but one to a
node that they take cleared; the copy stays altogether. -/
theorem copy_apart (unfolds : store.UnfoldsTo tree) (nodup : tree.names.Nodup)
    (rooted : tree.root = some id) :
    let later := (store.copy (some id)).1
    (∀ old < store.nodes.size, later.nodes[old]? = store.nodes[old]?) ∧
      later.Mirrors (some id) (store.copy (some id)).2 ∧
      ∃ copied, copied.root = (store.copy (some id)).2 ∧ later.Holds copied ∧
        copied.names.Nodup ∧ (∀ new ∈ copied.names, store.nodes.size ≤ new) ∧
        later.parent copied.root = none ∧
        ∀ changes : List Change,
          ((∀ inside ∈ tree.names, some inside ∉ changes.flatMap Change.handled) →
            Stays tree.names (changes.flatMap Change.handled) later (changes.foldl change later)) ∧
          ((∀ new ∈ copied.names, some new ∉ changes.flatMap Change.handled) →
            ∀ new ∈ copied.names, (changes.foldl change later).nodes[new]? = later.nodes[new]?) := by
  intro later
  obtain ⟨copied, grown, isCopy, same⟩ := copy_unfolded unfolds rooted nodup
  have deep : tree.height ≤ store.depthBound := Nat.le_succ_of_le (unfolds.height_le nodup)
  have free : later.parent copied.root = none := by
    cases unfolds with
    | nothing => cases rooted
    | node found =>
      cases rooted
      exact copy_parent found isCopy.holds same.symm isCopy.nodup
  refine ⟨fun old bound => copy_sustains store (some id) old (Nat.not_le_of_lt bound),
    copyTo_mirrors unfolds rooted deep, copied, same.symm, isCopy.holds, isCopy.nodup, isCopy.fresh,
    free, fun changes => ⟨fun other => ?_, fun other new member => ?_⟩⟩
  · exact (grown.unfoldsTo unfolds).isClosed.changes changes other
  · have stays := isCopy.holds.isClosed.changes changes other
    exact stays.node?_eq (fun inside there above led => isCopy.holds.parent_inside free there led) member

/-- A statement `x = 1;` in a block. -/
def assignedOnce : Store := ⟨#[
  ⟨.block [some 1], .none, 0, 8, none⟩,
  ⟨.expressionStatement (some 2), .none, 1, 7, some 0⟩,
  ⟨.binary (some 3) .equals (some 4), .none, 1, 6, some 1⟩,
  ⟨.identifier "x", .none, 1, 2, some 2⟩,
  ⟨.literal .number "1" (some 1.0), .none, 5, 6, some 2⟩]⟩

/-- The copy of the statement assigns to another name and moves into the block. -/
theorem assigned_once_apart :
    let later := (assignedOnce.copy (some 1)).1
    let changes : List Change := [.edit (.setText (some 5) "y"), .edit (.setStatements (some 0) [some 8])]
    later.Mirrors (some 1) (some 8) ∧ later.parent (some 8) = none ∧
      Stays [1, 2, 3, 4] (changes.flatMap Change.handled) later (changes.foldl change later) := by
  intro later changes
  have held := @treeAt_isGrown assignedOnce 4 (some 1) (by decide)
  obtain ⟨-, mirrors, copied, root, -, -, -, free, apart⟩ :=
    copy_apart held.1.unfoldsTo (by decide) held.2
  rw [root] at free
  exact ⟨mirrors, free, (apart changes).1 (by decide)⟩

end Copy

end Store

end Unflatten
