import Unflatten.Proofs.Parser.Grammar

/-! # Parent links after any edits

A parsed program may be edited in any way: nodes are made and copied, slots filled anew, and lists
exchanged (`Edit`), also with nodes that stand elsewhere, that stand twice or that are nowhere.  A
parent link still leads to a node that has the child among its children (`edits_keep_links`), so
whoever climbs to a root was below it. -/

set_option autoImplicit false

namespace Unflatten

/-- A change of a store.  Whatever is put in may be nothing, and may stand in other places. -/
inductive Edit where
  /-- A new node, all of whose slots are children: no `while` or `do` loop with an initializer. -/
  | create (shape : Shape) (regular : shape.IsRegular) (flags : Flags) (start stop : Nat)
  | copy (slot : Slot)
  | replaceChild (parent : Slot) (old : NodeId) (new : Slot)
  | replaceNode (old new : Slot)
  | setStatements (container : Slot) (statements : List Slot)
  | splice (container : Slot) (place count : Nat) (inserted : List Slot)
  | replaceStatement (statement : Slot) (replacement : List Slot)
  | insertBefore (statement : Slot) (inserted : List Slot)
  | setDeclarations (slot : Slot) (declarations : List Slot)
  | setElse (slot elseBody : Slot)
  | swapOperands (slot : Slot)
  | setOperator (slot : Slot) (operator : TokenKind)
  | setText (slot : Slot) (text : String)

namespace Store

/-- The store after an edit. -/
def edit (store : Store) : Edit → Store
  | .create shape _ flags start stop => (store.add shape flags start stop).1
  | .copy slot => (store.copy slot).1
  | .replaceChild parent old new => (store.replaceChild parent (some old) new).1
  | .replaceNode old new => (store.replaceNode old new).1
  | .setStatements container statements => (store.setStatements container statements).1
  | .splice container place count inserted => (store.splice container place count inserted).1
  | .replaceStatement statement replacement => (store.replaceStatement statement replacement).1
  | .insertBefore statement inserted => (store.insertBefore statement inserted).1
  | .setDeclarations slot declarations => (store.setDeclarations slot declarations).1
  | .setElse slot elseBody => (store.setElse slot elseBody).1
  | .swapOperands slot => (store.swapOperands slot).1
  | .setOperator slot operator => (store.setOperator slot operator).1
  | .setText slot text => (store.setText slot text).1

/-- Every slot that is filled holds a child. -/
def IsRegular (store : Store) : Prop :=
  ∀ id shape, store.shape? (some id) = some shape → shape.IsRegular

/-- A node is below another, children by children. -/
def IsBelow (store : Store) (root node : NodeId) : Prop :=
  Relation.ReflTransGen (fun above child => child ∈ store.children above) root node

section Regular
variable {store later : Store} {id root : NodeId} {shape old changed : Shape} {slots removed new : List Slot}

/-! ## Regular stores -/

/-- A slot that is filled anew stands between the others. -/
theorem exists_middle_of_replaceFirst {old new : Slot} (replaced : replaceFirst slots old new = some removed) :
    ∃ front back, slots = front ++ old :: back ∧ removed = front ++ new :: back := by
  induction slots generalizing removed with
  | nil => cases replaced
  | cons slot rest ih =>
    unfold replaceFirst at replaced
    split at replaced
    · rename_i same
      cases replaced
      exact ⟨[], rest, by rw [same]; rfl, rfl⟩
    · obtain ⟨tail, found, rfl⟩ := Option.map_eq_some_iff.mp replaced
      obtain ⟨front, back, rfl, rfl⟩ := ih found
      exact ⟨slot :: front, back, rfl, rfl⟩

theorem Reshapes.isRegular (reshapes : Reshapes store later id shape removed new)
    (fits : shape.IsRegular) (regular : store.IsRegular) : later.IsRegular := by
  intro other found there
  rw [reshapes.shapes] at there
  split at there
  · cases there
    exact fits
  · exact regular other found there

theorem isRegular_push (flags : Flags) (start stop : Nat) (slots : List Slot) (parent : Slot)
    (fits : shape.IsRegular) (regular : store.IsRegular) :
    ((store.push shape flags start stop).1.setParents slots parent).IsRegular := by
  intro other found there
  rw [shape?_setParents, shape?_push] at there
  split at there
  · cases there
    exact fits
  · exact regular other found there

theorem isRegular_copyTo (depth : Nat) (id : NodeId) (regular : store.IsRegular) :
    (store.copyTo depth id).1.IsRegular := by
  induction depth generalizing store id with
  | zero => exact regular
  | succ depth ih =>
    have children : ∀ (ids : List NodeId) (state : Store × List (NodeId × Slot)),
        state.1.IsRegular → (copyChildren depth ids state).1.IsRegular := by
      intro ids
      induction ids with
      | nil => exact fun _ regular => regular
      | cons first rest again => exact fun state regular => again _ (ih first regular)
    have copied := children (store.children id) (store, []) regular
    rw [copyTo]
    simp only
    split
    · exact copied
    · rename_i node found
      refine isRegular_push _ _ _ _ _ (isRegular_renamed ?_) copied
      exact copied id node.shape (congrArg (Option.map Node.shape) found)

theorem isRegular_setShape (found : store.shape? (some id) = some old) (fits : shape.IsRegular)
    (regular : store.IsRegular) : (store.setShape id shape).IsRegular :=
  (reshapes_setShape_only (lt_size_of_shape? found) shape).isRegular fits regular

theorem isRegular_of_withStatements? {statements : List Slot}
    (changes : shape.withStatements? statements = some changed) : changed.IsRegular := by
  cases shape <;> cases changes <;> exact .refl _

/-! ## One edit -/

/-- Parent links are true, and they lead to parents that count the child. -/
structure IsLinked (store : Store) : Prop where
  links : store.HasTrueLinks
  regular : store.IsRegular

theorem IsLinked.replaceChild (linked : store.IsLinked) (parent : Slot) (old : NodeId) (new : Slot) :
    (store.replaceChild parent (some old) new).1.IsLinked := by
  refine ⟨hasTrueLinks_replaceChild _ _ _ linked.links, ?_⟩
  rcases replaceChild_cases store parent (some old) new with
    same | ⟨id, shape, slots, later, -, found, replaced, result, reshapes⟩
  · rw [same]
    exact linked.regular
  · rw [result]
    obtain ⟨front, back, before, rfl⟩ := exists_middle_of_replaceFirst replaced
    exact reshapes.isRegular (Shape.isRegular_middle (linked.regular id shape found) rfl before)
      linked.regular

theorem IsLinked.setStatements (linked : store.IsLinked) (container : Slot) (statements : List Slot) :
    (store.setStatements container statements).1.IsLinked := by
  refine ⟨hasTrueLinks_setStatements _ _ linked.links, ?_⟩
  rcases setStatements_cases store container statements with
    same | ⟨id, shape, removed, changed, later, -, -, -, changes, result, reshapes⟩
  · rw [same]
    exact linked.regular
  · rw [result]
    exact reshapes.isRegular (isRegular_of_withStatements? changes) linked.regular

theorem IsLinked.splice (linked : store.IsLinked) (container : Slot) (place count : Nat)
    (inserted : List Slot) : (store.splice container place count inserted).1.IsLinked := by
  refine ⟨hasTrueLinks_splice _ _ _ _ linked.links, ?_⟩
  rcases splice_cases store container place count inserted with
    same | ⟨id, shape, statements, changed, later, -, -, -, -, changes, result, reshapes⟩
  · rw [same]
    exact linked.regular
  · rw [result]
    exact reshapes.isRegular (isRegular_of_withStatements? changes) linked.regular

theorem IsLinked.setDeclarations (linked : store.IsLinked) (slot : Slot) (declarations : List Slot) :
    (store.setDeclarations slot declarations).1.IsLinked := by
  refine ⟨hasTrueLinks_setDeclarations _ _ linked.links, ?_⟩
  rcases setDeclarations_cases store slot declarations with
    same | ⟨id, isStatement, removed, later, -, -, result, reshapes⟩
  · rw [same]
    exact linked.regular
  · rw [result]
    exact reshapes.isRegular (.refl _) linked.regular

theorem IsLinked.setElse (linked : store.IsLinked) (slot elseBody : Slot) :
    (store.setElse slot elseBody).1.IsLinked := by
  unfold Store.setElse
  split
  · rename_i id test thenBody removed found
    have reshapes := reshapes_setShape (lt_size_of_shape? found)
      (.conditionalStatement test thenBody elseBody) [removed] [elseBody]
    refine ⟨reshapes.hasTrueLinks found (fun slot member => ?_) (fun slot member => ?_) linked.links,
      reshapes.isRegular (.refl _) linked.regular⟩
    · simp only [Shape.slots, List.mem_cons, List.not_mem_nil, or_false] at member ⊢
      tauto
    · simp only [Shape.slots, List.mem_cons, List.not_mem_nil, or_false] at member ⊢
      exact .inr (.inr member)
  · exact linked

theorem IsLinked.edit (linked : store.IsLinked) (edit : Edit) : (store.edit edit).IsLinked := by
  obtain ⟨links, regular⟩ := linked
  cases edit with
  | create shape fits flags start stop =>
    exact ⟨hasTrueLinks_add _ _ _ _ links, isRegular_push _ _ _ _ _ fits regular⟩
  | copy slot =>
    refine ⟨hasTrueLinks_copy slot links, ?_⟩
    cases slot with
    | none => exact regular
    | some id => exact isRegular_copyTo _ id regular
  | replaceChild parent old new => exact IsLinked.replaceChild ⟨links, regular⟩ parent old new
  | replaceNode old new =>
    change (store.replaceNode old new).1.IsLinked
    unfold replaceNode
    split
    · exact ⟨links, regular⟩
    · cases old with
      | none => cases ‹store.parent none = _›
      | some old => exact IsLinked.replaceChild ⟨links, regular⟩ _ old new
  | setStatements container statements => exact IsLinked.setStatements ⟨links, regular⟩ _ _
  | splice container place count inserted => exact IsLinked.splice ⟨links, regular⟩ _ _ _ _
  | replaceStatement statement replacement =>
    change (store.replaceStatement statement replacement).1.IsLinked
    unfold replaceStatement
    split
    · exact IsLinked.splice ⟨links, regular⟩ _ _ _ _
    · exact ⟨links, regular⟩
  | insertBefore statement inserted =>
    change (store.insertBefore statement inserted).1.IsLinked
    unfold insertBefore
    split
    · exact IsLinked.splice ⟨links, regular⟩ _ _ _ _
    · exact ⟨links, regular⟩
  | setDeclarations slot declarations => exact IsLinked.setDeclarations ⟨links, regular⟩ _ _
  | setElse slot elseBody => exact IsLinked.setElse ⟨links, regular⟩ slot elseBody
  | swapOperands slot =>
    refine ⟨hasTrueLinks_swapOperands slot links, ?_⟩
    change (store.swapOperands slot).1.IsRegular
    unfold swapOperands
    split
    · exact isRegular_setShape ‹_› (.refl _) regular
    · exact regular
  | setOperator slot operator =>
    refine ⟨hasTrueLinks_setOperator slot operator links, ?_⟩
    change (store.setOperator slot operator).1.IsRegular
    unfold setOperator
    split
    · exact isRegular_setShape ‹_› (.refl _) regular
    · exact regular
  | setText slot text =>
    refine ⟨hasTrueLinks_setText slot text links, ?_⟩
    change (store.setText slot text).1.IsRegular
    unfold setText
    split
    · exact isRegular_setShape ‹_› (.refl _) regular
    · exact regular

/-! ## What links tell -/

theorem IsLinked.mem_children {child parent : NodeId} (linked : store.IsLinked)
    (link : store.parent (some child) = some parent) : child ∈ store.children parent := by
  obtain ⟨shape, found, listed⟩ := linked.links child parent link
  rw [children, found]
  exact (linked.regular parent shape found).mem_iff.mpr (List.mem_filterMap.mpr ⟨_, listed, rfl⟩)

/-- Whoever climbs to a root is below it. -/
theorem IsLinked.isBelow_of_climb (linked : store.IsLinked) {steps : Nat} {node : NodeId}
    (climbs : (store.climb (· == root) steps (some node)).isSome = true) : store.IsBelow root node := by
  induction steps generalizing node with
  | zero => cases climbs
  | succ steps ih =>
    rw [climb] at climbs
    split at climbs
    · rename_i same
      rw [eq_of_beq same]
      exact .refl
    · cases link : store.parent (some node) with
      | none =>
        rw [link] at climbs
        cases steps <;> cases climbs
      | some parent =>
        rw [link] at climbs
        exact (ih climbs).tail (linked.mem_children link)

end Regular

end Store

/-! ## All edits -/

theorem parse_isLinked (text : List Char) : (parse text).store.IsLinked := by
  obtain ⟨tree, stands⟩ := parse_stands text
  exact ⟨stands.links, fun id shape found => (stands.tidy id shape found).regular⟩

theorem Store.IsLinked.edits {store : Store} (linked : store.IsLinked) (edits : List Edit) :
    (edits.foldl Store.edit store).IsLinked := by
  induction edits generalizing store with
  | nil => exact linked
  | cons edit edits ih => exact ih (linked.edit edit)

/-- After any edits of a parsed program, a node whose parent link leads to another is one of its
children.  So what is attached to a root is below it. -/
theorem edits_keep_links (text : List Char) (edits : List Edit) :
    let store := edits.foldl Store.edit (parse text).store
    (∀ child parent, store.parent (some child) = some parent → child ∈ store.children parent) ∧
      ∀ root node, store.isAttached root (some node) = true → store.IsBelow root node := by
  intro store
  have linked : store.IsLinked := (parse_isLinked text).edits edits
  exact ⟨fun child parent link => linked.mem_children link, fun root node attached =>
    linked.isBelow_of_climb attached⟩

end Unflatten
