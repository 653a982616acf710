import Unflatten.Binding.Scope
import Unflatten.Proofs.Syntax.Standing

/-! # Binding step by step

What `Bindings.bindNode` does below a node is a list of steps (`Bindings.script`): scopes are
entered and left, and names declared in a scope that is chosen beforehand.  The steps say which
identifiers are declared where, but not what those are called. -/

set_option autoImplicit false

namespace Unflatten

namespace Bindings

/-- A step of binding. -/
inductive Step where
  | enter (kind : ScopeKind) (id : NodeId)
  | leave
  /-- Names are declared in the current scope from here on, or in the one that a `var` belongs to. -/
  | choose (isCurrent : Bool)
  /-- The scope chosen last is no longer used. -/
  | dismiss
  | declare (kind : DeclarationKind) (id : NodeId)
  | write (id : NodeId)
  deriving DecidableEq, Repr

/-- The bindings so far, with the scopes that have been chosen. -/
abbrev Progress := Bindings × List (Option ScopeId)

/-- Takes one step. -/
def perform (store : Store) (progress : Progress) : Step → Progress
  | .enter kind id => (progress.1.enter kind id, progress.2)
  | .leave => (progress.1.leave, progress.2)
  | .choose isCurrent =>
    (progress.1,
      (if isCurrent then progress.1.current else progress.1.hoistingScope) :: progress.2)
  | .dismiss => (progress.1, progress.2.tail)
  | .declare kind id =>
    (progress.1.declareIdentifier store progress.2.head?.join kind (some id), progress.2)
  | .write id =>
    (if (store.identifier? (some id)).isSome then progress.1.noteWrite id else progress.1, progress.2)

/-- Takes several steps. -/
def performAll (store : Store) (progress : Progress) (steps : List Step) : Progress :=
  steps.foldl (perform store) progress

/-- The declaration of the identifier in a slot. -/
def declaring (kind : DeclarationKind) (slot : Slot) : List Step :=
  slot.toList.map (.declare kind)

/-- The steps for one declarator. -/
def declaratorSteps (store : Store) (kind : DeclarationKind) (isLoopHead : Bool)
    (below : Slot → List Step) (declaration : Slot) : List Step :=
  match store.shape? declaration with
  | some (.declaration name initializer) =>
    declaring kind name ++ (if isLoopHead then name.toList.map .write else []) ++ below initializer
  | _ => []

/-- The steps for the names below a node. -/
def script (store : Store) : (depth : Nat) → Slot → List Step
  | 0, _ => []
  | depth + 1, slot =>
    match slot, store.node? slot with
    | some id, some node =>
      match node.shape with
      | .function isExpression name parameters body =>
        (if isExpression then [] else .choose false :: declaring .function name ++ [.dismiss]) ++
          ([.enter .function id, .choose true] ++
            ((if isExpression then declaring .function name else []) ++
              (parameters.flatMap (declaring .parameter) ++
                (.dismiss :: (((store.statements? body).getD []).flatMap (script store depth) ++
                  [.leave])))))
      | .declarationList _ declarations =>
        .choose node.flags.isBlockScoped ::
          (declarations.flatMap (declaratorSteps store
            (if node.flags.isBlockScoped then .blockVariable else .functionVariable)
            (store.kind? node.parent == some .forInStatement) (script store depth)) ++ [.dismiss])
      | .block _ | .forIn _ _ _ | .switch _ _ | .loop .forLoop _ _ _ _ =>
        .enter .block id :: ((node.shape.children.map some).flatMap (script store depth) ++ [.leave])
      | .catchClause name body =>
        [.enter .block id, .choose true] ++
          (declaring .catchVariable name ++ (.dismiss :: (script store depth body ++ [.leave])))
      | shape => (shape.children.map some).flatMap (script store depth)
    | _, _ => []

section Steps
variable {store : Store}

theorem performAll_append (progress : Progress) (first second : List Step) :
    performAll store progress (first ++ second) =
      performAll store (performAll store progress first) second := List.foldl_append

theorem performAll_cons (progress : Progress) (step : Step) (rest : List Step) :
    performAll store progress (step :: rest) = performAll store (perform store progress step) rest :=
  rfl

theorem performAll_nil (progress : Progress) : performAll store progress [] = progress := rfl

theorem performAll_declaring (bindings : Bindings) (scope : Option ScopeId)
    (chosen : List (Option ScopeId)) (kind : DeclarationKind) (slot : Slot) :
    performAll store (bindings, scope :: chosen) (declaring kind slot) =
      (bindings.declareIdentifier store scope kind slot, scope :: chosen) := by
  cases slot <;> rfl

theorem performAll_flatMap_declaring (bindings : Bindings) (scope : Option ScopeId)
    (chosen : List (Option ScopeId)) (kind : DeclarationKind) (slots : List Slot) :
    performAll store (bindings, scope :: chosen) (slots.flatMap (declaring kind)) =
      (slots.foldl (fun bindings slot => bindings.declareIdentifier store scope kind slot) bindings,
        scope :: chosen) := by
  induction slots generalizing bindings with
  | nil => rfl
  | cons slot rest ih =>
    rw [List.flatMap_cons, performAll_append, performAll_declaring, ih, List.foldl_cons]

/-- What holds of each slot of a list holds of the list. -/
theorem performAll_flatMap {steps : Slot → List Step} {bind : Bindings → Slot → Bindings}
    (each : ∀ slot bindings chosen,
      performAll store (bindings, chosen) (steps slot) = (bind bindings slot, chosen))
    (slots : List Slot) (bindings : Bindings) (chosen : List (Option ScopeId)) :
    performAll store (bindings, chosen) (slots.flatMap steps) =
      (slots.foldl bind bindings, chosen) := by
  induction slots generalizing bindings with
  | nil => rfl
  | cons slot rest ih => rw [List.flatMap_cons, performAll_append, each, ih, List.foldl_cons]

theorem performAll_writing (bindings : Bindings) (chosen : List (Option ScopeId)) (isLoopHead : Bool)
    (name : Slot) :
    performAll store (bindings, chosen) (if isLoopHead then name.toList.map .write else []) =
      (match name, store.identifier? name with
        | some nameId, some _ => if isLoopHead then bindings.noteWrite nameId else bindings
        | _, _ => bindings, chosen) := by
  cases isLoopHead with
  | false =>
    simp only [Bool.false_eq_true, if_false, performAll_nil]
    split <;> rfl
  | true =>
    cases name with
    | none => rfl
    | some id =>
      simp only [if_true, Option.toList_some, List.map_singleton, performAll_cons, performAll_nil,
        perform]
      cases store.identifier? (some id) <;> rfl

/-- The steps for a list of declarators. -/
theorem performAll_flatMap_declarators {depth : Nat}
    (inner : ∀ slot bindings chosen, performAll store (bindings, chosen) (script store depth slot) =
      (bindNode store depth slot bindings, chosen))
    (bindings : Bindings) (scope : Option ScopeId) (chosen : List (Option ScopeId))
    (kind : DeclarationKind) (isLoopHead : Bool) (declarations : List Slot) :
    performAll store (bindings, scope :: chosen)
        (declarations.flatMap (declaratorSteps store kind isLoopHead (script store depth))) =
      (declarations.foldl (fun bindings declaration =>
        match store.shape? declaration with
        | some (.declaration name initializer) =>
          let bindings := bindings.declareIdentifier store scope kind name
          let bindings := match name, store.identifier? name with
            | some nameId, some _ => if isLoopHead then bindings.noteWrite nameId else bindings
            | _, _ => bindings
          bindNode store depth initializer bindings
        | _ => bindings) bindings, scope :: chosen) := by
  induction declarations generalizing bindings with
  | nil => rfl
  | cons declaration rest ih =>
    rw [List.flatMap_cons, performAll_append, List.foldl_cons, ← ih]
    congr 1
    unfold declaratorSteps
    split
    · rw [performAll_append, performAll_append, performAll_declaring, performAll_writing, inner]
    · rfl

/-- Binding below a node is taking its steps. -/
theorem performAll_script (depth : Nat) (slot : Slot) (bindings : Bindings)
    (chosen : List (Option ScopeId)) :
    performAll store (bindings, chosen) (script store depth slot) =
      (bindNode store depth slot bindings, chosen) := by
  induction depth generalizing slot bindings chosen with
  | zero => rfl
  | succ depth ih =>
    cases slot with
    | none => rfl
    | some id =>
    cases found : store.node? (some id) with
    | none => simp only [script, bindNode, found, performAll_nil]
    | some node =>
    obtain ⟨shape, flags, start, stop, parent⟩ := node
    have below := performAll_flatMap fun slot bindings chosen => ih slot bindings chosen
    have opened : ∀ (kind : ScopeKind) (slots : List Slot), performAll store (bindings, chosen)
        (.enter kind id :: (slots.flatMap (script store depth) ++ [.leave])) =
          ((slots.foldl (fun bindings slot => bindNode store depth slot bindings)
            (bindings.enter kind id)).leave, chosen) := by
      intro kind slots
      rw [performAll_cons, performAll_append, perform, below]
      rfl
    cases shape
    case function isExpression name parameters body =>
      simp only [script, bindNode, found]
      cases isExpression with
      | true =>
        simp only [if_true, List.nil_append, List.cons_append, performAll_cons, performAll_append,
          perform, performAll_declaring, performAll_flatMap_declaring, List.tail_cons, below]
        rfl
      | false =>
        simp only [Bool.false_eq_true, if_false, List.nil_append, List.cons_append, performAll_cons,
          performAll_append, perform, performAll_declaring, performAll_flatMap_declaring,
          List.tail_cons, performAll_nil, if_true, below]
    case declarationList isStatement declarations =>
      simp only [script, bindNode, found]
      rw [performAll_cons, performAll_append, perform, performAll_flatMap_declarators ih]
      cases flags.isBlockScoped <;> rfl
    case block => simp only [script, bindNode, found, opened]
    case forIn => simp only [script, bindNode, found, opened]
    case switch => simp only [script, bindNode, found, opened]
    case loop kind _ _ _ _ =>
      cases kind <;> simp only [script, bindNode, found, opened, below]
    case catchClause name body =>
      simp only [script, bindNode, found, List.cons_append, List.nil_append, performAll_cons,
        performAll_append, perform, if_true, performAll_declaring, List.tail_cons, ih, performAll_nil]
    all_goals simp only [script, bindNode, found, below]

end Steps

/-! ## What is declared -/

/-- The identifiers that are declared, in order. -/
def declared (steps : List Step) : List NodeId :=
  steps.filterMap fun
    | .declare _ id => some id
    | _ => none

/-- Nodes stand for variables, and occur no more often than in some trees. -/
structure Declares (store : Store) (ids : List NodeId) (trees : List Tree) : Prop where
  few : ∀ id, ids.count id ≤ (Tree.namesAll trees).count id
  named : ∀ id ∈ ids, store.isReference id = true

section Declared
variable {store : Store} {ids more : List NodeId} {trees others : List Tree} {tree : Tree}

@[simp] theorem declared_nil : declared [] = [] := rfl

@[simp] theorem declared_append (first second : List Step) :
    declared (first ++ second) = declared first ++ declared second := List.filterMap_append

@[simp] theorem declared_enter (kind : ScopeKind) (id : NodeId) (rest : List Step) :
    declared (.enter kind id :: rest) = declared rest := rfl

@[simp] theorem declared_leave (rest : List Step) : declared (.leave :: rest) = declared rest := rfl

@[simp] theorem declared_choose (isCurrent : Bool) (rest : List Step) :
    declared (.choose isCurrent :: rest) = declared rest := rfl

@[simp] theorem declared_dismiss (rest : List Step) : declared (.dismiss :: rest) = declared rest := rfl

@[simp] theorem declared_declaring (kind : DeclarationKind) (slot : Slot) :
    declared (declaring kind slot) = slot.toList := by
  cases slot <;> rfl

@[simp] theorem declared_writing (isLoopHead : Bool) (name : Slot) :
    declared (if isLoopHead then name.toList.map .write else []) = [] := by
  cases isLoopHead <;> cases name <;> rfl

theorem Declares.nil : Declares store [] trees :=
  ⟨fun _ => Nat.zero_le _, List.forall_mem_nil _⟩

theorem Declares.append (first : Declares store ids trees) (second : Declares store more others) :
    Declares store (ids ++ more) (trees ++ others) := by
  refine ⟨fun id => ?_, fun id member => ?_⟩
  · rw [List.count_append, Tree.namesAll_append, List.count_append]
    exact Nat.add_le_add (first.few id) (second.few id)
  · exact (List.mem_append.mp member).elim (first.named id) (second.named id)

theorem Declares.perm (declares : Declares store ids trees) (perm : ids.Perm more) :
    Declares store more trees :=
  ⟨fun id => by rw [← perm.count_eq]; exact declares.few id,
    fun id member => declares.named id (perm.mem_iff.mpr member)⟩

theorem Declares.mono (declares : Declares store ids trees)
    (few : ∀ id, (Tree.namesAll trees).count id ≤ (Tree.namesAll others).count id) :
    Declares store ids others :=
  ⟨fun id => Nat.le_trans (declares.few id) (few id), declares.named⟩

/-- What is declared below a node is declared in its tree. -/
theorem Declares.inside (declares : Declares store ids trees) (name : NodeId) (shape : Shape) :
    Declares store ids [.node name shape trees] := by
  refine declares.mono fun id => ?_
  rw [Tree.namesAll, Tree.namesAll, Tree.names, List.append_nil, List.count_cons]
  exact Nat.le_add_right _ _

theorem Declares.suffix (declares : Declares store ids trees) :
    Declares store ids (others ++ trees) :=
  Declares.nil.append declares

theorem declares_slot (named : ∀ id, tree.root = some id → store.isReference id = true) :
    Declares store tree.root.toList [tree] := by
  refine ⟨fun id => ?_, fun id member => named id (Option.mem_toList.mp member)⟩
  cases tree with
  | nothing => exact Nat.zero_le _
  | node name shape below =>
    simp only [Tree.root_node, Option.toList_some, Tree.namesAll, Tree.names, List.append_nil,
      List.count_cons, List.count_nil]
    omega

theorem declares_flatMap {steps : Slot → List Step}
    (each : ∀ tree ∈ trees, Declares store (declared (steps tree.root)) [tree]) :
    Declares store (declared ((trees.map Tree.root).flatMap steps)) trees := by
  induction trees with
  | nil => exact .nil
  | cons tree rest ih =>
    rw [List.map_cons, List.flatMap_cons, declared_append]
    exact (each tree List.mem_cons_self).append
      (ih fun other member => each other (List.mem_cons_of_mem _ member))

theorem flatMap_filterMap {steps : Slot → List Step} (nothing : steps none = []) (slots : List Slot) :
    ((slots.filterMap id).map some).flatMap steps = slots.flatMap steps := by
  induction slots with
  | nil => rfl
  | cons slot rest ih =>
    cases slot with
    | none => rw [List.filterMap_cons_none rfl, ih, List.flatMap_cons, nothing, List.nil_append]
    | some child =>
      rw [List.filterMap_cons_some (rfl : id (some child) = some child), List.map_cons,
        List.flatMap_cons, ih, List.flatMap_cons]

theorem script_none (depth : Nat) : script store depth none = [] := by
  cases depth <;> rfl

/-- The steps for the children declare what those for the slots declare. -/
theorem Declares.children {shape : Shape} {depth : Nat} (regular : shape.IsRegular)
    (declares : Declares store (declared (shape.slots.flatMap (script store depth))) trees) :
    Declares store (declared ((shape.children.map some).flatMap (script store depth))) trees := by
  rw [← flatMap_filterMap (script_none depth)] at declares
  exact declares.perm (((regular.map some).flatMap_right _).filterMap _).symm

/-- The steps for the statements of a body. -/
theorem declares_statements {depth : Nat}
    (each : ∀ tree, store.Holds tree → Declares store (declared (script store depth tree.root)) [tree])
    (holds : store.Holds tree) :
    Declares store (declared (((store.statements? tree.root).getD []).flatMap (script store depth)))
      [tree] := by
  cases holds with
  | nothing => exact .nil
  | @node id shape below found regular roots links held =>
    rw [Tree.root_node, Store.statements?, found, Option.bind_some]
    cases has : shape.statements? with
    | none => exact .nil
    | some statements =>
      obtain ⟨lead, old, rfl, -, rfl⟩ :=
        (Store.Holds.node found regular roots links held).split_statements has
      have declares : Declares store (declared ((old.map Tree.root).flatMap (script store depth))) old :=
        declares_flatMap fun tree member => each tree (held tree (List.mem_append_right _ member))
      exact declares.suffix.inside id shape

/-- The steps for a declarator. -/
theorem declares_declarator {depth : Nat} {kind : DeclarationKind} {isLoopHead : Bool}
    (each : ∀ tree, store.Holds tree → Declares store (declared (script store depth tree.root)) [tree])
    (holds : store.Holds tree) :
    Declares store (declared (declaratorSteps store kind isLoopHead (script store depth) tree.root))
      [tree] := by
  unfold declaratorSteps
  split
  swap
  · exact .nil
  rename_i name initializer found
  obtain ⟨id, below, rfl, roots⟩ := holds.exists_node found
  obtain ⟨first, second, rfl, rfl, rfl⟩ := Tree.two_of_roots roots
  have held : ∀ tree ∈ [first, second], store.Holds tree := fun tree member =>
    holds.within (.deeper member .whole)
  rw [declared_append, declared_append, declared_declaring, declared_writing, List.append_nil]
  have named : Declares store first.root.toList [first] := declares_slot fun child rooted => ?_
  · exact (named.append (each second (held second (by simp)))).inside id _
  obtain ⟨-, linked⟩ := holds.slot_mem List.mem_cons_self found
    (by rw [← rooted]; exact List.mem_cons_self : some child ∈ _)
  rw [Store.isReference, linked, ← Tree.root_node, found]

/-- Names are declared where they name variables, and each only once. -/
theorem declares_script (depth : Nat) (holds : store.Holds tree) :
    Declares store (declared (script store depth tree.root)) [tree] := by
  induction depth generalizing tree with
  | zero => exact .nil
  | succ depth ih =>
    have whole := holds
    cases holds with
    | nothing => exact .nil
    | @node id shape below found regular roots links held =>
    have deeper : Declares store (declared ((below.map Tree.root).flatMap (script store depth))) below :=
      declares_flatMap fun tree member => ih (held tree member)
    have children := (roots ▸ deeper : Declares store
      (declared (shape.slots.flatMap (script store depth))) below).children regular
    obtain ⟨node, there, rfl⟩ := Option.map_eq_some_iff.mp found
    obtain ⟨shape, flags, start, stop, parent⟩ := node
    -- what stands in a slot of the node has the node as its parent
    have above : ∀ {child}, some child ∈ shape.slots → store.parent (some child) = some id :=
      fun listed => (whole.slot_mem List.mem_cons_self found listed).2
    cases shape
    case function isExpression name parameters body =>
      obtain ⟨first, rest, rfl, rfl, others⟩ := List.map_eq_cons_iff.mp roots.symm
      obtain ⟨middle, last, rfl, rfl, single⟩ := List.map_eq_append_iff.mp others
      obtain ⟨last, rfl, rfl⟩ := Tree.one_of_roots single.symm
      have named : ∀ tree ∈ first :: middle, Declares store tree.root.toList [tree] := by
        refine fun tree member => declares_slot fun child rooted => ?_
        have linked := @above child (by
          rw [← rooted, Shape.slots]
          simp only [List.mem_cons, List.mem_append, List.mem_map] at member ⊢
          rcases member with rfl | among
          · exact .inl rfl
          · exact .inr (.inl ⟨tree, among, rfl⟩))
        rw [Store.isReference, linked, found]
      have parameters : Declares store (declared ((middle.map Tree.root).flatMap
          (declaring .parameter))) middle := declares_flatMap fun tree member => by
        rw [declared_declaring]
        exact named tree (List.mem_cons_of_mem _ member)
      have statements := declares_statements (fun _ => ih)
        (held last (by simp))
      have all := ((named first List.mem_cons_self).append (parameters.append statements)).inside id
        (.function isExpression first.root (middle.map Tree.root) last.root)
      simp only [script, there, Tree.root_node]
      cases isExpression <;> simpa using all
    case declarationList isStatement declarations =>
      cases roots
      simp only [script, there, Tree.root_node, declared_choose, declared_append, declared_dismiss,
        declared_nil, List.append_nil]
      exact (declares_flatMap fun tree member =>
        declares_declarator (fun _ => ih) (held tree member)).inside id _
    case catchClause name body =>
      obtain ⟨first, second, rfl, rfl, rfl⟩ := Tree.two_of_roots roots
      have named : Declares store first.root.toList [first] := declares_slot fun child rooted => by
        rw [Store.isReference, above (by rw [← rooted]; exact List.mem_cons_self), found]
      have all := (named.append (ih (held second (by simp)))).inside id
        (.catchClause first.root second.root)
      simpa [script, there] using all
    case block => simpa [script, there] using children.inside id _
    case forIn => simpa [script, there] using children.inside id _
    case switch => simpa [script, there] using children.inside id _
    case loop kind _ _ _ _ => cases kind <;> simpa [script, there] using children.inside id _
    all_goals simpa [script, there] using children.inside id _

end Declared

end Bindings

end Unflatten
