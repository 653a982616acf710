import Unflatten.Proofs.Canonical.Expressions

/-! # Rules that make statements leave programs standing -/

set_option autoImplicit false

namespace Unflatten.Canonical

open Store

variable {store middle : Store} {root id statement : NodeId} {tree : Tree} {expression : Slot}

/-- Each item gets a statement of its own. -/
theorem makeStatements_rebuilds {below : List Tree} (items made : List Tree) (done : Array Slot)
    (listed : done.toList = made.map Tree.root)
    (work : Rebuilds store middle below (made ++ items))
    (quiet : ∀ item ∈ items, middle.IsQuietAt item.root) :
    ∃ later new, ((items.map Tree.root).foldl (fun (state : Store × Array Slot) item =>
        let (store, made) := state.1.makeExpressionStatement item
        (store, state.2.push (some made))) (middle, done)).1 = later ∧
      ((items.map Tree.root).foldl (fun (state : Store × Array Slot) item =>
        let (store, made) := state.1.makeExpressionStatement item
        (store, state.2.push (some made))) (middle, done)).2.toList = (made ++ new).map Tree.root ∧
      Rebuilds store later below (made ++ new) ∧
      Tree.unmetAll (made ++ new) = Tree.unmetAll (made ++ items) ∧
      List.Forall₂ (fun item statement => ∃ name, statement = .stated name item) items new := by
  induction items generalizing middle made done with
  | nil =>
    rw [List.append_nil] at work ⊢
    exact ⟨middle, [], rfl, by simpa using listed, by simpa using work, by simp, .nil⟩
  | cons item rest ih =>
    obtain ⟨later, name, result, work', needs, kinds, -⟩ := work.andNode
      (.expressionStatement item.root) [item] (made ++ rest) List.perm_middle rfl rfl
      (List.forall_mem_singleton.mpr (quiet item List.mem_cons_self)) rfl
    have listed' : (done.push (some name)).toList =
        (made ++ [Tree.stated name item]).map Tree.root := by
      simp [listed, Tree.stated]
    obtain ⟨last, new, same, roots, work'', same', each⟩ := ih (made ++ [Tree.stated name item]) _
      listed' (by
        rw [List.append_assoc, List.singleton_append]
        exact work'.perm List.perm_middle.symm)
      fun other member => (quiet other (List.mem_cons_of_mem _ member)).carry kinds
    rw [List.append_assoc, List.singleton_append] at roots work'' same'
    refine ⟨last, .stated name item :: new, ?_, ?_, work'', ?_, .cons ⟨name, rfl⟩ each⟩
    · rw [List.map_cons, List.foldl_cons, makeExpressionStatement, result]
      exact same
    · rw [List.map_cons, List.foldl_cons, makeExpressionStatement, result]
      exact roots
    · rw [same', Tree.stated]
      simp [needs]

theorem sequenceToBlock_reworked {rule : Rule} (stands : store.Stands root tree)
    (inside : statement ∈ tree.names)
    (found : store.shape? (some statement) = some (.expressionStatement expression))
    (either : rule = .conditionalIf ∨ rule = .sequence) :
    store.Reworked (sequenceToBlock store expression (some statement)) tree rule
      (sequenceItems? store expression = none) := by
  unfold sequenceToBlock
  split
  · rename_i none
    exact .untouched nofun none
  rename_i items listed
  cases expression with
  | none => cases listed
  | some sequence =>
  have shaped : store.shape? (some sequence) = some (.elements .sequence items) := by
    unfold sequenceItems? at listed
    split at listed
    · rename_i there
      cases listed
      exact there
    · cases listed
  obtain ⟨below, within, holds, nodup, roots⟩ := stands.opened inside found
  obtain ⟨inner, rfl, rooted⟩ := Tree.one_of_roots roots
  have all := holds.holdsAll_below nodup
  obtain ⟨parts, rfl, slots⟩ := (all.holds inner (by simp)).eq_node rooted shaped
  cases slots
  have opened := Rebuilds.opening all rfl
  have quiet : ∀ item ∈ parts, store.IsQuietAt item.root := fun item member =>
    stands.tidy.quietAt shaped (List.mem_map_of_mem member)
  obtain ⟨later, statements, made, madeRoots, work, needs, each⟩ :=
    makeStatements_rebuilds parts [] #[] rfl (by simpa using opened) quiet
  rw [List.nil_append] at madeRoots work needs
  obtain ⟨last, name, result, work', needs', -, foundNew⟩ := work.andNode
    (.block (statements.map Tree.root)) statements [] (by simp) rfl rfl (List.forall_mem_nil _) rfl
  obtain ⟨final, remade, replaced, remakes, placed⟩ :=
    stands.replacingOpened_placed within rfl rfl rfl work' (.inr (by
      rw [needs', needs, Tree.unmet_of_clear_above rfl rfl]
      exact List.Subset.refl _)) ((isBodyAt_of_shape? foundNew rfl).fits rfl)
  simp only [makeBlock, made, madeRoots, result]
  rw [Tree.root_node] at replaced
  rw [replaced]
  exact .step remakes placed (.itemized either each)

theorem andToConditional_reworked {left right : Slot} {rule : Rule} (settled : Prop)
    (stands : store.Stands root tree) (inside : statement ∈ tree.names)
    (found : store.shape? (some statement) = some (.expressionStatement expression))
    (shaped : store.shape? expression = some (.binary left .ampersandAmpersand right))
    (either : rule = .conditionalIf ∨ rule = .logicalIf) :
    store.Reworked (andToConditional store left right (some statement)) tree rule settled := by
  cases expression with
  | none => cases shaped
  | some name =>
  obtain ⟨below, within, holds, nodup, roots⟩ := stands.opened inside found
  obtain ⟨inner, rfl, rooted⟩ := Tree.one_of_roots roots
  have all := holds.holdsAll_below nodup
  obtain ⟨parts, rfl, slots⟩ := (all.holds inner (by simp)).eq_node rooted shaped
  obtain ⟨first, second, rfl, rfl, rfl⟩ := Tree.two_of_roots slots
  have opened := Rebuilds.opening all rfl
  have quietFirst : store.IsQuietAt first.root := stands.tidy.quietAt shaped (by simp [Shape.quietSlots])
  have quietSecond : store.IsQuietAt second.root :=
    stands.tidy.quietAt shaped (by simp [Shape.quietSlots])
  obtain ⟨later, body, result, work, needs, kinds, -⟩ := opened.andNode
    (.expressionStatement second.root) [second] [first] (List.Perm.swap second first []) rfl rfl
    (List.forall_mem_singleton.mpr quietSecond) rfl
  obtain ⟨last, name, result', work', needs', -, foundNew⟩ := work.addNothing.andNode
    (.conditionalStatement first.root (some body) none) [first, .stated body second, .nothing] []
    (Tree.perm_of_count fun _ => by simp [Tree.stated, List.count_cons]; omega)
    rfl rfl (List.forall_mem_singleton.mpr (quietFirst.carry kinds))
    rfl
  obtain ⟨final, remade, replaced, remakes, placed⟩ :=
    stands.replacingOpened_placed within rfl rfl rfl work' (.inr (by
      rw [needs', Tree.unmet_of_clear_above rfl rfl]
      simp [Tree.stated, needs])) ((isBodyAt_of_shape? foundNew rfl).fits rfl)
  unfold andToConditional
  simp only [makeExpressionStatement, result, makeConditionalStatement, result']
  rw [Tree.root_node] at replaced
  rw [replaced]
  exact .step remakes placed (.conjoined either)

/-- The statement around an expression. -/
theorem shape?_of_isExpressionStatement (stands : store.Stands root tree) (inside : id ∈ tree.names)
    (isStatement : isExpressionStatement store (store.parent (some id)) = true) :
    ∃ statement, store.parent (some id) = some statement ∧ statement ∈ tree.names ∧
      store.shape? (some statement) = some (.expressionStatement (some id)) := by
  cases linked : store.parent (some id) with
  | none =>
    rw [linked] at isStatement
    cases isStatement
  | some statement =>
    obtain ⟨there, shape, found, listed⟩ := stands.parent_mem inside linked
    rw [linked, isExpressionStatement, expression?, found] at isStatement
    cases shape
    case expressionStatement =>
      rw [Shape.slots, List.mem_singleton] at listed
      exact ⟨statement, rfl, there, listed ▸ found⟩
    all_goals cases isStatement

theorem lowerAnd_reworked {settled : Prop} (stands : store.Stands root tree) (conditional : NodeId)
    (inside : id ∈ tree.names) (holds : settled) :
    store.Reworked (lowerAnd store (some id) conditional) tree .conditionalIf settled := by
  unfold lowerAnd
  split
  · exact .untouched nofun holds
  rename_i left operator right compared
  simp only
  split
  · exact .untouched nofun holds
  rename_i isAnd
  rw [bne_iff_ne, ne_eq, not_not] at isAnd
  subst isAnd
  split
  · exact .untouched nofun holds
  rename_i isStatement
  rw [Bool.not_eq_true, Bool.not_eq_false'] at isStatement
  obtain ⟨statement, linked, there, found⟩ := shape?_of_isExpressionStatement stands inside isStatement
  rw [linked]
  exact andToConditional_reworked _ stands there found (shape?_of_binary? compared) (.inl rfl)

theorem logicalIf_reworked (stands : store.Stands root tree) (inside : id ∈ tree.names) :
    store.Reworked (logicalIf store id) tree .logicalIf
      (isExpressionStatement store (store.parent (some id)) = true →
        ∀ left right, binary? store (some id) ≠ some (left, .ampersandAmpersand, right)) := by
  unfold logicalIf
  split
  swap
  · rename_i other
    exact .untouched nofun fun _ => other
  rename_i left right compared
  simp only
  split
  swap
  · rename_i elsewhere
    exact .untouched nofun fun isStatement => absurd isStatement elsewhere
  rename_i isStatement
  obtain ⟨statement, linked, there, found⟩ := shape?_of_isExpressionStatement stands inside isStatement
  rw [linked]
  exact andToConditional_reworked _ stands there found (shape?_of_binary? compared) (.inr rfl)

theorem sequence_reworked (stands : store.Stands root tree) (inside : id ∈ tree.names) :
    store.Reworked (sequence store id) tree .sequence
      (isExpressionStatement store (store.parent (some id)) = true →
        sequenceItems? store (some id) = none) := by
  unfold sequence
  simp only
  split
  swap
  · rename_i elsewhere
    exact .untouched nofun fun isStatement => absurd isStatement elsewhere
  rename_i isStatement
  obtain ⟨statement, linked, there, found⟩ := shape?_of_isExpressionStatement stands inside isStatement
  rw [linked]
  exact (sequenceToBlock_reworked stands there found (.inr rfl)).imp fun none _ => none

theorem conditionalIf_reworked (stands : store.Stands root tree) (inside : id ∈ tree.names) :
    store.Reworked (conditionalIf store id) tree .conditionalIf
      (isExpressionStatement store (store.parent (some id)) = true →
        ∀ condition whenTrue whenFalse,
          store.shape? (some id) ≠ some (.conditional condition whenTrue whenFalse)) := by
  unfold conditionalIf
  split
  swap
  · rename_i other
    exact .untouched nofun fun _ => other
  rename_i condition whenTrue whenFalse found
  simp only
  cases linked : store.parent (some id) with
  | none => exact .untouched nofun fun impossible => absurd impossible Bool.false_ne_true
  | some parent =>
  obtain ⟨there, shape, shaped, listed⟩ := stands.parent_mem inside linked
  have elsewhere : (∀ expression, shape ≠ .expressionStatement expression) →
      isExpressionStatement store (some parent) = true → ∀ condition whenTrue whenFalse,
        store.shape? (some id) ≠ some (.conditional condition whenTrue whenFalse) := by
    intro other isStatement
    rw [isExpressionStatement, expression?, shaped] at isStatement
    cases shape
    case expressionStatement => exact absurd rfl (other _)
    all_goals cases isStatement
  rw [shaped]
  split
  · rename_i impossible
    cases impossible
  · -- the conditional is a statement
    rename_i expression same
    cases same
    cases List.mem_singleton.mp listed
    obtain ⟨below, within, holds, nodup, roots⟩ := stands.opened there shaped
    obtain ⟨inner, rfl, rooted⟩ := Tree.one_of_roots roots
    have all := holds.holdsAll_below nodup
    obtain ⟨parts, rfl, slots⟩ := (all.holds inner (by simp)).eq_node rooted found
    obtain ⟨test, left, right, rfl, rfl, rfl, rfl⟩ := Tree.three_of_roots slots
    have opened := Rebuilds.opening all rfl
    have quiet : ∀ slot ∈ [test.root, left.root, right.root], store.IsQuietAt slot :=
      fun slot listed => stands.tidy.quietAt found listed
    obtain ⟨later, yes, result, work, needs, kinds, -⟩ := opened.andNode
      (.expressionStatement left.root) [left] [test, right]
      (Tree.perm_of_count fun _ => by simp [List.count_cons]; omega) rfl rfl
      (List.forall_mem_singleton.mpr (quiet _ (by simp))) rfl
    obtain ⟨more, no, result', work', needs', kinds', -⟩ := work.andNode
      (.expressionStatement right.root) [right] [.stated yes left, test]
      (Tree.perm_of_count fun _ => by simp [Tree.stated, List.count_cons]; omega) rfl rfl
      (List.forall_mem_singleton.mpr ((quiet _ (by simp)).carry kinds)) rfl
    obtain ⟨last, name, result'', work'', needs'', -, foundNew⟩ := work'.andNode
      (.conditionalStatement test.root (some yes) (some no))
      [test, .stated yes left, .stated no right] []
      (Tree.perm_of_count fun _ => by simp [Tree.stated, List.count_cons]; omega) rfl rfl
      (List.forall_mem_singleton.mpr (((quiet _ (by simp)).carry kinds).carry kinds')) rfl
    obtain ⟨final, remade, replaced, remakes, placed⟩ :=
      stands.replacingOpened_placed within rfl rfl rfl work'' (.inr (by
        rw [needs'', Tree.unmet_of_clear_above rfl rfl]
        simp [Tree.stated, needs, needs'])) ((isBodyAt_of_shape? foundNew rfl).fits rfl)
    simp only [makeExpressionStatement, result, result', makeConditionalStatement, result'']
    rw [Tree.root_node] at replaced
    rw [replaced]
    exact .step remakes placed .chosen
  · -- the conditional is an item of a sequence
    rename_i items same
    cases same
    have settled := elsewhere fun _ impossible => by cases impossible
    cases around : store.parent (some parent) with
    | none => exact .untouched nofun settled
    | some outer =>
    obtain ⟨outside, shape, outerShape, among⟩ := stands.parent_mem there around
    rw [outerShape]
    split
    · exact lowerAnd_reworked stands id outside settled
    · rename_i expression same
      cases same
      cases List.mem_singleton.mp among
      exact (sequenceToBlock_reworked stands outside outerShape (.inl rfl)).imp fun _ => settled
    · exact .untouched nofun settled
  · rename_i same
    cases same
    exact lowerAnd_reworked stands id there (elsewhere fun _ impossible => by cases impossible)
  · rename_i other _ _ same
    cases same
    exact .untouched nofun (elsewhere other)

end Unflatten.Canonical
