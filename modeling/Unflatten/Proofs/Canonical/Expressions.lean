import Unflatten.Proofs.Canonical.Rewriting

/-! # Rules for expressions leave programs standing

Each rule takes a node of the tree apart, makes nodes around the parts and puts the new tree
where the node stood. -/

set_option autoImplicit false

namespace Unflatten

namespace Tree

/-- The jumps below an expression of a statement need what the statement needs. -/
theorem unmet_of_clear_above {id name : NodeId} {outer inner : Shape} {below : List Tree}
    (clear : outer.isClear = true) (also : inner.isClear = true) :
    (Tree.node id outer [.node name inner below]).unmet = unmetAll below := by
  rw [unmet_of_isClear clear, unmetAll_cons, unmet_of_isClear also, unmetAll_nil, List.append_nil]

end Tree

namespace Canonical

open Store

variable {store : Store} {root id : NodeId} {tree : Tree}

/-- A part whose value is not used stands where none is. -/
theorem wastes_of_isValueUsed {above : NodeId} {outer : Shape} {front back : List Tree} {part : Tree}
    (holds : store.Holds (.node above outer (front ++ part :: back)))
    (nodup : (Tree.node above outer (front ++ part :: back)).names.Nodup)
    (rooted : part.root = some id) (linked : store.parent (some id) = some above)
    (unused : isValueUsed store id = false) :
    outer.wastes front.length back.length = true := by
  obtain ⟨found, roots⟩ : store.shape? (some above) = some outer ∧
      outer.slots = (front ++ part :: back).map Tree.root := by
    cases holds with
    | node found _ roots => exact ⟨found, roots⟩
  rw [isValueUsed, linked, found] at unused
  cases outer
  case expressionStatement => rfl
  case elements kind items =>
    cases kind
    case sequence =>
      rcases List.eq_nil_or_concat back with rfl | ⟨most, last, rfl⟩
      · cases roots
        simp [rooted] at unused
      · simp [Shape.wastes]
    all_goals cases unused
  case loop kind initializer condition incrementor body =>
    cases kind
    case forLoop =>
      simp only [Bool.and_eq_false_iff, bne_eq_false_iff_eq] at unused
      have once := Nat.le_trans (Tree.count_roots_le (front ++ part :: back) id)
        (List.nodup_iff_count_le_one.mp (List.nodup_cons.mp nodup).2 id)
      rw [← roots] at once
      simp only [Shape.slots, List.count_cons, List.count_nil] at once
      rcases front with _ | ⟨first, _ | ⟨second, _ | ⟨third, _ | ⟨fourth, front⟩⟩⟩⟩
      · rfl
      · -- the condition is in no other slot
        simp only [Shape.slots, List.map_cons, List.cons_append, List.nil_append, List.cons.injEq,
          rooted] at roots
        obtain ⟨-, rfl, -⟩ := roots
        rcases unused with rfl | rfl
        all_goals
          simp only [if_true, BEq.rfl] at once
          omega
      · rfl
      · -- nor is the body
        simp only [Shape.slots, List.map_cons, List.cons_append, List.nil_append, List.cons.injEq,
          rooted] at roots
        obtain ⟨-, -, -, rfl, -⟩ := roots
        rcases unused with rfl | rfl
        all_goals
          simp only [if_true, BEq.rfl] at once
          omega
      · simp [Shape.slots] at roots
    all_goals cases unused
  all_goals cases unused

/-- A literal is a node without children. -/
theorem exists_literal {operand : Tree} (holds : store.Holds operand)
    (primitive : store.satisfies operand.root isPrimitiveLiteral = true) :
    ∃ leaf literal, operand = .node leaf literal [] ∧ isPrimitiveLiteral literal = true := by
  rw [satisfies, Option.any_eq_true] at primitive
  obtain ⟨literal, found, primitive⟩ := primitive
  obtain ⟨leaf, below, rfl, roots⟩ := holds.exists_node found
  refine ⟨leaf, literal, ?_, primitive⟩
  cases literal
  case literal | token =>
    rw [List.map_eq_nil_iff.mp roots.symm]
  all_goals cases primitive

theorem isPrimitiveLiteral_of_number? {slot : Slot} (number : (store.number? slot).isSome = true) :
    store.satisfies slot isPrimitiveLiteral = true := by
  unfold number? at number
  split at number
  · rename_i found
    rw [satisfies, found]
    rfl
  · cases number

theorem removeVoid_reworked (stands : store.Stands root tree) (inside : id ∈ tree.names) :
    store.Reworked (removeVoid store id) tree .removeVoid True := by
  unfold removeVoid
  split
  swap
  · exact .untouched nofun trivial
  rename_i operand found
  obtain ⟨below, within, holds, nodup, roots⟩ := stands.opened inside found
  obtain ⟨inner, rfl, rooted⟩ := Tree.one_of_roots roots
  have all := holds.holdsAll_below nodup
  subst rooted
  simp only
  split
  · rename_i isLiteral
    have primitive : store.satisfies inner.root isPrimitiveLiteral = true := by
      rw [Bool.or_eq_true, Bool.and_eq_true] at isLiteral
      exact isLiteral.elim isPrimitiveLiteral_of_number? And.left
    obtain ⟨leaf, literal, rfl, isPrimitive⟩ := exists_literal (all.holds inner (by simp)) primitive
    obtain ⟨later, name, made, work, needs, -, foundNew⟩ := (Rebuilds.refl all).andNode
      (.identifier "undefined") [] [.node leaf literal []] (.refl _) rfl rfl (List.forall_mem_nil _)
      rfl
    obtain ⟨last, remade, above, outer, changed, front, back, result, remakes, -, same, placed⟩ :=
      stands.replacingOpened_around within rfl rfl rfl work
        (.inr (by rw [needs]; exact List.nil_subset _)) (isQuietAt_of_shape? foundNew rfl).fits
    have fresh : store.nodes.size ≤ name := Nat.le_of_eq (Prod.mk.inj made).2
    simp only [makeIdentifier, made]
    rw [Tree.root_node] at result
    rw [result]
    exact .step remakes placed (.undefined isPrimitive fresh same)
  · split
    · exact .untouched nofun trivial
    · rename_i unused
      rw [Bool.not_eq_true] at unused
      obtain ⟨last, remade, above, outer, changed, front, back, result, remakes, linked, same, placed⟩ :=
        stands.replacingOpened_around within rfl rfl rfl (.refl all)
          (.inr (by
            rw [Tree.unmet_of_isClear rfl, Tree.unmetAll_cons]
            exact List.subset_append_left _ _))
          (stands.tidy.quietAt found (List.mem_singleton_self _)).fits
      have around := placed.within
      rw [result]
      exact .step remakes placed (.dropped (wastes_of_isValueUsed (stands.holds.within around)
        (around.nodup stands.nodup) rfl linked unused) same)

theorem shape?_of_binary? {slot left right : Slot} {operator : TokenKind}
    (found : binary? store slot = some (left, operator, right)) :
    store.shape? slot = some (.binary left operator right) := by
  unfold binary? at found
  split at found
  · rename_i there
    cases found
    exact there
  · cases found

theorem isTarget_of_isSimpleTarget {depth : Nat} {target : Tree} (holds : store.Holds target)
    (simple : isSimpleTarget store depth target.root = true) : target.IsTarget := by
  induction depth generalizing target with
  | zero => cases simple
  | succ depth ih =>
    cases holds with
    | nothing => cases simple
    | @node id shape below found regular roots links inner =>
      rw [isSimpleTarget, Tree.root_node, found] at simple
      split at simple
      · rename_i same
        cases same
        cases List.map_eq_nil_iff.mp roots.symm
        exact .name
      · rename_i same
        cases same
        cases List.map_eq_nil_iff.mp roots.symm
        exact .this
      · rename_i same
        cases same
        obtain ⟨first, second, rfl, rfl, rfl⟩ := Tree.two_of_roots roots
        exact .member (ih (inner first List.mem_cons_self) simple)
      · cases simple

/-- A conditional gives way to assignments in its branches, with a copy of the target. -/
theorem conditionalAssign_placed (stands : store.Stands root tree) (inside : id ∈ tree.names) :
    conditionalAssign store id = (store, .unchanged) ∨
      ∃ later remade assignment operator target copied test yes no first second whole,
        conditionalAssign store id = (later, .changed) ∧ Remakes store later tree remade [] ∧
        operator.isAssignment = true ∧ target.IsTarget ∧ copied.bare = target.bare ∧
        (∀ id ∈ copied.names, store.nodes.size ≤ id) ∧
        Tree.Within (.assigned assignment operator target (.chosen id test yes no)) tree ∧
        Tree.Placed (.assigned assignment operator target (.chosen id test yes no))
          (.chosen whole test (.assigned first operator target yes)
            (.assigned second operator copied no)) tree remade := by
  unfold conditionalAssign
  split
  swap
  · exact .inl rfl
  rename_i condition whenTrue whenFalse found
  simp only
  split
  swap
  · exact .inl rfl
  rename_i target operator value assigned
  split
  swap
  · exact .inl rfl
  rename_i applies
  simp only [Bool.and_eq_true, beq_iff_eq] at applies
  obtain ⟨⟨isAssignment, rfl⟩, simple⟩ := applies
  right
  obtain ⟨_, within, -, -, -⟩ := stands.opened inside found
  obtain ⟨assignment, shape, front, back, linked, around, -, -⟩ := stands.above within rfl found rfl
  rw [linked] at assigned ⊢
  have shaped := shape?_of_binary? assigned
  obtain ⟨below, outer, holds, nodup, roots⟩ :=
    stands.opened (around.names_subset List.mem_cons_self) shaped
  obtain ⟨first, second, rfl, rfl, rooted⟩ := Tree.two_of_roots roots
  have all := holds.holdsAll_below nodup
  obtain ⟨parts, rfl, slots⟩ := (all.holds second (by simp)).eq_node rooted found
  obtain ⟨test, left, right, rfl, rfl, rfl, rfl⟩ := Tree.three_of_roots slots
  -- what stands below the assignment, taken apart and copied
  have opened := (Rebuilds.opening (all.perm (List.Perm.swap _ first [])) rfl).permBefore
    (List.Perm.swap _ _ [])
  obtain ⟨copied, copying, copy, needed, -, bare, fresh⟩ := opened.andCopied (by simp : first ∈ _)
  have quiet : ∀ slot ∈ [test.root, left.root, right.root], store.IsQuietAt slot :=
    fun slot listed => stands.tidy.quietAt found listed
  have quietTarget : store.IsQuietAt first.root :=
    stands.tidy.quietAt shaped (by simp [Shape.quietSlots])
  have quietCopy : (store.copy first.root).1.IsQuietAt copied.root := by
    rintro child there
    rw [← copy] at there
    rw [← there]
    refine satisfies_copy stands.tidy ?_ rfl (by rw [there]; rfl)
    cases empty : first.root with
    | none =>
      rw [empty] at there
      cases there
    | some original => exact quietTarget original empty
  rw [copy]
  generalize (store.copy first.root).1 = middle at copying quietCopy ⊢
  have early : ∀ slot, store.IsQuietAt slot → middle.IsQuietAt slot :=
    fun slot quiet => quiet.carry copying.kinds
  obtain ⟨second, yes, made, work, needYes, kinds, foundYes⟩ := copying.andNode
    (.binary first.root operator left.root) [first, left] [copied, test, right]
    (Tree.perm_of_count fun _ => by simp [List.count_cons]; omega) rfl rfl
    (by simpa [Shape.quietSlots] using ⟨early _ quietTarget, early _ (quiet left.root (by simp))⟩)
    rfl
  obtain ⟨third, no, made', work', needNo, kinds', foundNo⟩ := work.andNode
    (.binary copied.root operator right.root) [copied, right]
    [.assigned yes operator first left, test]
    (Tree.perm_of_count fun _ => by simp [Tree.assigned, List.count_cons]; omega) rfl rfl
    (by simpa [Shape.quietSlots] using
      ⟨quietCopy.carry kinds, (early _ (quiet right.root (by simp))).carry kinds⟩) rfl
  obtain ⟨last, whole, made'', work'', needs, kinds'', foundNew⟩ := work'.andNode
    (.conditional test.root (some yes) (some no))
    [test, .assigned yes operator first left, .assigned no operator copied right] []
    (Tree.perm_of_count fun _ => by simp [Tree.assigned, List.count_cons]; omega) rfl rfl
    (by simpa [Shape.quietSlots] using ⟨((early _ (quiet test.root (by simp))).carry kinds).carry kinds',
        (isQuietAt_of_shape? foundYes rfl).carry kinds', isQuietAt_of_shape? foundNo rfl⟩) rfl
  obtain ⟨later, remade, result, remakes, placed⟩ := stands.replacingOpened_placed outer rfl rfl rfl
    work'' (.inr (by
      rw [needs, Tree.unmet_of_isClear rfl]
      simp only [Tree.unmetAll_cons, Tree.unmetAll_nil, Tree.assigned, needYes, needNo, needed]
      rw [Tree.unmet_of_isClear rfl]
      simp only [Tree.unmetAll_cons, Tree.unmetAll_nil]
      intro target
      simp only [List.mem_append]
      tauto)) (isQuietAt_of_shape? foundNew rfl).fits
  refine ⟨later, remade, assignment, operator, first, copied, test, left, right, yes, no, whole, ?_,
    remakes, isAssignment, isTarget_of_isSimpleTarget (all.holds first (by simp)) simple, bare, fresh, outer,
    placed⟩
  rw [made]
  simp only [made', made'']
  rw [Tree.root_node] at result
  rw [result]
  rfl

theorem conditionalAssign_reworked (stands : store.Stands root tree) (inside : id ∈ tree.names) :
    store.Reworked (conditionalAssign store id) tree .conditionalAssign True := by
  rcases conditionalAssign_placed stands inside with
    same | ⟨later, remade, _, _, _, _, _, _, _, _, _, _, result, remakes, assigns, simple, copy, fresh, -, placed⟩
  · rw [same]
    exact .untouched nofun trivial
  · rw [result]
    exact .step remakes placed (.assigned assigns simple copy fresh)

theorem exists_of_test? {slot test : Slot} (tested : test? store slot = some test) :
    ∃ thenBody elseBody,
      store.shape? slot = some (.conditionalStatement test thenBody elseBody) := by
  unfold test? at tested
  split at tested
  · rename_i there
    cases tested
    exact ⟨_, _, there⟩
  · cases tested

/-- A comparison of a number with a name, and its test. -/
theorem ifTestBinary_cases (store : Store) (id : NodeId) :
    ifTestBinary store id = (store, .unchanged) ∨
      ∃ test left right operator mirrored, test? store (some id) = some test ∧
        binary? store test = some (left, operator, right) ∧ operator.mirrored? = some mirrored ∧
        (store.number? left).isSome = true ∧ (store.identifier? right).isSome = true ∧
        ifTestBinary store id =
          (((store.swapOperands test).1.setOperator test mirrored).1, .changed) := by
  unfold ifTestBinary
  split
  · exact .inl rfl
  rename_i test tested
  split
  · exact .inl rfl
  rename_i left operator right compared
  split
  · exact .inl rfl
  rename_i mirrored mirrors
  split
  swap
  · exact .inl rfl
  rename_i sides
  rw [Bool.and_eq_true] at sides
  exact .inr ⟨test, left, right, operator, mirrored, tested, compared, mirrors, sides.1, sides.2, rfl⟩

theorem exists_number {operand : Tree} (holds : store.Holds operand)
    (number : (store.number? operand.root).isSome = true) :
    ∃ name digits value, operand = .node name (.literal .number digits (some value)) [] := by
  unfold number? at number
  split at number
  · rename_i digits value found
    obtain ⟨value, rfl⟩ := Option.isSome_iff_exists.mp number
    obtain ⟨name, below, rfl, roots⟩ := holds.exists_node found
    rw [List.map_eq_nil_iff.mp roots.symm]
    exact ⟨_, _, _, rfl⟩
  · cases number

theorem exists_identifier {operand : Tree} (holds : store.Holds operand)
    (named : (store.identifier? operand.root).isSome = true) :
    ∃ name text, operand = .node name (.identifier text) [] := by
  unfold identifier? at named
  split at named
  · rename_i text found
    obtain ⟨name, below, rfl, roots⟩ := holds.exists_node found
    rw [List.map_eq_nil_iff.mp roots.symm]
    exact ⟨_, _, rfl⟩
  · cases named

theorem ifTestBinary_reworked (stands : store.Stands root tree) (inside : id ∈ tree.names) :
    store.Reworked (ifTestBinary store id) tree .ifTestBinary True := by
  rcases ifTestBinary_cases store id with
    same | ⟨test, left, right, operator, mirrored, tested, compared, mirrors, number, named, result⟩
  · rw [same]
    exact .untouched nofun trivial
  obtain ⟨thenBody, elseBody, found⟩ := exists_of_test? tested
  have shaped := shape?_of_binary? compared
  cases test with
  | none => cases shaped
  | some comparison =>
    obtain ⟨within, -⟩ := stands.holds.slot_mem inside found (List.mem_cons_self)
    obtain ⟨below, inner, holds, nodup, roots⟩ := stands.opened within shaped
    obtain ⟨first, second, rfl, rfl, rfl⟩ := Tree.two_of_roots roots
    have all := holds.holdsAll_below nodup
    obtain ⟨digit, digits, value, rfl⟩ := exists_number (all.holds first (by simp)) number
    obtain ⟨name, text, rfl⟩ := exists_identifier (all.holds second (by simp)) named
    have turned : ((store.swapOperands (some comparison)).1.setOperator (some comparison) mirrored).1 =
        store.setShape comparison (.binary (some name) mirrored (some digit)) := by
      have swapped : (store.swapOperands (some comparison)).1 =
          store.setShape comparison (.binary (some name) operator (some digit)) := by
        simp only [swapOperands, shaped, Tree.root_node]
      have there : (store.setShape comparison (.binary (some name) operator (some digit))).shape?
          (some comparison) = some (.binary (some name) operator (some digit)) := by
        rw [shape?_setShape, if_pos ⟨rfl, lt_size_of_shape? shaped⟩]
      simp only [swapped, setOperator, there]
      exact store.setShape_setShape comparison _ _
    obtain ⟨remade, remakes, placed⟩ := stands.shuffled inner (.binary (some name) mirrored (some digit))
      (List.Perm.swap (Tree.node name (.identifier text) [])
        (.node digit (.literal .number digits (some value)) []) [])
      rfl rfl rfl rfl (by simp [Shape.quietSlots]) rfl rfl rfl
    rw [result, turned]
    exact .step remakes placed (.turned mirrors)

end Canonical

end Unflatten
