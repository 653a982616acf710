import Unflatten.Hoist
import Unflatten.Proofs.Canonical.Leading
import Unflatten.Proofs.Syntax.Escaping

/-! # Hoisted assignments leave programs standing

Between the brackets and the statement stand expressions only, and no function: the assignment
goes before the statement with all that its jumps need. -/

set_option autoImplicit false

namespace Unflatten

open Store

namespace Hoist

variable {store : Store} {root id access : NodeId} {tree part : Tree} {shape : Shape} {steps : Nat}

/-- A node that hands the jumps below it on to a statement. -/
structure Leads (store : Store) (tree part : Tree) (statement id : NodeId) : Prop where
  around : Tree.Within part tree
  rooted : part.root = some statement
  found : ∃ expression, store.shape? (some statement) = some (.expressionStatement expression)
  below : ∃ inner, Tree.Within inner part ∧ inner.root = some id ∧ inner.unmet ⊆ part.unmet
  clear : ∀ shape, store.shape? (some id) = some shape → shape.isClear = true ∧
    shape.quietSlots = shape.slots

/-- What hands jumps on can do so for a child. -/
theorem Leads.child {parent statement : NodeId} {outer : Shape} (stands : store.Stands root tree)
    (leads : Leads store tree part statement parent)
    (found : store.shape? (some parent) = some outer) (listed : some id ∈ outer.slots)
    (shaped : store.shape? (some id) = some shape) (noFunction : shape.isFunction = false) :
    Leads store tree part statement id := by
  obtain ⟨inner, within, rooted, fewer⟩ := leads.below
  obtain ⟨clear, slots⟩ := leads.clear outer found
  obtain ⟨below, rfl, roots⟩ := (stands.holds.within (within.trans leads.around)).eq_node rooted found
  rw [← slots] at listed
  have quiet := stands.tidy.quietAt found listed id rfl
  rw [satisfies, shaped, Option.any_some] at quiet
  rw [slots, roots] at listed
  obtain ⟨child, member, childRoot⟩ := List.mem_map.mp listed
  refine ⟨leads.around, leads.rooted, leads.found,
    ⟨child, (Tree.Within.deeper member .whole).trans within, childRoot, fun target needed => fewer ?_⟩,
    fun other there => ?_⟩
  · rw [Tree.unmet_of_isClear clear]
    exact Tree.mem_unmetAll.mpr ⟨child, member, needed⟩
  · rw [shaped] at there
    cases there
    exact ⟨Shape.isClear_of_isQuiet quiet noFunction, Shape.quietSlots_of_isQuiet quiet noFunction⟩

/-- The statement that evaluates a node stands above expressions only. -/
theorem exists_leads {statement : NodeId} (stands : store.Stands root tree)
    (inside : id ∈ tree.names)
    (above : statementAbove? store steps (some id) = some statement) :
    ∃ part, Leads store tree part statement id := by
  induction steps generalizing id with
  | zero => cases above
  | succ steps ih =>
    obtain ⟨inner, within, rooted⟩ := Tree.exists_within inside
    -- the search goes on from any node that is no function
    have climb : ∀ shape, store.shape? (some id) = some shape → shape.isFunction = false →
        statementAbove? store steps (store.parent (some id)) = some statement →
        ∃ part, Leads store tree part statement id := by
      intro shape found noFunction above
      cases linked : store.parent (some id) with
      | none =>
        rw [linked] at above
        cases steps <;> cases above
      | some parent =>
        rw [linked] at above
        obtain ⟨there, outer, shaped, listed⟩ := stands.parent_mem inside linked
        obtain ⟨part, leads⟩ := ih there above
        exact ⟨part, leads.child stands shaped listed found noFunction⟩
    rw [statementAbove?] at above
    split at above
    · cases above
    · rename_i expression found
      cases above
      refine ⟨inner, within, rooted, ⟨expression, found⟩, ⟨inner, .whole, rooted, List.Subset.refl _⟩,
        fun shape there => ?_⟩
      rw [found] at there
      cases there
      exact ⟨rfl, rfl⟩
    · cases above
    · cases above
    · rename_i found
      split at above
      · cases above
      · exact climb _ found rfl above
    · rename_i shape _ _ noFunction _ found
      split at above
      · cases above
      · refine climb shape found ?_ above
        cases shape
        case function => exact absurd rfl (noFunction _ _ _ _)
        all_goals rfl

theorem candidate?_spec {name : String} {assignment statement : Slot}
    (found : candidate? store access = some (name, assignment, statement)) :
    ∃ object target operator value, store.shape? (some access) =
        some (.access true object assignment) ∧
      store.shape? assignment = some (.binary target operator value) ∧
      statement = statementAbove? store store.depthBound (store.parent (some access)) ∧
      (store.position? statement).isSome = true ∧ operator.compound?.isSome = true ∧
      isLogicalAssignment operator = false ∧ store.identifier? target = some name ∧
      runsFirst store statement access object name = true := by
  unfold candidate? at found
  split at found
  · rename_i object index shaped
    split at found
    · rename_i target operator value assigned
      split at found
      · rename_i compound
        simp only [Option.bind_eq_bind, Option.bind_eq_some_iff] at found
        obtain ⟨text, named, found⟩ := found
        split at found
        · rename_i fits
          cases found
          rw [Bool.and_eq_true] at fits compound
          exact ⟨object, target, operator, value, shaped, assigned, rfl, fits.1, compound.1,
            (Bool.not_eq_true' _).mp compound.2, named, fits.2⟩
        · cases found
      · cases found
    · cases found
  · cases found

/-- A statement gives way to two, and what was in it is in one of them. -/
theorem mem_names_inserted {id name : NodeId} {shape changed : Shape}
    {lead front back : List Tree} {part new remade : Tree}
    (stays : name ∈ part.names → name ∈ new.names ∨ name ∈ remade.names)
    (inside : name ∈ (Tree.node id shape (lead ++ (front ++ part :: back))).names) :
    name ∈ (Tree.node id changed (lead ++ (front ++ new :: remade :: back))).names := by
  simp only [Tree.names, Tree.namesAll_append, Tree.namesAll, List.mem_cons, List.mem_append]
    at inside ⊢
  rcases inside with here | lead | front | part | back
  · exact .inl here
  · exact .inr (.inl lead)
  · exact .inr (.inr (.inl front))
  · exact .inr (.inr (.inr ((stays part).imp_right .inl)))
  · exact .inr (.inr (.inr (.inr (.inr back))))

/-- An assignment in brackets gives way to the name that is assigned to, and goes as a statement
before the one around.  The list of statements, the statement and the member are told with what they
become. -/
theorem hoist_placed (stands : store.Stands root tree) (inside : access ∈ tree.names)
    {name : String} {assignment statement : Slot}
    (found : candidate? store access = some (name, assignment, statement)) :
    ∃ later remade container shape changed lead front back part remadePart object assigned place
        spelled again before,
      hoist store access = (later, true) ∧ Remakes store later tree remade [] ∧
      assigned.root = assignment ∧ part.root = statement ∧ shape.isContainer = true ∧
      shape.leading.length = lead.length ∧ changed.withSlots [] = shape.withSlots [] ∧
      again.withSlots [] = place.withSlots [] ∧ Tree.Within part tree ∧
      Tree.Placed (.node container shape (lead ++ (front ++ part :: back)))
        (.node container changed (lead ++ (front ++
          .node before (.expressionStatement assignment) [assigned] :: remadePart :: back))) tree remade ∧
      Tree.Placed (.node access place [object, assigned])
        (.node access again [object, .node spelled (.identifier name) []]) part remadePart := by
  obtain ⟨object, target, operator, value, shaped, assigned, rfl, position, -⟩ := candidate?_spec found
  cases above : statementAbove? store store.depthBound (store.parent (some access)) with
  | none =>
    rw [above] at position
    cases position
  | some statement =>
  rw [above] at position found
  cases linked : store.parent (some access) with
  | none =>
    rw [linked] at above
    cases above
  | some parent =>
  rw [linked] at above
  obtain ⟨there, outer, outerFound, listed⟩ := stands.parent_mem inside linked
  obtain ⟨part, leadsParent⟩ := exists_leads stands there above
  have leads := leadsParent.child stands outerFound listed shaped rfl
  obtain ⟨expression, statementFound⟩ := leads.found
  obtain ⟨inner, within, rooted, fewer⟩ := leads.below
  -- the member with its object and the assignment
  have partHolds := stands.holds.within leads.around
  have partNodup := leads.around.nodup stands.nodup
  have innerHolds := partHolds.within within
  have innerNodup := within.nodup partNodup
  obtain ⟨below, rfl, roots⟩ := innerHolds.eq_node rooted shaped
  obtain ⟨first, second, rfl, rfl, rfl⟩ := Tree.two_of_roots roots
  obtain ⟨index, parts, same, -⟩ := (innerHolds.holdsAll_below innerNodup).holds second (by simp)
    |>.exists_node assigned
  have indexRoot : second.root = some index := by rw [same]; rfl
  have alone : store.HoldsAll [second] :=
    ((innerHolds.holdsAll_below innerNodup).holds second (by simp)).alone
      (Tree.nodup_of_mem_namesAll (List.nodup_cons.mp innerNodup).2 (by simp))
  obtain ⟨middle, identifier, made, work, needs, -, foundNew⟩ :=
    (Rebuilds.refl alone).andNode (.identifier name) [] [second] (.refl _) rfl rfl
      (List.forall_mem_nil _) rfl
  obtain ⟨later, replaces, remakes⟩ := @Remakes.replacing store middle [first] [] [second] second
    (.node identifier (.identifier name) []) access index (.access true first.root second.root) _
    innerHolds innerNodup work indexRoot (by rw [← indexRoot, assigned]) rfl
    (.inr (by rw [needs]; exact List.nil_subset _)) (isQuietAt_of_shape? foundNew rfl).fits
  obtain ⟨statementTree, remade, placed⟩ := remakes.within_placed within partHolds partNodup
  have quiet : later.IsQuietAt second.root :=
    (stands.tidy.quietAt shaped (by simp [Shape.quietSlots])).carry remakes.rebuilds.kinds
  have taken : later.HoldsAll ([statementTree] ++ [second]) := remade.rebuilds.all
  have work' : Rebuilds later (later.make (.expressionStatement second.root)).1 [second]
      [.node later.nodes.size (.expressionStatement second.root) [second]] :=
    @Rebuilds.andAdd later later [second] [second] [] (.expressionStatement second.root) _ _ _
      (.refl (holdsAll_append.mp taken).2.1) rfl (.refl _) (List.forall_mem_singleton.mpr quiet)
      (List.forall_mem_nil _) rfl
  have further := remade.further work'
  -- the list around the statement
  obtain ⟨container, listShape, lead, front, listPart, back, -, listRoot, around, leading,
    statements⟩ := stands.listed (leads.around.names_subset (Tree.mem_names_root leads.rooted)) position
  have samePart : listPart = part := by
    refine Store.Holds.unique (stands.holds.within (.trans (.deeper (by simp) .whole) around))
      partHolds (listRoot.trans leads.rooted.symm)
  subst samePart
  have plain : store.satisfies (some statement) Shape.isPlain = true := by
    rw [satisfies, statementFound]
    rfl
  obtain ⟨final, changed, result, kept, whole⟩ := Remakes.inserting (stands.holds.within around)
    (around.nodup stands.nodup) leading statements leads.rooted further plain (.inr (by
      refine List.Subset.trans (fun target needed => ?_) fewer
      rw [Tree.unmet_of_isClear rfl] at needed ⊢
      simp only [Tree.unmetAll_cons, Tree.unmetAll_nil, List.append_nil, List.mem_append] at needed ⊢
      exact .inr needed))
  obtain ⟨all, remakesAll, placedAll⟩ := whole.within_placed around stands.holds stands.nodup
  refine ⟨final, all, container, listShape, changed, lead, front, back, listPart, statementTree, first,
    second, _, identifier, _, later.nodes.size, ?_, remakesAll, rfl, leads.rooted,
    by rw [Shape.isContainer, statements]; rfl, by rw [leading, List.length_map], kept,
    Shape.withSlots_withSlots _ _ _, leads.around, placedAll, placed⟩
  have inserted : (later.make (.expressionStatement second.root)).1.insertBefore (some statement)
      [some later.nodes.size] = (final, true) := result
  simp only [hoist, found, makeIdentifier, made]
  rw [Tree.root_node] at replaces
  rw [indexRoot, replaces]
  simp only [makeExpressionStatement]
  rw [← indexRoot, make_id, inserted]

/-- An assignment goes before its statement, and no node is lost. -/
theorem hoist_remakes (stands : store.Stands root tree) (inside : access ∈ tree.names) :
    ∃ remade, Remakes store (hoist store access).1 tree remade [] ∧ tree.names ⊆ remade.names := by
  cases found : candidate? store access with
  | none =>
    refine ⟨tree, ?_, List.Subset.refl _⟩
    rw [hoist, found]
    exact .refl stands.holds stands.nodup
  | some candidate =>
    obtain ⟨name, assignment, statement⟩ := candidate
    obtain ⟨later, remade, container, shape, changed, lead, front, back, part, remadePart, object,
      assigned, place, spelled, again, before, result, remakes, -, -, -, -, -, -, -, placed, inner⟩ :=
      hoist_placed stands inside found
    refine ⟨remade, by rw [result]; exact remakes, fun id there => ?_⟩
    -- every node is in the list around, in the statement or in the assignment
    rcases placed.mem_or there with outside | still
    · refine placed.names_subset (mem_names_inserted (fun here => ?_) outside)
      rcases inner.mem_or here with member | still
      · simp only [Tree.names, Tree.namesAll, List.mem_cons, List.mem_append] at member
        rcases member with rfl | object | assigned | impossible
        · exact .inr (inner.names_subset List.mem_cons_self)
        · refine .inr (inner.names_subset ?_)
          simp only [Tree.names, Tree.namesAll, List.mem_cons, List.mem_append]
          exact .inr (.inl object)
        · refine .inl ?_
          simp only [Tree.names, Tree.namesAll, List.mem_cons, List.mem_append]
          exact .inr (.inl assigned)
        · cases impossible
      · exact .inr still
    · exact still

/-- One assignment after the other is moved; the members that are left are still there. -/
theorem hoists_remade (accesses : List NodeId) (state : Store × Nat) (tree : Tree)
    (stands : state.1.Stands root tree) (inside : ∀ access ∈ accesses, access ∈ tree.names) :
    state.1.Remade (accesses.foldl (fun (state : Store × Nat) access =>
      let (store, moved) := hoist state.1 access
      (store, if moved then state.2 + 1 else state.2)) state).1 tree := by
  induction accesses generalizing state tree with
  | nil => exact stands.unchanged
  | cons access rest ih =>
    obtain ⟨remade, first, still⟩ := hoist_remakes stands (inside access List.mem_cons_self)
    have stood : (hoist state.1 access).1.Stands root remade := stands.remade first
    obtain ⟨final, second⟩ := ih ((hoist state.1 access).1,
        if (hoist state.1 access).2 then state.2 + 1 else state.2) remade stood
      fun other member => still (inside other (List.mem_cons_of_mem _ member))
    exact ⟨final, first.trans second⟩

end Hoist

theorem hoistAssignments_remade {store : Store} {root : NodeId} {tree : Tree}
    (stands : store.Stands root tree) : store.Remade (store.hoistAssignments root).1 tree := by
  unfold Store.hoistAssignments
  refine Hoist.hoists_remade _ (store, 0) tree stands fun access member => ?_
  have there := (List.mem_filter.mp member).1
  rwa [← stands.rooted, (stands.holds.descendants_perm stands.nodup).mem_iff] at there

end Unflatten
