import Unflatten.Proofs.Dispatch.KnownKeys

/-! # What is left over is removed

When a loop has given way to its only run, declarations of its prelude are dropped, and the key
with its assignments.  Each removal leaves the program standing and what is known of the keys true,
wherever the statement or the declaration stands. -/

set_option autoImplicit false

namespace Unflatten

open Store

section Removing
variable {store later : Store} {root id container list : NodeId} {tree : Tree} {place : Nat}
  {shape : Shape} {slots declarations remaining : List Slot} {statement slot : Slot}
  {isStatement : Bool}

theorem Store.mem_of_position? (found : store.position? statement = some (container, place)) :
    store.parent statement = some container ∧ ∃ shape slots,
      store.shape? (some container) = some shape ∧ shape.statements? = some slots ∧
        statement ∈ slots := by
  obtain ⟨linked, shape, slots, shaped, has, there⟩ := getElem?_of_position? found
  exact ⟨linked, shape, slots, shaped, has, List.mem_of_getElem? there⟩

/-- A framed body with fewer statements is framed. -/
theorem Store.IsFramedBody.fewer {body prelude : NodeId} {front back : List Slot}
    (framed : store.IsFramedBody body prelude)
    (found : store.shape? (some body) = some shape)
    (has : shape.statements? = some (front ++ slot :: back)) (kinds : store.KeepsKinds later)
    (changed : later.shape? (some body) = shape.withStatements? (front ++ back)) :
    later.IsFramedBody body prelude := by
  obtain ⟨statements, block, steady, short⟩ := framed
  rw [found] at block
  cases block
  cases has
  refine ⟨front ++ back, changed, fun statement member => kinds.satisfies_isSteady
    (steady statement ?_), .inl ?_⟩
  · exact ((List.sublist_cons_self slot back).append_left front).subset member
  · have length : (front ++ slot :: back).length ≤ 2 := by
      rcases short with few | ⟨_, pair, -⟩
      · exact Nat.le_succ_of_le few
      · rw [pair]
        exact Nat.le_refl 2
    rw [List.length_append, List.length_cons] at length
    rw [List.length_append]
    omega

/-- A statement of the program is removed. -/
theorem removeStatement_inside (stands : store.Stands root tree) (inside : id ∈ tree.names)
    (position : (store.position? (some id)).isSome = true) :
    ∃ remade, Proceeds store (store.replaceStatement (some id) []).1 root tree remade := by
  obtain ⟨parent, outer, lead, front, part, back, above, rooted, within, leading, statements⟩ :=
    stands.listed inside position
  have holds := stands.holds.within within
  have nodup := within.nodup stands.nodup
  have found := holds.shape?_node
  have among : part ∈ lead ++ (front ++ part :: back) := by simp
  have below := holds.holdsAll_below nodup
  have alone : Rebuilds store store [part] ([] ++ [part]) :=
    .refl ((below.holds part among).alone (Tree.nodup_of_mem_namesAll below.nodup among))
  obtain ⟨later, changed, replaced, -, remakes⟩ := Remakes.replacingStatement holds nodup leading
    statements rooted above alone
    (fun later prelude kinds changed framed => by
      rw [List.append_nil, List.map_append] at changed
      rw [List.map_append, List.map_cons] at statements
      exact framed.fewer found statements kinds changed)
    (.inr (List.nil_subset _))
  obtain ⟨remade, whole, -⟩ := remakes.without.within within stands.holds stands.nodup
  rw [List.map_nil] at replaced
  rw [replaced]
  exact ⟨remade, stands.proceeds whole⟩

/-- A statement of a list outside the program is removed. -/
theorem removeStatement_outside (stands : store.Stands root tree) (outside : container ∉ tree.names)
    (position : store.position? statement = some (container, place)) :
    Proceeds store (store.replaceStatement statement []).1 root tree tree := by
  obtain ⟨-, shape, slots, shaped, has, -⟩ := mem_of_position? position
  rw [replaceStatement, position]
  simp only
  rcases splice_cases store (some container) place 1 [] with
    same | ⟨_, _, _, changed, later, same, found, statements, short, changes, spliced, reshapes⟩
  · rw [same]
    exact .refl stands
  cases same
  rw [shaped] at found
  cases found
  rw [has] at statements
  cases statements
  rw [spliced]
  obtain ⟨changedSlots, changedStatements⟩ := Shape.slots_of_withStatements? changes
  have isContainer : changed.isContainer = true := by
    rw [Shape.isContainer, changedStatements]
    rfl
  have shapeSlots := Shape.slots_of_statements? has
  have kept : slots.take place ++ [] ++ slots.drop (place + 1) ⊆ slots := by
    rw [List.append_nil]
    exact List.append_subset.mpr ⟨List.take_subset _ _, List.drop_subset _ _⟩
  have parts : slots = slots.take place ++ ((slots.drop place).take 1 ++ slots.drop (place + 1)) := by
    rw [← List.drop_drop, List.take_append_drop, List.take_append_drop]
  refine stands.aside shaped outside reshapes
    ⟨Shape.kind_withStatements? changes, ?_, ?_, ?_, ?_, List.nil_subset _,
      fun _ => admits_of_isContainer isContainer, .inl rfl⟩
  · cases changed <;> first | rfl | cases isContainer
  · rw [changedSlots, shapeSlots]
    exact List.append_subset.mpr ⟨List.subset_append_left _ _,
      List.Subset.trans kept (List.subset_append_right _ _)⟩
  · rw [changedStatements, has]
    exact kept
  · intro slot member
    rw [shapeSlots, List.mem_append, parts, List.mem_append, List.mem_append] at member
    simp only [changedSlots, List.append_nil, List.mem_append]
    tauto

/-- A statement is removed, wherever it stands. -/
theorem removeStatement_proceeds (stands : store.Stands root tree) (statement : Slot) :
    ∃ remade, Proceeds store (store.replaceStatement statement []).1 root tree remade := by
  cases position : store.position? statement with
  | none =>
    rw [replaceStatement, position]
    exact ⟨tree, .refl stands⟩
  | some at_ =>
    obtain ⟨container, place⟩ := at_
    obtain ⟨linked, shape, slots, shaped, has, listed⟩ := mem_of_position? position
    cases statement with
    | none => cases linked
    | some id =>
      by_cases inside : id ∈ tree.names
      · exact removeStatement_inside stands inside (by rw [position]; rfl)
      · have outside : container ∉ tree.names := fun there =>
          inside (stands.holds.slot_mem there shaped (Shape.statements?_subset has listed)).1
        exact ⟨tree, removeStatement_outside stands outside position⟩

/-! ## Declarations -/

/-- A list of declarations of the program keeps some of them. -/
theorem setDeclarations_inside (stands : store.Stands root tree) (inside : list ∈ tree.names)
    (found : store.shape? (some list) = some (.declarationList isStatement declarations))
    (fewer : remaining.Sublist declarations) :
    ∃ remade, Proceeds store (store.setDeclarations (some list) remaining).1 root tree remade ∧
      list ∈ remade.names := by
  obtain ⟨below, within, holds, nodup, slots⟩ := stands.opened inside found
  change declarations = below.map Tree.root at slots
  rw [slots] at fewer
  obtain ⟨kept, sublist, rfl⟩ := List.sublist_map_iff.mp fewer
  obtain ⟨dropped, perm⟩ := sublist.exists_perm_append
  have all := holds.holdsAll_below nodup
  have swapped := perm.trans List.perm_append_comm
  have work : Rebuilds store store (below ++ []) (kept ++ []) := by
    rw [List.append_nil, List.append_nil]
    exact (Rebuilds.keeping (all.perm swapped)).permBefore swapped.symm
  rcases setDeclarations_cases store (some list) (kept.map Tree.root) with
    same | ⟨id, _, removed, later, same, there, result, reshapes⟩
  · rw [same]
    exact ⟨tree, .refl stands, inside⟩
  cases same
  rw [found] at there
  cases there
  have closes : Rebuilds.Closes store list (.declarationList isStatement declarations)
      (.declarationList isStatement (kept.map Tree.root)) kept declarations (kept.map Tree.root) := by
    refine ⟨by cases isStatement <;> rfl, rfl,
      Shape.isRegular_of_not_isLoop fun _ _ _ _ _ => Shape.noConfusion,
      fun part member child rooted => .inl (List.mem_map.mpr ⟨part, member, rooted⟩),
      fun _ member => member, fun _ member => member, fun _ member => .inr member,
      fun tidy => ⟨fun child listed => ?_, fun child listed => ?_, rfl, .refl _⟩⟩
    · exact (tidy list _ found).quiet child (slots ▸ fewer.subset listed)
    · cases listed
  have notFramed : ∀ prelude, ¬ store.IsFramed list prelude := by
    rintro prelude ⟨body, ⟨_, _, _, _, shaped⟩, -⟩
    rw [found] at shaped
    cases shaped
  obtain ⟨rebuilds, link⟩ := Rebuilds.reshaping (holds.alone nodup) work reshapes closes
    fun prelude framed => (notFramed prelude framed).elim
  have remakes : Remakes store later (.node list (.declarationList isStatement declarations) below)
      (.node list (.declarationList isStatement (kept.map Tree.root)) kept) [] := by
    refine ⟨rebuilds, rfl, rfl, link, ?_, .inr ?_⟩
    · rintro body prelude same ⟨statements, shaped, -⟩
      cases same
      rw [found] at shaped
      cases shaped
    · rw [Tree.unmet_of_isClear rfl, Tree.unmet_of_isClear rfl]
      exact Tree.unmetAll_subset_of_subset sublist.subset
  obtain ⟨remade, whole, -, comes⟩ := remakes.within within stands.holds stands.nodup
  rw [result]
  exact ⟨remade, stands.proceeds whole, comes List.mem_cons_self⟩

/-- A list of declarations outside the program keeps some of them. -/
theorem setDeclarations_outside (stands : store.Stands root tree) (outside : list ∉ tree.names)
    (emptied : store.IsEmptied tree.names list)
    (found : store.shape? (some list) = some (.declarationList isStatement declarations))
    (fewer : remaining ⊆ declarations) :
    Proceeds store (store.setDeclarations (some list) remaining).1 root tree tree := by
  rcases setDeclarations_cases store (some list) remaining with
    same | ⟨id, _, removed, later, same, there, result, reshapes⟩
  · rw [same]
    exact .refl stands
  cases same
  rw [found] at there
  cases there
  rw [result]
  refine stands.aside found outside reshapes ⟨by cases isStatement <;> rfl, rfl, fewer,
    List.Subset.refl _, fun _ member => .inr member, fun _ member => member,
    fun tidy => ⟨fun child listed => ?_, fun child listed => ?_, rfl, .refl _⟩,
    .inr fun child listed => emptied isStatement declarations found child (fewer listed)⟩
  · exact (tidy list _ found).quiet child (fewer listed)
  · cases listed

/-- A declaration is removed, if the list it is linked to stands in the program or has left it with
all its declarations. -/
theorem removeDeclaration_proceeds (stands : store.Stands root tree) (declaration : NodeId)
    (placed : ∀ list, store.parent (some declaration) = some list →
      list ∈ tree.names ∨ store.IsEmptied tree.names list) :
    ∃ remade, Proceeds store (Collapse.removeDeclaration store declaration).1 root tree remade ∧
      ((Collapse.removeDeclaration store declaration).2 = false →
        ∀ list, store.parent (some declaration) = some list → list ∈ tree.names →
          list ∈ remade.names) := by
  unfold Collapse.removeDeclaration
  simp only
  split
  · obtain ⟨remade, proceeds⟩ := removeStatement_proceeds stands (store.parent (some declaration))
    exact ⟨remade, proceeds, fun gone => by cases gone⟩
  · rcases setDeclarations_cases store (store.parent (some declaration))
      (((store.declarations? (store.parent (some declaration))).getD []).filter
        (· != some declaration)) with
      same | ⟨list, isStatement, declarations, _, linked, found, -, -⟩
    · rw [same]
      exact ⟨tree, .refl stands, fun _ _ _ inside => inside⟩
    · rw [linked] at placed ⊢
      rw [declarations?, found, Option.getD_some]
      by_cases inside : list ∈ tree.names
      · obtain ⟨remade, proceeds, stays⟩ := setDeclarations_inside stands inside found
          (List.filter_sublist (p := (· != some declaration)))
        exact ⟨remade, proceeds, fun _ other same _ => by cases same; exact stays⟩
      · have emptied := (placed list rfl).resolve_left inside
        exact ⟨tree, setDeclarations_outside stands inside emptied found List.filter_sublist.subset,
          fun _ _ _ there => there⟩

end Removing

/-! ## A loop collapses -/

namespace Collapse

section Pruning
variable {store : Store} {root : NodeId} {key : DispatchKey} {tree : Tree} {prelude : Slot}
  {declaration : NodeId} {statements : List Slot}

theorem mem_of_unusedDeclaration? (unused : unusedDeclaration? store root prelude = some declaration) :
    ∃ list isStatement declarations, prelude = some list ∧
      store.shape? (some list) = some (.declarationList isStatement declarations) ∧
      some declaration ∈ declarations := by
  have listed := List.mem_of_find?_eq_some (Option.join_eq_some_iff.mp unused)
  cases has : store.declarations? prelude with
  | none =>
    rw [has] at listed
    cases listed
  | some declarations =>
    rw [has] at listed
    unfold declarations? at has
    split at has
    · rename_i shaped
      cases has
      cases prelude with
      | none => cases shaped
      | some list => exact ⟨list, _, _, rfl, shaped, listed⟩
    · cases has

/-- The declarations of a prelude in the program that nothing refers to are removed. -/
theorem trimPrelude_proceeds (limit : Nat) (stands : store.Stands root tree)
    (inside : ∀ list, prelude = some list → list ∈ tree.names) :
    ∃ remade, Proceeds store (trimPrelude root prelude limit store) root tree remade := by
  induction limit generalizing store tree with
  | zero => exact ⟨tree, .refl stands⟩
  | succ limit ih =>
    unfold trimPrelude
    split
    · exact ⟨tree, .refl stands⟩
    · rename_i declaration unused
      obtain ⟨list, isStatement, declarations, rfl, found, listed⟩ := mem_of_unusedDeclaration? unused
      have there := inside list rfl
      have linked := (stands.holds.slot_mem there found listed).2
      obtain ⟨remade, proceeds, stays⟩ := removeDeclaration_proceeds stands declaration
        fun other above => .inl (by rw [linked] at above; cases above; exact there)
      simp only
      split
      · exact ⟨remade, proceeds⟩
      · rename_i remains
        obtain ⟨last, further⟩ := ih proceeds.stands fun other same => by
          cases same
          exact stays (Bool.eq_false_of_not_eq_true remains) list linked there
        exact ⟨last, proceeds.trans further⟩

theorem removeStatements_proceeds (writes : List Slot) (stands : store.Stands root tree) :
    ∃ remade, Proceeds store
      (writes.foldl (fun store statement => (store.replaceStatement statement []).1) store)
      root tree remade := by
  induction writes generalizing store tree with
  | nil => exact ⟨tree, .refl stands⟩
  | cons statement rest ih =>
    obtain ⟨middle, first⟩ := removeStatement_proceeds stands statement
    obtain ⟨remade, second⟩ := ih first.stands
    exact ⟨remade, first.trans second⟩

/-- A key that is never read is removed, with its assignments. -/
theorem removeKey_proceeds (stands : store.Stands root tree) (known : Known store tree key) :
    ∃ remade, Proceeds store (removeKey store root key) root tree remade := by
  unfold removeKey
  split
  · exact ⟨tree, .refl stands⟩
  · rename_i writes _
    obtain ⟨middle, first⟩ := removeStatements_proceeds writes stands
    obtain ⟨remade, second, -⟩ := removeDeclaration_proceeds first.stands key.declaration
      fun list linked => (Classical.em (list ∈ middle.names)).imp id
        ((first.known known).emptied list linked)
    exact ⟨remade, first.trans second⟩

/-- Either nothing happens, or the loop gives way to the statements of its start case. -/
theorem collapse_eq (store : Store) (root : NodeId) (key : DispatchKey) :
    store.collapse root key = (onlyRun? store key).elim (store, false) fun statements =>
      match unroll store key statements with
      | (later, false) => (later, false)
      | (later, true) => (removeKey (trimPrelude root key.prelude
          (((later.declarations? key.prelude).getD []).length + 1) later) root key, true) := by
  unfold collapse unroll
  cases onlyRun? store key <;> rfl

theorem collapse_proceeds (stands : store.Stands root tree) (inside : key.loop ∈ tree.names)
    (known : Known store tree key) (isOpen : key.IsOpen) :
    ∃ remade, Proceeds store (store.collapse root key).1 root tree remade := by
  rw [collapse_eq]
  cases run : onlyRun? store key with
  | none => exact ⟨tree, .refl stands⟩
  | some statements =>
    obtain ⟨later, unrolled, result, remakes, stays, -⟩ :=
      unroll_remade stands inside (known.framed isOpen inside) known.place run
    have first := stands.proceeds remakes
    obtain ⟨trimmed, second⟩ := trimPrelude_proceeds
      (((later.declarations? key.prelude).getD []).length + 1) first.stands stays
    obtain ⟨remade, third⟩ := removeKey_proceeds second.stands (second.known (first.known known))
    simp only [Option.elim_some, result]
    exact ⟨remade, (first.trans second).trans third⟩

end Pruning

end Collapse

end Unflatten
