import Unflatten.Dispatch.Restore
import Unflatten.Proofs.Dispatch.MergedTable
import Unflatten.Proofs.Dispatch.Upkeep

/-! # A dispatcher is written again

The cases of a dispatcher are trees of their own until the table is written as a `switch`.  That
`switch` needs nothing that the dispatcher did not need: it meets every `break` in its clauses. -/

set_option autoImplicit false

namespace Unflatten

open Store

namespace CaseTable

section Emitting
variable {origin middle : Store} {trees made rest entry : List Tree}

/-- Adds the clause of one case. -/
def emitCase (state : Store × Array Slot) (case : Int × List Slot) : Store × Array Slot :=
  let (store, label) := state.1.makeNumber (Float.ofInt case.1)
  let (store, block) := store.makeBlock case.2
  let (store, clause) := store.makeClause (some label) [some block]
  (store, state.2.push (some clause))

theorem emit_eq (table : CaseTable) (store : Store) (key : String) :
    table.emit store key =
      let state := table.cases.toList.foldl emitCase (store, #[])
      let (store, discriminant) := state.1.makeIdentifier key
      store.make (.switch (some discriminant) state.2.toList) := rfl

/-- The clause of a case is made around its statements. -/
theorem emitCase_rebuilds (value : Int) (clauses : Array Slot)
    (work : Rebuilds origin middle trees (entry ++ rest)) :
    ∃ clause, (emitCase (middle, clauses) (value, entry.map Tree.root)).2 =
        clauses.push clause.root ∧
      Rebuilds origin (emitCase (middle, clauses) (value, entry.map Tree.root)).1 trees
        (clause :: rest) ∧
      clause.unmet = Tree.unmetAll entry := by
  obtain ⟨numbered, label, labelTree, madeLabel, labelRoot, labelWork, labelNeeds, -, -⟩ :=
    work.andNew (.literal .number (Number.format (Float.ofInt value)) (some (Float.ofInt value))) []
      _ (.refl _) rfl rfl (List.forall_mem_nil _) rfl
  obtain ⟨wrapped, block, blockTree, madeBlock, blockRoot, blockWork, blockNeeds, -, -⟩ :=
    labelWork.andNew (.block (entry.map Tree.root)) entry (labelTree :: rest)
      List.perm_middle.symm rfl rfl (List.forall_mem_nil _) rfl
  obtain ⟨later, clause, clauseTree, madeClause, clauseRoot, clauseWork, clauseNeeds, -, -⟩ :=
    blockWork.andNew (.clause false (some label) [some block]) [labelTree, blockTree] rest
      (.swap _ _ _) (by rw [← labelRoot, ← blockRoot]; rfl) rfl (List.forall_mem_nil _) rfl
  have emitted : emitCase (middle, clauses) (value, entry.map Tree.root) =
      (later, clauses.push (some clause)) := by
    unfold emitCase
    simp only [makeNumber, madeLabel, makeBlock, madeBlock, makeClause, Option.isNone_some,
      madeClause]
  rw [emitted]
  refine ⟨clauseTree, by rw [clauseRoot], clauseWork, ?_⟩
  rw [clauseNeeds, Tree.unmetAll_cons, labelNeeds, Tree.unmetAll_nil, List.nil_append,
    Tree.unmetAll_cons, blockNeeds, Tree.unmetAll_nil, List.append_nil]

/-- The clauses of the cases are made one after the other. -/
theorem emitCases_rebuilds (entries : List (Int × List Tree)) {clauses : Array Slot}
    (work : Rebuilds origin middle trees (entries.flatMap Prod.snd ++ made))
    (listed : made.map Tree.root = clauses.toList) :
    let state := (entries.map fun entry => (entry.1, entry.2.map Tree.root)).foldl emitCase
      (middle, clauses)
    ∃ more, (made ++ more).map Tree.root = state.2.toList ∧
      Rebuilds origin state.1 trees (made ++ more) ∧
      Tree.unmetAll more = Tree.unmetAll (entries.flatMap Prod.snd) := by
  induction entries generalizing middle made clauses with
  | nil => exact ⟨[], by rw [List.append_nil]; exact listed, by rw [List.append_nil]; exact work, rfl⟩
  | cons entry entries ih =>
    rw [List.flatMap_cons, List.append_assoc] at work
    obtain ⟨clause, pushed, emitted, needs⟩ := emitCase_rebuilds entry.1 clauses work
    have moved : (clause :: (entries.flatMap Prod.snd ++ made)).Perm
        (entries.flatMap Prod.snd ++ (made ++ [clause])) := by
      rw [← List.append_assoc]
      exact (List.perm_append_singleton clause _).symm
    have listed' : (made ++ [clause]).map Tree.root = (clauses.push clause.root).toList := by
      rw [List.map_append, listed, Array.toList_push, List.map_singleton]
    obtain ⟨more, all, further, also⟩ := ih (emitted.perm moved) listed'
    have step : emitCase (middle, clauses) (entry.1, entry.2.map Tree.root) =
        ((emitCase (middle, clauses) (entry.1, entry.2.map Tree.root)).1,
          clauses.push clause.root) := Prod.ext rfl pushed
    simp only [List.map_cons, List.foldl_cons]
    rw [step]
    refine ⟨clause :: more, ?_, ?_, ?_⟩
    · rw [← all, List.append_assoc]
      rfl
    · rw [List.append_assoc] at further
      exact further
    · rw [Tree.unmetAll_cons, needs, also, List.flatMap_cons, Tree.unmetAll_append]

/-- The `switch` of a table is made of the statements of its cases. -/
theorem emit_rebuilds {table : CaseTable} {entries : List (Int × List Tree)} {allowed : List Target}
    (lists : Merging.Lists table.cases entries)
    (work : Rebuilds origin middle trees (entries.flatMap Prod.snd))
    (needs : Tree.unmetAll (entries.flatMap Prod.snd) ⊆ .breaks :: allowed) (key : String) :
    ∃ later switch new, table.emit middle key = (later, switch) ∧ new.root = some switch ∧
      Rebuilds origin later trees [new] ∧ new.unmet ⊆ allowed ∧
      ∃ discriminant clauses, later.shape? (some switch) = some (.switch discriminant clauses) := by
  obtain ⟨ordered, perm, same⟩ := exists_perm_map_eq lists.toList_perm.symm
  have reordered := perm.flatMap_right Prod.snd
  have begun : Rebuilds origin middle trees (ordered.flatMap Prod.snd ++ []) := by
    rw [List.append_nil]
    exact work.perm reordered
  have none : ([] : List Tree).map Tree.root = (#[] : Array Slot).toList := rfl
  obtain ⟨clauses, listed, work', also⟩ := emitCases_rebuilds ordered begun none
  rw [same] at listed work'
  rw [emit_eq]
  simp only
  generalize table.cases.toList.foldl emitCase (middle, #[]) = state at listed work'
  obtain ⟨emitted, slots⟩ := state
  rw [List.nil_append] at listed work'
  obtain ⟨named, discriminant, nameTree, madeName, nameRoot, nameWork, nameNeeds, -, -⟩ :=
    work'.andNew (.identifier key) [] _ (.refl _) rfl rfl (List.forall_mem_nil _) rfl
  have whole : Rebuilds origin named trees ((nameTree :: clauses) ++ []) := by
    rw [List.append_nil]
    exact nameWork
  have roots : (Shape.switch (some discriminant) slots.toList).slots =
      (nameTree :: clauses).map Tree.root := by
    rw [List.map_cons, nameRoot, listed]
    rfl
  refine ⟨(named.make (.switch (some discriminant) slots.toList)).1, named.nodes.size,
    .node named.nodes.size (.switch (some discriminant) slots.toList) (nameTree :: clauses), ?_, rfl,
    whole.andAdd roots (.refl _) (List.forall_mem_nil _) (List.forall_mem_nil _) rfl, ?_,
    some discriminant, slots.toList, shape?_make_id named _⟩
  · simp only [makeIdentifier, madeName]
    rfl
  · intro target needed
    obtain ⟨inside, other⟩ := Tree.mem_unmet_switch.mp needed
    rw [Tree.unmetAll_cons, nameNeeds, Tree.unmetAll_nil, List.nil_append, also] at inside
    have allows := needs ((Tree.unmetAll_subset_of_subset reordered.symm.subset) inside)
    exact (List.mem_cons.mp allows).resolve_left other

end Emitting

end CaseTable


/-! ## One `switch` for another -/

namespace Store

section Switched
variable {store middle : Store} {root old body prelude : NodeId} {tree part new : Tree} {slot : Slot}
  {shape : Shape} {first second : List Slot}

theorem KeepsKinds.isSwitch {later : Store} (kinds : store.KeepsKinds later)
    (selects : store.isSwitch slot = true) : later.isSwitch slot = true := by
  rw [isSwitch_iff] at selects ⊢
  cases slot with
  | none => cases selects
  | some id => exact kinds id _ selects

/-- A framed body stays framed if a `switch` in it gives way to another. -/
theorem IsFramedBody.switched {later : Store} (framed : store.IsFramedBody body prelude)
    (found : store.shape? (some body) = some shape) (slots : shape.slots = first ++ some old :: second)
    (selects : store.isSwitch (some old) = true) (kinds : store.KeepsKinds later)
    (also : later.isSwitch slot = true)
    (changed : later.shape? (some body) = some (shape.withSlots (first ++ slot :: second))) :
    later.IsFramedBody body prelude := by
  obtain ⟨statements, block, steady, short⟩ := framed
  rw [found] at block
  cases block
  obtain rfl : statements = first ++ some old :: second := slots
  refine ⟨first ++ slot :: second, changed, fun statement member => ?_, ?_⟩
  · rcases List.mem_append.mp member with before | behind
    · exact kinds.satisfies_isSteady (steady statement (List.mem_append_left _ before))
    · rcases List.mem_cons.mp behind with rfl | after
      · obtain ⟨kept, there, same⟩ := Option.map_eq_some_iff.mp (isSwitch_iff.mp also)
        rw [satisfies, there]
        exact (isSteady_iff kept).mpr (.inr same)
      · exact kinds.satisfies_isSteady
          (steady statement (List.mem_append_right _ (List.mem_cons_of_mem _ after)))
  · rcases short with few | ⟨dispatcher, listed, kind⟩
    · refine .inl ?_
      rw [List.length_append, List.length_cons] at few ⊢
      exact few
    · -- the prelude is no switch, so the dispatcher is what has been replaced
      rcases first with _ | ⟨before, _ | ⟨next, rest⟩⟩
      · obtain ⟨same, -⟩ := List.cons.inj listed
        rw [isSwitch_iff, same, kind] at selects
        cases selects
      · obtain ⟨same, others⟩ := List.cons.inj listed
        obtain ⟨-, none⟩ := List.cons.inj others
        exact .inr ⟨slot, by rw [same, none]; rfl, kinds _ _ kind⟩
      · have lengths := congrArg List.length listed
        simp at lengths

/-- A `switch` of a program gives way to another that needs no more. -/
theorem Stands.replacingSwitch (stands : store.Stands root tree) (within : Tree.Within part tree)
    (rooted : part.root = some old) (selects : store.isSwitch (some old) = true)
    (work : Rebuilds store middle [] [new]) (also : middle.isSwitch new.root = true)
    (needs : new.unmet ⊆ part.unmet) :
    ∃ remade, Remakes store (middle.replaceNode (some old) new.root).1 tree remade [] ∧
      ∀ id ∈ tree.names, id ∈ part.names ∨ id ∈ remade.names := by
  obtain ⟨discriminant, clauses, found⟩ : ∃ discriminant clauses,
      store.shape? (some old) = some (.switch discriminant clauses) := by
    obtain ⟨shape, found, same⟩ := Option.map_eq_some_iff.mp (isSwitch_iff.mp selects)
    obtain ⟨discriminant, clauses, rfl⟩ := kind_eq_switchStatement same
    exact ⟨discriminant, clauses, found⟩
  obtain ⟨below, rfl, -⟩ := (stands.holds.within within).eq_node rooted found
  obtain ⟨parent, outer, front, back, linked, around, holds, nodup⟩ :=
    stands.above within rfl found rfl
  obtain ⟨shaped, roots⟩ : store.shape? (some parent) = some outer ∧ outer.slots =
      (front ++ .node old (.switch discriminant clauses) below :: back).map Tree.root := by
    cases holds with
    | node shaped _ roots => exact ⟨shaped, roots⟩
  have beside : Rebuilds store middle [.node old (.switch discriminant clauses) below]
      (new :: [.node old (.switch discriminant clauses) below]) :=
    work.beside ((stands.holds.within within).alone (within.nodup stands.nodup))
  have still : middle.shape? (some parent) = some outer := by
    rw [work.touches.shape parent (lt_size_of_shape? shaped) List.not_mem_nil, shaped]
  have foundMiddle : middle.shape? (some old) = some (.switch discriminant clauses) := by
    rw [work.touches.shape old (lt_size_of_shape? found) List.not_mem_nil, found]
  obtain ⟨outcome, newFound, newKind⟩ := Option.map_eq_some_iff.mp (isSwitch_iff.mp also)
  have newBody : middle.IsBodyAt new.root :=
    isBodyAt_of_shape? newFound (by rw [Shape.isBody, newKind]; rfl)
  obtain ⟨later, result, remakes⟩ := Remakes.swapping holds nodup beside rfl
    (by rw [satisfies, found]; rfl)
    (fun later prelude kinds changed framed => framed.switched shaped
      (by rw [roots, List.map_append, List.map_cons, Tree.root_node]) selects
      (work.kinds.trans kinds) (kinds.isSwitch also) changed)
    (Tree.NeedsNoMore.replaced (.inr needs) rfl rfl roots)
    (fun tidy asked => by
      have calm := (tidy parent outer still).quiet old asked
      rw [satisfies, foundMiddle] at calm
      cases calm)
    fun _ _ => newBody
  obtain ⟨remade, whole, stays, comes⟩ :=
    remakes.without.within around stands.holds stands.nodup
  have link : middle.parent (some old) = some parent := by
    rw [work.touches.parent old (lt_size_of_shape? found) List.not_mem_nil, linked]
  rw [replaceNode, link]
  simp only [result]
  refine ⟨remade, whole, fun id inside => ?_⟩
  rcases stays id inside with among | kept
  · simp only [Tree.names, Tree.namesAll_append, Tree.namesAll, List.mem_cons, List.mem_append] at among
    simp only [Tree.names, Tree.namesAll_append, Tree.namesAll, List.cons_subset,
      List.append_subset] at comes
    obtain ⟨top, before, -, after⟩ := comes
    rcases among with rfl | first | same | last
    · exact .inr top
    · exact .inr (before first)
    · exact .inl (by simpa only [Tree.names, List.mem_cons] using same)
    · exact .inr (after last)
  · exact .inr kept

/-- What a node of a tree lists stands below the root. -/
theorem Holds.slot_inner {id child : NodeId} (holds : store.Holds tree) (inside : id ∈ tree.names)
    (found : store.shape? (some id) = some shape) (listed : some child ∈ shape.slots) :
    child ∈ tree.inner := by
  cases holds with
  | nothing => cases inside
  | @node name there below foundThere regular roots links inner =>
    rcases List.mem_cons.mp inside with rfl | deeper
    · rw [foundThere] at found
      cases found
      rw [roots] at listed
      exact Tree.mem_namesAll_of_root listed
    · obtain ⟨tree, member, among⟩ := Tree.mem_namesAll.mp deeper
      exact Tree.mem_namesAll.mpr ⟨tree, member, ((inner tree member).slot_mem among found listed).1⟩

/-- A loop does not stand below a statement of its body. -/
theorem Holds.loop_not_mem {loop : NodeId} (holds : store.Holds part) (nodup : part.names.Nodup)
    (rooted : part.root = some old) (hasBody : store.HasBody loop body)
    (listed : some old ∈ store.statementsOf (some body)) : loop ∉ part.names := by
  intro inside
  obtain ⟨there, -⟩ := holds.hasBody_mem inside hasBody
  cases has : store.statements? (some body) with
  | none =>
    rw [Store.statementsOf, has] at listed
    cases listed
  | some slots =>
    rw [Store.statementsOf, has, Option.getD_some] at listed
    obtain ⟨shape, found, statements⟩ := Option.bind_eq_some_iff.mp has
    exact Tree.root_not_mem_inner nodup rooted
      (holds.slot_inner there found (Shape.statements?_subset statements listed))

end Switched

end Store

end Unflatten
