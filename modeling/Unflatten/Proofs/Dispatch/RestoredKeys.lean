import Unflatten.Proofs.Dispatch.FoundKeys
import Unflatten.Proofs.Dispatch.Removing
import Unflatten.Proofs.Dispatch.Restoring
import Unflatten.Proofs.Dispatch.Upkeep

/-! # Restored dispatchers

A dispatcher is restored on a copy, so a dispatcher that cannot be expanded stays as it was.  One
that can gives way to the `switch` of its merged cases, and its loop may collapse.  In both cases
the program stands, with jumps that need no more, and what is known of the keys stays true. -/

set_option autoImplicit false

namespace Unflatten

open Store

/-- Trees that are the same but for their names have roots of the same kind. -/
theorem Tree.kind?_of_bare {store later : Store} {tree copied : Tree} (holds : store.Holds tree)
    (also : later.Holds copied) (same : copied.bare = tree.bare) :
    later.kind? copied.root = store.kind? tree.root := by
  cases holds with
  | nothing =>
    cases also with
    | nothing => rfl
    | node => cases same
  | @node id shape below found =>
    cases also with
    | nothing => cases same
    | @node other shape' below' found' =>
      rw [Tree.bare, Tree.bare, Tree.node.injEq] at same
      have kinds := congrArg Shape.kind same.2.1
      rw [Shape.kind_withSlots, Shape.kind_withSlots] at kinds
      rw [kind?, kind?, Tree.root_node, Tree.root_node, found, found', Option.map_some, Option.map_some,
        kinds]

/-- Only a `switch` can be expanded. -/
theorem Expansion.isSwitch_of_expand {store : Store} {key : DispatchKey} {dispatcher : Slot}
    {values : List Int} {work : Expansion}
    (expanded : expand store key dispatcher values = (work, none)) :
    store.isSwitch dispatcher = true := by
  rw [expand, expandWithin] at expanded
  split at expanded
  · rename_i discriminant clauses found
    simp only [isSwitch, discriminant?, found]
    rfl
  · cases expanded

namespace Restore

section Dispatchers
variable {store : Store} {root id : NodeId} {tree : Tree} {key : DispatchKey} {work : Expansion}

/-- The dispatcher stands in the body of the loop. -/
theorem exists_hasBody (dispatches : key.dispatcher? store = some id) :
    ∃ body, store.HasBody key.loop body ∧ some id ∈ store.statementsOf (some body) := by
  have listed : some id ∈ store.loopBody key.loop :=
    List.mem_of_getElem? (Option.join_eq_some_iff.mp dispatches)
  unfold loopBody at listed
  split at listed
  · rename_i kind initializer condition incrementor body shaped
    cases body with
    | none => cases listed
    | some body => exact ⟨body, ⟨kind, initializer, condition, incrementor, shaped⟩, listed⟩
  · cases listed

/-- A loop stands in the program if its `switch` does. -/
theorem loop_mem (known : Known store tree key) (dispatches : key.dispatcher? store = some id)
    (inside : id ∈ tree.names) (selects : store.isSwitch (some id) = true) : key.loop ∈ tree.names := by
  by_contra gone
  obtain ⟨body, hasBody, listed⟩ := exists_hasBody dispatches
  exact ((known.spent gone body hasBody).2.2 id listed).2 selects inside

/-- The prelude of a key is a tree. -/
theorem exists_prelude (stands : store.Stands root tree) (known : Known store tree key)
    (isOpen : key.IsOpen) (inside : key.loop ∈ tree.names)
    (dispatches : key.dispatcher? store = some id) :
    ∃ prelude, store.Holds prelude ∧ prelude.root = key.prelude := by
  obtain ⟨body, hasBody, found, -⟩ := Collapse.body_of_framed (known.framed isOpen inside) known.place
    (by rw [dispatches]; rfl)
  cases given : key.prelude with
  | none => exact ⟨.nothing, .nothing, rfl⟩
  | some prelude =>
    have listed : some prelude ∈ store.statementsOf (some body) := by
      rw [statementsOf, statements?, found, given]
      exact List.mem_cons_self
    obtain ⟨part, within, rooted⟩ :=
      Tree.exists_within ((stands.holds.hasBody_mem inside hasBody).2 prelude listed)
    exact ⟨part, stands.holds.within within, rooted⟩

/-- A dispatcher that cannot be expanded stays. -/
theorem mismatched_remakes (stands : store.Stands root tree) (inside : id ∈ tree.names)
    {mismatch : Mismatch}
    (expanded : expand (store.copy (some id)).1 key (store.copy (some id)).2 key.liveValues =
      (work, some mismatch)) : Remakes store work.store tree tree [] := by
  obtain ⟨part, within, rooted⟩ := Tree.exists_within inside
  rw [← rooted] at expanded
  exact (Remakes.refl stands.holds stands.nodup).further
    (Expansion.rebuilds_of_expand_copy (stands.holds.within within) (within.nodup stands.nodup) key _
      expanded ⟨List.forall_mem_nil _, List.nodup_nil⟩ (List.forall_mem_nil _))

/-- The `switch` of the merged cases takes the place of the dispatcher. -/
theorem restored_remakes (stands : store.Stands root tree) (known : Known store tree key)
    (isOpen : key.IsOpen) (dispatches : key.dispatcher? store = some id) (inside : id ∈ tree.names)
    (expanded : expand (store.copy (some id)).1 key (store.copy (some id)).2 key.liveValues =
      (work, none)) {middle later : Store} {table : CaseTable} {isSettled : Bool} {switch : NodeId}
    (merged : CaseTable.merge ⟨key.histogram, work.cases⟩ work.store key.mergeKey =
      (middle, table, isSettled)) (emitted : table.emit middle key.name = (later, switch)) :
    ∃ remade, Remakes store (later.replaceNode (some id) (some switch)).1 tree remade [] ∧
      key.loop ∈ tree.names ∧ key.loop ∈ remade.names := by
  obtain ⟨part, within, rooted⟩ := Tree.exists_within inside
  have holds := stands.holds.within within
  have nodup := within.nodup stands.nodup
  -- only a `switch` expands, so the loop is there with its prelude
  have selects : store.isSwitch (some id) = true := by
    obtain ⟨copied, -, isCopy, isRoot⟩ := copy_copies holds rooted nodup
    have onCopy := Expansion.isSwitch_of_expand expanded
    rw [isRoot, isSwitch_iff, Tree.kind?_of_bare holds isCopy.holds isCopy.bare, rooted,
      ← isSwitch_iff] at onCopy
    exact onCopy
  have there := loop_mem known dispatches inside selects
  obtain ⟨prelude, held, same⟩ := exists_prelude stands known isOpen there dispatches
  rw [← rooted] at expanded
  obtain ⟨entries, listed, built, needs⟩ :=
    Expansion.expand_copy_rebuilds holds nodup held same expanded
  -- the cases are merged and written back
  have laid : Merging.Laid ⟨work.store, ⟨key.histogram, work.cases⟩, ∅, false⟩ entries [] :=
    ⟨.of_toList listed, built.all⟩
  obtain ⟨mergedEntries, removals, merges⟩ :=
    Merging.sweepAll_merges key.mergeKey maxMergeSweeps laid
  rw [CaseTable.merge] at merged
  generalize Merging.sweepAll key.mergeKey maxMergeSweeps
    ⟨work.store, ⟨key.histogram, work.cases⟩, ∅, false⟩ = swept at merges merged
  obtain ⟨⟨_, _, _, _⟩, _⟩ := swept
  cases merged
  have moved : Rebuilds store _ [] (mergedEntries.flatMap Prod.snd) :=
    built.trans merges.moves.rebuilds
  have fewer : Tree.unmetAll (mergedEntries.flatMap Prod.snd) ⊆ .breaks :: part.unmet :=
    List.Subset.trans merges.moves.needs needs
  obtain ⟨_, _, new, result, newRoot, made, calm, discriminant, clauses, shaped⟩ :=
    CaseTable.emit_rebuilds merges.lists moved fewer key.name
  rw [emitted] at result
  cases result
  have also : later.isSwitch new.root = true := by
    rw [newRoot, isSwitch, discriminant?, shaped]
    rfl
  obtain ⟨remade, remakes, stays⟩ := stands.replacingSwitch within rooted selects made also calm
  rw [newRoot] at remakes
  obtain ⟨body, hasBody, among⟩ := exists_hasBody dispatches
  exact ⟨remade, remakes, there,
    (stays key.loop there).resolve_left (holds.loop_not_mem nodup rooted hasBody among)⟩

/-- A dispatcher in the program is restored, or stays. -/
theorem restoreDispatcher_proceeds (stands : store.Stands root tree) (known : Known store tree key)
    (isOpen : key.IsOpen) (findings : Findings)
    (attached : store.isAttached root (key.dispatcher? store) = true) :
    ∃ remade, Proceeds store
      (restoreDispatcher store root findings key (key.dispatcher? store)).1 root tree remade := by
  cases dispatches : key.dispatcher? store with
  | none =>
    rw [dispatches] at attached
    cases attached
  | some id =>
    rw [dispatches] at attached
    have inside := stands.mem_of_isAttached attached
    unfold restoreDispatcher
    simp only
    split
    · rename_i expanded
      exact ⟨tree, stands.proceeds (mismatched_remakes stands inside expanded)⟩
    · rename_i work expanded
      generalize merged : CaseTable.merge ⟨key.histogram, work.cases⟩ work.store key.mergeKey = outcome
      obtain ⟨middle, table, isSettled⟩ := outcome
      generalize emitted : table.emit middle key.name = written
      obtain ⟨later, switch⟩ := written
      obtain ⟨replaced, remakes, there, stays⟩ :=
        restored_remakes stands known isOpen dispatches inside expanded merged emitted
      have first := stands.proceeds remakes
      obtain ⟨remade, second⟩ :=
        Collapse.collapse_proceeds first.stands stays (first.known known) isOpen
      refine ⟨remade, ?_⟩
      have both := first.trans second
      split <;> rename_i collapsed <;> rw [collapsed] at both <;> exact both

end Dispatchers

section Keys
variable {store : Store} {root : NodeId} {tree : Tree} {findings : Findings}

/-- A dispatcher is not taken on again. -/
theorem restoreDispatcher_keys (store : Store) (root : NodeId) (findings : Findings)
    (key : DispatchKey) (dispatcher : Slot) :
    ∃ change, (∀ other, DispatchKey.Agrees other (change other)) ∧
      (∀ other, (change other).isVisited = true) ∧
      (restoreDispatcher store root findings key dispatcher).2.1.keys =
        (findings.updateKey key.name change).keys := by
  unfold restoreDispatcher
  simp only
  split
  · exact ⟨fun key => { key with isVisited := true }, fun _ => ⟨rfl, rfl, rfl, rfl, rfl⟩,
      fun _ => rfl, rfl⟩
  · rename_i work expanded
    generalize CaseTable.merge ⟨key.histogram, work.cases⟩ work.store key.mergeKey = outcome
    obtain ⟨middle, table, isSettled⟩ := outcome
    refine ⟨fun key => { key with histogram := table.histogram, isVisited := true },
      fun _ => ⟨rfl, rfl, rfl, rfl, rfl⟩, fun _ => rfl, ?_⟩
    split <;> cases isSettled <;> rfl

theorem restoreKey_proceeds (stands : store.Stands root tree) (hold : findings.Hold store tree)
    (count : Nat) (name : String) :
    ∃ remade, Proceeds store (restoreKey root (store, findings, count) name).1 root tree remade ∧
      (restoreKey root (store, findings, count) name).2.1.Hold
        (restoreKey root (store, findings, count) name).1 remade := by
  unfold restoreKey
  simp only
  split
  · exact ⟨tree, .refl stands, hold⟩
  · rename_i key found
    split
    · exact ⟨tree, .refl stands, hold⟩
    · rename_i ready
      simp only [Bool.or_eq_true, not_or, Bool.not_eq_true, Bool.not_eq_false'] at ready
      obtain ⟨⟨⟨fresh, free⟩, counted⟩, attached⟩ := ready
      have isOpen : key.IsOpen := ⟨fresh, Option.not_isSome_iff_eq_none.mp (by simp [free]), counted⟩
      have known := hold.known key (List.mem_of_find?_eq_some found)
      obtain ⟨remade, proceeds⟩ := restoreDispatcher_proceeds stands known isOpen findings attached
      obtain ⟨change, agrees, visited, keys⟩ :=
        restoreDispatcher_keys store root findings key (key.dispatcher? store)
      generalize restoreDispatcher store root findings key (key.dispatcher? store) = outcome
        at proceeds keys
      obtain ⟨later, noted, isRestored⟩ := outcome
      refine ⟨remade, proceeds, ((hold.proceeds proceeds).updateKey agrees ?_).of_keys keys⟩
      intro other _ _ reopened
      rw [DispatchKey.IsOpen, visited other] at reopened
      cases reopened.1

theorem foldl_restoreKey_proceeds (names : List String) (stands : store.Stands root tree)
    (hold : findings.Hold store tree) (count : Nat) :
    ∃ remade, Proceeds store (names.foldl (restoreKey root) (store, findings, count)).1 root tree
        remade ∧
      (names.foldl (restoreKey root) (store, findings, count)).2.1.Hold
        (names.foldl (restoreKey root) (store, findings, count)).1 remade := by
  induction names generalizing store findings tree count with
  | nil => exact ⟨tree, .refl stands, hold⟩
  | cons name rest ih =>
    obtain ⟨middle, first, held⟩ := restoreKey_proceeds stands hold count name
    rw [List.foldl_cons]
    generalize restoreKey root (store, findings, count) name = state at first held
    obtain ⟨later, noted, more⟩ := state
    obtain ⟨remade, second, kept⟩ := ih first.stands held more
    exact ⟨remade, first.trans second, kept⟩

end Keys

end Restore

/-- Restoring the dispatchers leaves the program standing and the findings true. -/
theorem restoreDispatchers_proceeds {store : Store} {root : NodeId} {tree : Tree}
    {findings : Findings} (stands : store.Stands root tree) (hold : findings.Hold store tree) :
    ∃ remade, Proceeds store (restoreDispatchers store root findings).1 root tree remade ∧
      (restoreDispatchers store root findings).2.1.Hold
        (restoreDispatchers store root findings).1 remade :=
  Restore.foldl_restoreKey_proceeds _ stands hold 0

end Unflatten
