import Unflatten.Dispatch.Restore
import Unflatten.Proofs.Dispatch.Expanding
import Unflatten.Proofs.Dispatch.TrackedKeys
import Unflatten.Proofs.Syntax.Moving

/-! # Counts after expansion

The counts of a tracked key are those of its dispatcher.  The case table has the statements of
the dispatcher except those of clauses that were dropped, and copies of those that a clause
falls through into.  So the counts cover the table of a value exactly if no more of its
statements were copied than dropped. -/

set_option autoImplicit false

namespace Unflatten

namespace Expansion

/-- The statements below some slots that give the key a value. -/
def statementsBelow (store : Store) (key : String) (value : Int) (slots : List Slot) : List NodeId :=
  (slots.flatMap store.descendants).filter fun id => store.keyValue? (some id) key == some value

/-- The statements of the case table that give the key a value. -/
def tableStatements (work : Expansion) (key : String) (value : Int) : List NodeId :=
  statementsBelow work.store key value (work.cases.toList.flatMap Prod.snd)

/-- Those that were made by the expansion. -/
def copiedStatements (before : Store) (work : Expansion) (key : String) (value : Int) : List NodeId :=
  (work.tableStatements key value).filter fun id => before.nodes.size ≤ id

/-- The statements of the dispatcher that are not in the case table. -/
def droppedStatements (before : Store) (dispatcher : Slot) (work : Expansion) (key : String)
    (value : Int) : List NodeId :=
  (statementsBelow before key value [dispatcher]).filter fun id =>
    !(work.tableStatements key value).contains id

section Below
variable {store : Store} {trees : List Tree} {key : String} {value : Int}

theorem statementsBelow_perm (holds : ∀ tree ∈ trees, store.Holds tree)
    (nodup : ∀ tree ∈ trees, tree.names.Nodup) :
    (statementsBelow store key value (trees.map Tree.root)).Perm
      (Tree.keyStatementsAll key value trees) := by
  induction trees with
  | nil => exact .refl _
  | cons tree rest ih =>
    have held := holds tree List.mem_cons_self
    have here := (held.descendants_perm (nodup tree List.mem_cons_self)).filter
      fun id => store.keyValue? (some id) key == some value
    rw [held.filter_names] at here
    have others := ih (fun other member => holds other (List.mem_cons_of_mem tree member))
      fun other member => nodup other (List.mem_cons_of_mem tree member)
    rw [statementsBelow, List.map_cons, List.flatMap_cons, List.filter_append]
    exact here.append others

end Below

section Table
variable {size : Nat} {own : List Tree} {work : Expansion} {table : Table} {key : String} {value : Int}

/-- The trees of the cases, with their values. -/
theorem IsTable.exists_cases (isTable : IsTable size own work table) :
    ∃ entries : List (Int × List Tree),
      work.cases.toList = entries.map (fun entry => (entry.1, entry.2.map Tree.root)) ∧
      (∀ entry ∈ entries, table entry.1 = some entry.2) ∧
      work.store.HoldsAll (entries.flatMap Prod.snd) := by
  have found : ∀ pair ∈ work.cases.toList, ∃ entry, table pair.1 = some entry ∧
      pair.2 = entry.map Tree.root := by
    intro pair member
    have listed := Std.TreeMap.mem_toList_iff_getElem?_eq_some.mp member
    rw [isTable.cases] at listed
    obtain ⟨entry, set, same⟩ := Option.map_eq_some_iff.mp listed
    exact ⟨entry, set, same.symm⟩
  have distinct : work.cases.toList.Pairwise fun first second => first.1 ≠ second.1 :=
    Std.TreeMap.distinct_keys_toList.imp fun differs same => differs (compare_eq_iff_eq.mpr same)
  generalize work.cases.toList = pairs at found distinct
  induction pairs with
  | nil => exact ⟨[], rfl, List.forall_mem_nil _, List.forall_mem_nil _, .nil⟩
  | cons pair rest ih =>
    obtain ⟨entry, set, slots⟩ := found pair List.mem_cons_self
    obtain ⟨differs, distinctRest⟩ := List.pairwise_cons.mp distinct
    obtain ⟨entries, rfl, sets, all⟩ :=
      ih (fun other member => found other (List.mem_cons_of_mem pair member)) distinctRest
    refine ⟨(pair.1, entry) :: entries, ?_, List.forall_mem_cons.mpr ⟨set, sets⟩, ?_⟩
    · rw [List.map_cons, ← slots]
    · rw [List.flatMap_cons]
      refine Store.holdsAll_append.mpr ⟨⟨fun tree => isTable.holds set tree, isTable.nodup set⟩, all,
        fun id here there => ?_⟩
      obtain ⟨tree, member, inside⟩ := Tree.mem_namesAll.mp there
      obtain ⟨other, listed, among⟩ := List.mem_flatMap.mp member
      refine isTable.apart (differs _ (List.mem_map_of_mem listed)) set (sets other listed) here ?_
      exact Tree.mem_namesAll.mpr ⟨tree, among, inside⟩

/-- The trees of all cases. -/
theorem IsTable.exists_entries (isTable : IsTable size own work table) :
    ∃ entries : List Tree, work.cases.toList.flatMap Prod.snd = entries.map Tree.root ∧
      (∀ tree ∈ entries, work.store.Holds tree) ∧ (Tree.namesAll entries).Nodup ∧
      ∀ key value, ∀ id ∈ Tree.keyStatementsAll key value entries,
        id ∈ Tree.keyStatementsAll key value own ∨ size ≤ id := by
  obtain ⟨entries, listed, sets, all⟩ := isTable.exists_cases
  refine ⟨entries.flatMap Prod.snd, ?_, all.holds, all.nodup, fun key value id inside => ?_⟩
  · rw [listed, List.flatMap_map, List.map_flatMap]
  · rw [Tree.keyStatementsAll_eq] at inside
    obtain ⟨tree, member, there⟩ := List.mem_flatMap.mp inside
    obtain ⟨entry, among, listed⟩ := List.mem_flatMap.mp member
    refine isTable.source (sets entry among) key value id ?_
    rw [Tree.keyStatementsAll_eq]
    exact List.mem_flatMap.mpr ⟨tree, listed, there⟩

end Table

/-- A key with its counts and the values that leave the loop. -/
def counted (key : DispatchKey) (tracked : Tracking.Tracked) : DispatchKey :=
  { key with histogram := tracked.histogram, exits := tracked.exits }

/-- The counts of a key cover the case table for a value: its statements there, and the start. -/
def Covers (key : DispatchKey) (work : Expansion) (value : Int) : Prop :=
  (work.tableStatements key.name value).length + (if value = key.start then 1 else 0) ≤
    key.histogram.count value

section Counts
variable {before : Store} {work : Expansion} {key : String} {value : Int} {tree : Tree}
  {entries : List Tree}

/-- The statements of the table are those of the dispatcher that were not dropped, and copies. -/
theorem length_tableStatements
    (holds : before.Holds tree) (nodup : tree.names.Nodup)
    (slots : work.cases.toList.flatMap Prod.snd = entries.map Tree.root)
    (held : ∀ entry ∈ entries, work.store.Holds entry) (distinct : (Tree.namesAll entries).Nodup)
    (source : ∀ id ∈ Tree.keyStatementsAll key value entries,
      id ∈ tree.keyStatements key value ∨ before.nodes.size ≤ id) :
    (work.tableStatements key value).length +
        (droppedStatements before tree.root work key value).length =
      (tree.keyStatements key value).length + (copiedStatements before work key value).length := by
  have inTable : (work.tableStatements key value).Perm (Tree.keyStatementsAll key value entries) := by
    rw [tableStatements, slots]
    exact statementsBelow_perm held fun entry member => Tree.nodup_of_mem_namesAll distinct member
  have inDispatcher : (statementsBelow before key value [tree.root]).Perm
      (tree.keyStatements key value) := by
    have whole := @statementsBelow_perm before [tree] key value (by simpa using holds)
      (by simpa using nodup)
    rw [Tree.keyStatementsAll, Tree.keyStatementsAll, List.append_nil] at whole
    exact whole
  have nodupTable : (work.tableStatements key value).Nodup :=
    inTable.symm.nodup ((Tree.keyStatementsAll_sublist key value entries).nodup distinct)
  have nodupDispatcher : (statementsBelow before key value [tree.root]).Nodup :=
    inDispatcher.symm.nodup ((Tree.keyStatements_sublist key value tree).nodup nodup)
  -- what is in both: the statements of the table that are no copies
  have both : ((work.tableStatements key value).filter fun id => !decide (before.nodes.size ≤ id)).Perm
      ((statementsBelow before key value [tree.root]).filter fun id =>
        (work.tableStatements key value).contains id) := by
    refine (List.perm_ext_iff_of_nodup (nodupTable.filter _) (nodupDispatcher.filter _)).mpr
      fun id => ?_
    rw [List.mem_filter, List.mem_filter, List.contains_iff_mem, inDispatcher.mem_iff]
    constructor
    · rintro ⟨inside, old⟩
      rcases source id (inTable.mem_iff.mp inside) with here | beyond
      · exact ⟨here, inside⟩
      · simp [beyond] at old
    · rintro ⟨here, inside⟩
      have bound := holds.lt_size ((Tree.keyStatements_sublist key value tree).subset here)
      refine ⟨inside, ?_⟩
      simpa using bound
  have splitTable : (work.tableStatements key value).length =
      (copiedStatements before work key value).length +
        ((work.tableStatements key value).filter fun id => !decide (before.nodes.size ≤ id)).length :=
    List.length_eq_length_filter_add fun id => decide (before.nodes.size ≤ id)
  have splitDispatcher : (statementsBelow before key value [tree.root]).length =
      ((statementsBelow before key value [tree.root]).filter fun id =>
        (work.tableStatements key value).contains id).length +
        (droppedStatements before tree.root work key value).length :=
    List.length_eq_length_filter_add fun id => (work.tableStatements key value).contains id
  rw [splitTable, both.length_eq, ← inDispatcher.length_eq, splitDispatcher,
    Nat.add_assoc]
  exact Nat.add_comm ..

end Counts

/-- The trees of the cases after a dispatcher was copied and the copy expanded. -/
theorem exists_entries_of_expand {store before : Store} {key : DispatchKey} {tracked : Tracking.Tracked}
    {prelude origin : Tree} {dispatcher : Slot} {work : Expansion} (held : store.Holds prelude)
    (samePrelude : prelude.root = key.prelude) (holds : store.Holds origin)
    (rooted : origin.root = key.dispatcher? store) (nodup : origin.names.Nodup)
    (copies : store.copy (key.dispatcher? store) = (before, dispatcher))
    (expanded : expand before (counted key tracked) dispatcher (counted key tracked).liveValues =
      (work, none)) :
    ∃ copied entries, store.IsCopy before origin copied ∧ dispatcher = copied.root ∧
      work.cases.toList.flatMap Prod.snd = entries.map Tree.root ∧
      (∀ tree ∈ entries, work.store.Holds tree) ∧ (Tree.namesAll entries).Nodup ∧
      ∀ name value, ∀ id ∈ Tree.keyStatementsAll name value entries,
        id ∈ copied.keyStatements name value ∨ before.nodes.size ≤ id := by
  obtain ⟨copied, grown, isCopy, same⟩ := Store.copy_copies holds rooted nodup
  rw [copies] at grown isCopy same
  change store.Grown before at grown
  change store.IsCopy before origin copied at isCopy
  change dispatcher = copied.root at same
  subst same
  have aside : ∀ id ∈ copied.names, id ∉ prelude.names := fun id fresh old =>
    absurd (held.lt_size old) (Nat.not_lt_of_le (isCopy.fresh id fresh))
  have distinct : (counted key tracked).liveValues.Nodup := Std.TreeMap.nodup_keys.filter _
  obtain ⟨table, reworked, expands⟩ := expand_expands isCopy.holds isCopy.nodup (grown.holds held)
    samePrelude aside distinct expanded
  obtain ⟨entries, slots, heldEntries, nodupEntries, source⟩ := expands.isTable.exists_entries
  refine ⟨copied, entries, isCopy, rfl, slots, heldEntries, nodupEntries, fun name value id member => ?_⟩
  have origins := source name value id member
  rwa [Tree.keyStatementsAll, Tree.keyStatementsAll, List.append_nil] at origins

/-- The counts of a tracked key after the expansion of its dispatcher. -/
theorem counts_after_expansion {store : Store} {root : NodeId} {key : DispatchKey}
    {tracked : Tracking.Tracked} {before : Store} {dispatcher : Slot} {work : Expansion}
    (isTree : store.IsTree root) (top : store.parent (some root) = none)
    (inside : key.loop ∈ store.descendants (some root))
    (tracks : Tracking.track store root key = .ok tracked)
    (copies : store.copy (key.dispatcher? store) = (before, dispatcher))
    (expanded : expand before (counted key tracked) dispatcher (counted key tracked).liveValues =
      (work, none)) (value : Int) :
    (work.tableStatements key.name value).length + (if value = key.start then 1 else 0) +
        (droppedStatements before dispatcher work key.name value).length =
      tracked.histogram.count value + (copiedStatements before work key.name value).length ∧
    (Covers (counted key tracked) work value ↔
      (copiedStatements before work key.name value).length ≤
        (droppedStatements before dispatcher work key.name value).length) := by
  obtain ⟨prelude, origin, held, samePrelude, holds, rooted, nodup, counts⟩ :=
    Tracking.track_counts isTree top inside tracks
  obtain ⟨copied, entries, isCopy, rfl, slots, heldEntries, nodupEntries, source⟩ :=
    exists_entries_of_expand held samePrelude holds rooted nodup copies expanded
  have total := length_tableStatements isCopy.holds isCopy.nodup slots heldEntries nodupEntries
    (source key.name value)
  have alike := Tree.length_keyStatements_of_bare key.name value isCopy.bare
  have count := counts value
  refine ⟨by omega, ?_⟩
  show _ ≤ tracked.histogram.count value ↔ _
  rw [show (counted key tracked).name = key.name from rfl,
    show (counted key tracked).start = key.start from rfl]
  omega

/-! ## Two cases that lead to the same one -/

/-- `for (;;) { switch (s) { case 0: s = 1; break; case 1: s = 1; break; } }`, or the same
without the first `break`. -/
def twoCases (broken : Bool) : Store := ⟨#[
  ⟨.file default [some 1], .none, 0, 0, none⟩,
  ⟨.loop .forLoop none none none (some 2), .none, 0, 0, some 0⟩,
  ⟨.block [some 3], .none, 0, 0, some 1⟩,
  ⟨.switch (some 4) [some 5, some 12], .none, 0, 0, some 2⟩,
  ⟨.identifier "s", .none, 0, 0, some 3⟩,
  ⟨.clause false (some 6) (some 7 :: if broken then [some 11] else []), .none, 0, 0, some 3⟩,
  ⟨.literal .number "0" (some 0.0), .none, 0, 0, some 5⟩,
  ⟨.expressionStatement (some 8), .none, 0, 0, some 5⟩,
  ⟨.binary (some 9) .equals (some 10), .none, 0, 0, some 7⟩,
  ⟨.identifier "s", .none, 0, 0, some 8⟩,
  ⟨.literal .number "1" (some 1.0), .none, 0, 0, some 8⟩,
  ⟨.jump .breaks none, .none, 0, 0, some 5⟩,
  ⟨.clause false (some 13) [some 14, some 18], .none, 0, 0, some 3⟩,
  ⟨.literal .number "1" (some 1.0), .none, 0, 0, some 12⟩,
  ⟨.expressionStatement (some 15), .none, 0, 0, some 12⟩,
  ⟨.binary (some 16) .equals (some 17), .none, 0, 0, some 14⟩,
  ⟨.identifier "s", .none, 0, 0, some 15⟩,
  ⟨.literal .number "1" (some 1.0), .none, 0, 0, some 15⟩,
  ⟨.jump .breaks none, .none, 0, 0, some 12⟩]⟩

/-- The key of the loop, as it is found. -/
def twoCasesKey : DispatchKey :=
  ⟨"s", 0, 1, none, 0, 0, [], ∅, [], none, false⟩

/-- The counts of the key. -/
def twoCasesTracked : Tracking.Tracked :=
  ⟨Histogram.increment (Histogram.increment (Std.TreeMap.empty.insert 0 1) 1) 1, []⟩

theorem twoCases_isTree (broken : Bool) : (twoCases broken).IsTree 0 := by
  cases broken
  · exact @Store.isTree_of_isGrown _ 8 0 (by decide) (by decide)
  · exact @Store.isTree_of_isGrown _ 8 0 (by decide) (by decide)

/-- The expansion of the dispatcher. -/
def twoCasesWork (broken : Bool) : Expansion :=
  (expand ((twoCases broken).copy (some 3)).1 (counted twoCasesKey twoCasesTracked)
    ((twoCases broken).copy (some 3)).2 (counted twoCasesKey twoCasesTracked).liveValues).1

theorem twoCases_expanded (broken : Bool) :
    expand ((twoCases broken).copy (some 3)).1 (counted twoCasesKey twoCasesTracked)
      ((twoCases broken).copy (some 3)).2 (counted twoCasesKey twoCasesTracked).liveValues =
      (twoCasesWork broken, none) := by
  refine Prod.ext (by rw [twoCasesWork]) ?_
  cases broken
  · decide +kernel
  · decide +kernel

/-- Where both cases end in a `break`, nothing is copied and the counts cover both. -/
theorem two_broken_cases_counted :
    (twoCases true).IsTree 0 ∧ (twoCases true).parent (some 0) = none ∧
      twoCasesKey.loop ∈ (twoCases true).descendants (some 0) ∧
      Tracking.track (twoCases true) 0 twoCasesKey = .ok twoCasesTracked ∧
      expand ((twoCases true).copy (some 3)).1 (counted twoCasesKey twoCasesTracked)
        ((twoCases true).copy (some 3)).2 (counted twoCasesKey twoCasesTracked).liveValues =
        (twoCasesWork true, none) ∧
      (copiedStatements ((twoCases true).copy (some 3)).1 (twoCasesWork true) "s" 1).length = 0 ∧
      Covers (counted twoCasesKey twoCasesTracked) (twoCasesWork true) 1 := by
  have isTree := twoCases_isTree true
  have top : (twoCases true).parent (some 0) = none := rfl
  have inside : twoCasesKey.loop ∈ (twoCases true).descendants (some 0) := by decide
  have tracks : Tracking.track (twoCases true) 0 twoCasesKey = .ok twoCasesTracked := rfl
  have copies : (twoCases true).copy (twoCasesKey.dispatcher? (twoCases true)) =
      (((twoCases true).copy (some 3)).1, ((twoCases true).copy (some 3)).2) := rfl
  have expanded := twoCases_expanded true
  have uncopied : (copiedStatements ((twoCases true).copy (some 3)).1 (twoCasesWork true) "s" 1).length =
      0 := by decide +kernel
  refine ⟨isTree, top, inside, tracks, expanded, uncopied, ?_⟩
  refine (counts_after_expansion isTree top inside tracks copies expanded 1).2.mpr ?_
  exact uncopied.le.trans (Nat.zero_le _)

/-- Where the first case falls through, a statement is copied and counted once less than it
stands in the table. -/
theorem fall_through_not_covered :
    Tracking.track (twoCases false) 0 twoCasesKey = .ok twoCasesTracked ∧
      expand ((twoCases false).copy (some 3)).1 (counted twoCasesKey twoCasesTracked)
        ((twoCases false).copy (some 3)).2 (counted twoCasesKey twoCasesTracked).liveValues =
        (twoCasesWork false, none) ∧
      ¬ Covers (counted twoCasesKey twoCasesTracked) (twoCasesWork false) 1 := by
  refine ⟨rfl, twoCases_expanded false, ?_⟩
  have three : ((twoCasesWork false).tableStatements "s" 1).length = 3 := by decide +kernel
  have two : (counted twoCasesKey twoCasesTracked).histogram.count 1 = 2 := by decide +kernel
  intro covered
  unfold Covers at covered
  rw [two] at covered
  have bound := (Nat.le_add_right _ _).trans covered
  exact absurd (three.symm.le.trans bound) (by decide)

end Expansion

end Unflatten
