import Unflatten.Proofs.Dispatch.Counting
import Unflatten.Proofs.Dispatch.MergeRuns

/-! # Merged tables

A merge keeps the books of its table: the count of a value is the number of statements that
give it to the key, and one more for the start.  It keeps the start case, and no statement leads
to a case that it takes out.  What it removes are jumps to a case, and `if`s that become loops.
All other nodes of the table are in one case of the merged table. -/

set_option autoImplicit false

namespace Unflatten

namespace CaseTable

/-- The statements of all cases. -/
def slots (table : CaseTable) : List Slot := table.cases.toList.flatMap Prod.snd

/-- The nodes in all cases. -/
def nodes (table : CaseTable) (store : Store) : List NodeId := table.slots.flatMap store.descendants

/-- The nodes in one case. -/
def nodesOf (table : CaseTable) (store : Store) (value : Int) : List NodeId :=
  ((table.cases[value]?).getD []).flatMap store.descendants

/-- The statements in all cases that give the key a value. -/
def jumps (table : CaseTable) (store : Store) (key : String) (value : Int) : List NodeId :=
  Expansion.statementsBelow store key value table.slots

/-- The statements of the cases are trees, and no node is in a table twice. -/
structure Stands (table : CaseTable) (store : Store) : Prop where
  trees : ∀ id, some id ∈ table.slots → store.IsTree id
  nodup : (table.nodes store).Nodup

/-- The count of a value is the number of statements that give it to the key, and one more for
the start. -/
def Balanced (table : CaseTable) (store : Store) (key : MergeKey) : Prop :=
  ∀ value, table.histogram.count value =
    (table.jumps store key.name value).length + if value = key.start then 1 else 0

end CaseTable

namespace Merging

section Tables
variable {store : Store} {table : CaseTable} {entries : List (Int × List Tree)} {trees : List Tree}
  {key : String} {value : Int} {id : NodeId}

theorem distinct_keys (cases : Std.TreeMap Int (List Slot)) : (cases.toList.map Prod.fst).Nodup := by
  rw [List.Nodup, List.pairwise_map]
  exact Std.TreeMap.distinct_keys_toList.imp fun differs same => differs (compare_eq_iff_eq.mpr same)

/-- The cases of a table are the roots of its trees. -/
theorem Lists.toList_perm (lists : Lists table.cases entries) :
    table.cases.toList.Perm (entries.map fun entry => (entry.1, entry.2.map Tree.root)) := by
  refine (List.perm_ext_iff_of_nodup (distinct_keys table.cases).of_map ?_).mpr ?_
  · refine List.Nodup.of_map Prod.fst ?_
    rw [List.map_map]
    exact lists.keys
  · rintro ⟨value, slots⟩
    rw [Std.TreeMap.mem_toList_iff_getElem?_eq_some, lists.found, List.mem_map]
    constructor
    · rintro ⟨trees, member, rfl⟩
      exact ⟨(value, trees), member, rfl⟩
    · rintro ⟨⟨other, trees⟩, member, same⟩
      cases same
      exact ⟨trees, member, rfl⟩

theorem Lists.of_toList {cases : Std.TreeMap Int (List Slot)}
    (listed : cases.toList = entries.map fun entry => (entry.1, entry.2.map Tree.root)) :
    Lists cases entries := by
  refine ⟨fun value slots => ?_, ?_⟩
  · rw [← Std.TreeMap.mem_toList_iff_getElem?_eq_some, listed, List.mem_map]
    constructor
    · rintro ⟨⟨other, trees⟩, member, same⟩
      cases same
      exact ⟨trees, member, rfl⟩
    · rintro ⟨trees, member, rfl⟩
      exact ⟨(value, trees), member, rfl⟩
  · have distinct := distinct_keys cases
    rwa [listed, List.map_map] at distinct

/-- The slots of a table are the roots of its trees. -/
theorem Lists.slots_perm (lists : Lists table.cases entries) :
    table.slots.Perm ((entries.flatMap Prod.snd).map Tree.root) := by
  refine (lists.toList_perm.flatMap_right _).trans (.of_eq ?_)
  rw [List.flatMap_map, List.map_flatMap]

theorem descendants_perm (holds : ∀ tree ∈ trees, store.Holds tree)
    (nodup : ∀ tree ∈ trees, tree.names.Nodup) :
    ((trees.map Tree.root).flatMap store.descendants).Perm (Tree.namesAll trees) := by
  induction trees with
  | nil => exact .refl _
  | cons tree rest ih =>
    rw [List.map_cons, List.flatMap_cons, Tree.namesAll]
    have here := (holds tree List.mem_cons_self).descendants_perm (nodup tree List.mem_cons_self)
    exact here.append (ih (fun other member => holds other (List.mem_cons_of_mem tree member))
      fun other member => nodup other (List.mem_cons_of_mem tree member))

theorem descendants_perm_of_holdsAll (all : store.HoldsAll trees) :
    ((trees.map Tree.root).flatMap store.descendants).Perm (Tree.namesAll trees) :=
  descendants_perm all.holds fun _ member => Tree.nodup_of_mem_namesAll all.nodup member

section Laid
variable {work : Merging} (laid : Laid work entries [])
include laid

theorem Laid.nodes_perm : (work.table.nodes work.store).Perm (Tree.namesAll (pile entries [])) :=
  (laid.lists.slots_perm.flatMap_right _).trans (descendants_perm_of_holdsAll laid.trees)

theorem Laid.jumps_perm (key : String) (value : Int) :
    (work.table.jumps work.store key value).Perm (Tree.keyStatementsAll key value (pile entries [])) := by
  refine ((laid.lists.slots_perm.flatMap_right _).filter _).trans ?_
  exact Expansion.statementsBelow_perm laid.trees.holds fun tree member =>
    Tree.nodup_of_mem_namesAll laid.trees.nodup member

theorem Laid.stands : work.table.Stands work.store := by
  refine ⟨fun id member => ?_, laid.nodes_perm.nodup_iff.mpr laid.trees.nodup⟩
  rw [laid.lists.slots_perm.mem_iff] at member
  obtain ⟨tree, there, rooted⟩ := List.mem_map.mp member
  exact ⟨tree, laid.trees.holds tree there, rooted, Tree.nodup_of_mem_namesAll laid.trees.nodup there⟩

/-- The trees of one case, beside those of the others. -/
theorem Laid.entry (member : (value, trees) ∈ entries) :
    work.store.HoldsAll trees ∧ ∀ other others, (other, others) ∈ entries → other ≠ value →
      ∀ id ∈ Tree.namesAll trees, id ∉ Tree.namesAll others := by
  obtain ⟨front, back, rfl⟩ := List.append_of_mem member
  have moved := laid.trees.perm (pile_perm List.perm_middle [])
  obtain ⟨here, _, apart⟩ := Store.holdsAll_append.mp
    (show work.store.HoldsAll (trees ++ (front ++ back).flatMap Prod.snd) from moved)
  refine ⟨here, fun other others inside differs id inTrees inOthers => ?_⟩
  have beside : (other, others) ∈ front ++ back := by
    simp only [List.mem_append, List.mem_cons, Prod.mk.injEq, differs, false_and, false_or] at inside ⊢
    exact inside
  obtain ⟨tree, listed, inTree⟩ := Tree.mem_namesAll.mp inOthers
  exact apart id inTrees (Tree.mem_namesAll.mpr
    ⟨tree, List.mem_flatMap.mpr ⟨(other, others), beside, listed⟩, inTree⟩)

theorem Laid.mem_nodesOf : id ∈ work.table.nodesOf work.store value ↔
    ∃ trees, (value, trees) ∈ entries ∧ id ∈ Tree.namesAll trees := by
  have each : ∀ trees, (value, trees) ∈ entries →
      (work.table.nodesOf work.store value).Perm (Tree.namesAll trees) := by
    intro trees member
    rw [CaseTable.nodesOf, (laid.lists.found value _).mpr ⟨trees, member, rfl⟩]
    exact descendants_perm_of_holdsAll (laid.entry member).1
  constructor
  · intro inside
    cases found : work.table.cases[value]? with
    | none =>
      rw [CaseTable.nodesOf, found] at inside
      cases inside
    | some slots =>
      obtain ⟨trees, member, _⟩ := (laid.lists.found value slots).mp found
      exact ⟨trees, member, (each trees member).mem_iff.mp inside⟩
  · rintro ⟨trees, member, inside⟩
    exact (each trees member).mem_iff.mpr inside

/-- Every node of the table is in one case. -/
theorem Laid.existsUnique_case (inside : id ∈ work.table.nodes work.store) :
    ∃! value, id ∈ work.table.nodesOf work.store value := by
  rw [laid.nodes_perm.mem_iff] at inside
  obtain ⟨tree, listed, inTree⟩ := Tree.mem_namesAll.mp inside
  obtain ⟨⟨value, trees⟩, member, here⟩ := List.mem_flatMap.mp listed
  have inTrees : id ∈ Tree.namesAll trees := Tree.mem_namesAll.mpr ⟨tree, here, inTree⟩
  refine ⟨value, laid.mem_nodesOf.mpr ⟨trees, member, inTrees⟩, fun other there => ?_⟩
  obtain ⟨others, among, inOthers⟩ := laid.mem_nodesOf.mp there
  by_contra differs
  exact (laid.entry member).2 other others among differs id inTrees inOthers

theorem Laid.mem_cases : value ∈ work.table.cases ↔ value ∈ entries.map Prod.fst := by
  rw [Std.TreeMap.mem_iff_isSome_getElem?, Option.isSome_iff_exists, List.mem_map]
  constructor
  · rintro ⟨slots, found⟩
    obtain ⟨trees, member, _⟩ := (laid.lists.found value slots).mp found
    exact ⟨(value, trees), member, rfl⟩
  · rintro ⟨⟨other, trees⟩, member, rfl⟩
    exact ⟨_, (laid.lists.found other _).mpr ⟨trees, member, rfl⟩⟩

/-- The books of a table are those of its trees. -/
theorem Laid.balanced_iff {key : MergeKey} : work.table.Balanced work.store key ↔
    Balanced key.name work entries [] fun value => if value = key.start then 1 else 0 := by
  refine forall_congr' fun value => ?_
  rw [(laid.jumps_perm key.name value).length_eq]
  rfl

end Laid

/-- A table that stands in a store has trees. -/
theorem exists_laid (stands : table.Stands store) (visited : Std.HashSet Int) (isUpdated : Bool) :
    ∃ entries, Laid ⟨store, table, visited, isUpdated⟩ entries [] := by
  have standing : ∀ slot, ∃ tree : Tree, slot ∈ table.slots →
      store.Holds tree ∧ tree.root = slot ∧ tree.names.Nodup := by
    intro slot
    cases slot with
    | none => exact ⟨.nothing, fun _ => ⟨.nothing, rfl, .nil⟩⟩
    | some id =>
      by_cases member : some id ∈ table.slots
      · obtain ⟨tree, held, rooted, nodup⟩ := stands.trees id member
        exact ⟨tree, fun _ => ⟨held, rooted, nodup⟩⟩
      · exact ⟨.nothing, fun inside => absurd inside member⟩
  choose treeOf standing using standing
  have listed : ∀ pair ∈ table.cases.toList, ∀ slot ∈ pair.2, slot ∈ table.slots :=
    fun pair member slot inside => List.mem_flatMap.mpr ⟨pair, member, inside⟩
  have roots : ∀ pair ∈ table.cases.toList, (pair.2.map treeOf).map Tree.root = pair.2 := by
    intro pair member
    rw [List.map_map]
    refine (List.map_congr_left fun slot inside => ?_).trans (List.map_id _)
    exact (standing slot (listed pair member slot inside)).2.1
  have trees : pile (table.cases.toList.map fun pair => (pair.1, pair.2.map treeOf)) [] =
      table.slots.map treeOf := by
    rw [pile, List.nil_append, List.flatMap_map, CaseTable.slots, List.map_flatMap]
  have listed : table.cases.toList = (table.cases.toList.map fun pair => (pair.1, pair.2.map treeOf)).map
      fun entry => (entry.1, entry.2.map Tree.root) := by
    rw [List.map_map]
    refine ((List.map_congr_left fun pair member => ?_).trans (List.map_id _)).symm
    exact Prod.ext rfl (roots pair member)
  refine ⟨table.cases.toList.map fun pair => (pair.1, pair.2.map treeOf), .of_toList listed, ?_, ?_⟩
  · intro tree member
    rw [trees] at member
    obtain ⟨slot, inside, rfl⟩ := List.mem_map.mp member
    exact (standing slot inside).1
  · have held : ∀ tree ∈ table.slots.map treeOf, store.Holds tree ∧ tree.names.Nodup := by
      intro tree member
      obtain ⟨slot, inside, rfl⟩ := List.mem_map.mp member
      exact ⟨(standing slot inside).1, (standing slot inside).2.2⟩
    have same : (table.slots.map treeOf).map Tree.root = table.slots := by
      rw [List.map_map]
      exact (List.map_congr_left fun slot inside => (standing slot inside).2.1).trans (List.map_id _)
    have perm := descendants_perm (fun tree member => (held tree member).1)
      fun tree member => (held tree member).2
    rw [same] at perm
    rw [trees]
    exact perm.nodup_iff.mp stands.nodup

/-- What was in a table is in the merged one or removed. -/
theorem perm_nodes {work after : Merging} {merged : List (Int × List Tree)} {removals : List Removal}
    (laid : Laid work entries []) (merges : Merges key work after entries merged [] [] removals) :
    (work.table.nodes work.store).Perm
      ((after.table.nodes after.store).filter (· < work.store.nodes.size) ++
        Removal.namesAll removals) := by
  refine List.perm_iff_count.mpr fun id => ?_
  rw [laid.nodes_perm.count_eq, List.count_append]
  by_cases old : id < work.store.nodes.size
  · rw [List.count_filter (by simpa using old), merges.laid.nodes_perm.count_eq]
    exact merges.moves.names id old
  · have before : id ∉ Tree.namesAll (pile entries []) := fun inside => old (laid.trees.lt_size inside)
    have later : id ∉ (after.table.nodes after.store).filter (· < work.store.nodes.size) :=
      fun inside => old (by simpa using (List.mem_filter.mp inside).2)
    have removed : id ∉ Removal.namesAll removals := by
      intro inside
      obtain ⟨removal, member, named⟩ := List.mem_flatMap.mp inside
      exact before (merges.moves.removed_mem member named)
    rw [List.count_eq_zero.mpr before, List.count_eq_zero.mpr later, List.count_eq_zero.mpr removed]

end Tables

end Merging

namespace Expansion

/-- The table that an expansion makes stands in its store. -/
theorem stands_after_expansion {store : Store} {root : NodeId} {key : DispatchKey}
    {tracked : Tracking.Tracked} {before : Store} {dispatcher : Slot} {work : Expansion}
    (isTree : store.IsTree root) (top : store.parent (some root) = none)
    (inside : key.loop ∈ store.descendants (some root))
    (tracks : Tracking.track store root key = .ok tracked)
    (copies : store.copy (key.dispatcher? store) = (before, dispatcher))
    (expanded : expand before (counted key tracked) dispatcher (counted key tracked).liveValues =
      (work, none)) : CaseTable.Stands ⟨tracked.histogram, work.cases⟩ work.store := by
  obtain ⟨prelude, origin, held, samePrelude, holds, rooted, nodup, _⟩ :=
    Tracking.track_counts isTree top inside tracks
  obtain ⟨copied, entries, _, _, slots, heldEntries, nodupEntries, _⟩ :=
    exists_entries_of_expand held samePrelude holds rooted nodup copies expanded
  have listed : CaseTable.slots ⟨tracked.histogram, work.cases⟩ = entries.map Tree.root := slots
  refine ⟨fun id member => ?_, ?_⟩
  · rw [listed] at member
    obtain ⟨tree, there, same⟩ := List.mem_map.mp member
    exact ⟨tree, heldEntries tree there, same, Tree.nodup_of_mem_namesAll nodupEntries there⟩
  · rw [CaseTable.nodes, listed]
    exact (Merging.descendants_perm_of_holdsAll ⟨heldEntries, nodupEntries⟩).nodup_iff.mpr nodupEntries

end Expansion

namespace CaseTable

open Merging

section Merge
variable {store later : Store} {table after : CaseTable} {key : MergeKey} {isSettled : Bool}

/-- A merge keeps the books and loses nothing. -/
theorem merge_keeps_books (stands : table.Stands store) (balanced : table.Balanced store key)
    (merged : table.merge store key = (later, after, isSettled)) :
    after.Stands later ∧ after.Balanced later key ∧
      (key.start ∈ table.cases → key.start ∈ after.cases) ∧
      (∀ value ∈ table.cases, value ∉ after.cases →
        after.histogram.count value = 0 ∧ after.jumps later key.name value = []) ∧
      ∃ removals : List Removal,
        (∀ removal ∈ removals, removal.IsFrom store key.name ∧
          removal.BecomesLoop store later (after.nodes later)) ∧
        (table.nodes store).Perm
          ((after.nodes later).filter (· < store.nodes.size) ++ Removal.namesAll removals) ∧
        ∀ id ∈ table.nodes store, id ∉ Removal.namesAll removals →
          ∃! value, id ∈ after.nodesOf later value := by
  obtain ⟨entries, laid⟩ := exists_laid stands ∅ false
  obtain ⟨mergedEntries, removals, merges⟩ :=
    sweepAll_merges key maxMergeSweeps laid
  have outcome : table.merge store key = ((sweepAll key maxMergeSweeps ⟨store, table, ∅, false⟩).1.store,
    (sweepAll key maxMergeSweeps ⟨store, table, ∅, false⟩).1.table,
    (sweepAll key maxMergeSweeps ⟨store, table, ∅, false⟩).2) := rfl
  rw [outcome] at merged
  generalize sweepAll key maxMergeSweeps ⟨store, table, ∅, false⟩ = swept at merges merged
  obtain ⟨⟨later, after, visited, isUpdated⟩, isSettled⟩ := swept
  cases merged
  have laidAfter := merges.laid
  have balancedAfter : after.Balanced later key :=
    laidAfter.balanced_iff.mpr (merges.balanced (laid.balanced_iff.mp balanced))
  have gone : ∀ value ∈ table.cases, value ∉ after.cases → after.histogram.count value = 0 :=
    fun value inside outside => merges.gone (laid.balanced_iff.mp balanced) value
      (laid.mem_cases.mp inside) fun kept =>
      outside (laidAfter.mem_cases.mpr kept)
  have moved := perm_nodes laid merges
  refine ⟨laidAfter.stands, balancedAfter, fun inside => ?_, fun value inside outside => ?_, removals,
    fun removal member => ⟨merges.moves.isFrom removal member, ?_⟩, moved, fun id inside kept => ?_⟩
  · by_contra outside
    have none := gone key.start inside outside
    have counted := balancedAfter key.start
    rw [if_pos rfl] at counted
    omega
  · have none := gone value inside outside
    have counted := balancedAfter value
    rw [none] at counted
    exact ⟨none, List.eq_nil_of_length_eq_zero (Nat.add_eq_zero_iff.mp counted.symm).1⟩
  · exact (merges.loops removal member).carry (.refl _) fun _ _ _ _ inside =>
      laidAfter.nodes_perm.mem_iff.mpr inside
  · rcases List.mem_append.mp (moved.mem_iff.mp inside) with here | removed
    · exact laidAfter.existsUnique_case (List.mem_filter.mp here).1
    · exact absurd removed kept

end Merge

/-! ## A case that leads to the other -/

/-- The statements of `case 0: s = 1; break; case 1: return;`. -/
def leading : Store := ⟨#[
  ⟨.expressionStatement (some 1), .none, 0, 0, none⟩,
  ⟨.binary (some 2) .equals (some 3), .none, 0, 0, some 0⟩,
  ⟨.identifier "s", .none, 0, 0, some 1⟩,
  ⟨.literal .number "1" (some 1.0), .none, 0, 0, some 1⟩,
  ⟨.jump .breaks none, .none, 0, 0, none⟩,
  ⟨.exit .returns none, .none, 0, 0, none⟩]⟩

/-- The cases with their counts. -/
def leadingTable : CaseTable :=
  ⟨(Std.TreeMap.empty.insert 0 1).insert 1 1,
    (Std.TreeMap.empty.insert 0 [some 0, some 4]).insert 1 [some 5]⟩

/-- Their key. -/
def leadingKey : MergeKey := ⟨"s", 0, []⟩

theorem leadingTable_stands : leadingTable.Stands leading := by
  have slots : leadingTable.slots = [some 0, some 4, some 5] := by decide +kernel
  refine ⟨fun id member => ?_, by decide +kernel⟩
  simp only [slots, List.mem_cons, Option.some.injEq, List.not_mem_nil, or_false] at member
  rcases member with rfl | rfl | rfl
  all_goals exact @Store.isTree_of_isGrown _ 4 _ (by decide) (by decide)

theorem leadingTable_balanced : leadingTable.Balanced leading leadingKey := by
  intro value
  have counted : leadingTable.histogram.count value =
      if 1 = value then 1 else if 0 = value then 1 else 0 := by
    rw [leadingTable, Histogram.count_insert, Histogram.count_insert]
    rfl
  have below : leadingTable.slots.flatMap leading.descendants = [0, 1, 2, 3, 4, 5] := by decide +kernel
  have jump : leading.keyValue? (some 0) leadingKey.name = some 1 := by decide +kernel
  have others : ∀ id ∈ [1, 2, 3, 4, 5], leading.keyValue? (some id) leadingKey.name = none := by
    decide +kernel
  have given : leadingTable.jumps leading leadingKey.name value = if 1 = value then [0] else [] := by
    rw [jumps, Expansion.statementsBelow, below, List.filter_cons, jump,
      List.filter_eq_nil_iff.mpr fun id member => by rw [others id member]; simp]
    by_cases same : 1 = value <;> simp [same]
  rw [given, counted, show leadingKey.start = 0 from rfl]
  by_cases first : 1 = value
  · simp [← first]
  · simp [first, eq_comm]

/-- The second case is taken into the first. -/
theorem leading_keeps_books :
    leadingTable.Stands leading ∧ leadingTable.Balanced leading leadingKey ∧
      ∃ later after isSettled, leadingTable.merge leading leadingKey = (later, after, isSettled) ∧
        after.cases.toList = [(0, [some 5])] ∧ after.Stands later ∧ after.Balanced later leadingKey ∧
        after.histogram.count 1 = 0 ∧ after.jumps later "s" 1 = [] := by
  have twice : leadingTable.merge leading leadingKey =
      ((leadingTable.merge leading leadingKey).1, (leadingTable.merge leading leadingKey).2.1,
        (leadingTable.merge leading leadingKey).2.2) := Prod.ext rfl (Prod.ext rfl rfl)
  have table : (leadingTable.merge leading leadingKey).2.1.cases.toList = [(0, [some 5])] := by
    show (sweepAll leadingKey maxMergeSweeps ⟨leading, leadingTable, ∅, false⟩).1.table.cases.toList = _
    rw [show maxMergeSweeps = 998 + 1 + 1 from rfl, sweepAll, sweep_eq, if_pos (by decide +kernel),
      sweepAll, sweep_eq, if_neg (by decide +kernel)]
    decide +kernel
  have outside : 1 ∉ (leadingTable.merge leading leadingKey).2.1.cases := by
    intro inside
    rw [Std.TreeMap.mem_iff_isSome_getElem?, Option.isSome_iff_exists] at inside
    obtain ⟨slots, found⟩ := inside
    rw [← Std.TreeMap.mem_toList_iff_getElem?_eq_some, table] at found
    simp at found
  obtain ⟨stands, balanced, _, gone, _⟩ :=
    merge_keeps_books leadingTable_stands leadingTable_balanced twice
  obtain ⟨none, nowhere⟩ := gone 1 (by decide +kernel) outside
  exact ⟨leadingTable_stands, leadingTable_balanced, _, _, _, twice, table, stands, balanced, none, nowhere⟩

end CaseTable

end Unflatten
