import Unflatten.Proofs.Dispatch.Counting
import Unflatten.Proofs.Dispatch.Refusals
import Unflatten.Proofs.Syntax.Standing

/-! # What expansion keeps up

Expansion copies statements, makes `break` statements and gives containers other statements.  What
holds of a store whatever becomes of it in these ways holds when a dispatcher has been expanded,
and also when its expansion has failed half way. -/

set_option autoImplicit false

namespace Unflatten

open Store

/-- A property of stores that no step of an expansion breaks. -/
structure Lasting (holds : Store → Prop) : Prop where
  copied : ∀ {store : Store} (slots : List Slot), holds store → holds (store.copyAll slots).1
  broken : ∀ {store : Store}, holds store → holds store.makeBreak.1
  filled : ∀ {store : Store} (container : Slot) (statements : List Slot), holds store →
    holds (store.setStatements container statements).1

/-- Parent links stay true. -/
theorem lasting_hasTrueLinks : Lasting Store.HasTrueLinks where
  copied slots links := hasTrueLinks_copyAll slots links
  broken links := hasTrueLinks_make _ links
  filled container statements links := hasTrueLinks_setStatements container statements links

/-- All nodes stay in places where they belong. -/
theorem lasting_isTidy : Lasting Store.IsTidy where
  copied slots tidy := isTidy_copyAll slots tidy
  broken tidy := isTidy_add _ _ _ tidy
    ⟨fun _ impossible => absurd impossible List.not_mem_nil,
      fun _ impossible => absurd impossible List.not_mem_nil, rfl, .refl _⟩
  filled container statements tidy := isTidy_setStatements container statements tidy

namespace Expansion

section Statements
variable {holds : Store → Prop} {store : Store} (lasting : Lasting holds)
include lasting

theorem followClauses_lasts (statements behind : List Slot) (before : holds store) :
    holds (followClauses store statements behind).1 := by
  induction behind generalizing store statements with
  | nil => exact before
  | cons next rest ih =>
    rw [followClauses]
    split
    · exact ih _ (lasting.copied _ before)
    · exact before

theorem terminateArms_lasts (depth : Nat) (statement : Slot) (before : holds store) :
    holds (terminateArms depth store statement) := by
  induction depth generalizing store statement with
  | zero => exact before
  | succ depth ih =>
    have terminate : ∀ {store : Store} (arm : Slot), holds store →
        holds (terminateArm depth store arm) := by
      intro store arm before
      unfold terminateArm
      simp only
      split
      · exact ih _ before
      · split
        · exact before
        · exact lasting.filled _ _ (lasting.broken before)
    cases found : store.arms? statement with
    | none =>
      rw [terminateArms, found]
      exact before
    | some arms =>
      rw [terminateArms_succ depth found]
      exact terminate _ (terminate _ before)

theorem clauseBody_lasts (clause : Slot) (behind : List Slot) (before : holds store) :
    holds (clauseBody store clause behind).1 := by
  have followed := followClauses_lasts lasting (store.clauseStatements clause) behind before
  unfold clauseBody terminateLast
  simp only
  split
  · split
    · exact terminateArms_lasts lasting _ _ followed
    · exact followed
  · exact followed

end Statements

/-- An expansion keeps a property of its store up, whatever comes of it. -/
def ExpandLasts (holds : Store → Prop) (expand : Expand) : Prop :=
  ∀ (work : Expansion) (switch : Slot) (values : List Int), holds work.store →
    holds (expand work switch values).1.store

section Clauses
variable {holds : Store → Prop} {work : Expansion} {origin : Origin} {expand : Expand}
  {buckets : Buckets} {default? : Option (Slot × List Slot)} (lasting : Lasting holds)
  (lasts : ExpandLasts holds expand)
include lasting lasts

theorem takeClause_lasts (clause : Slot) (behind : List Slot) (values : List Int)
    (before : holds work.store) :
    holds (takeClause origin expand work clause behind values).1.store := by
  unfold takeClause
  simp only
  split
  · split
    · exact lasts _ _ _ before
    · exact clauseBody_lasts lasting clause behind before
  · split
    · exact lasts _ _ _ before
    · exact before

theorem takeClauses_lasts (clauses : List Slot) (before : holds work.store) :
    holds (takeClauses origin expand clauses work buckets default?).1.store := by
  induction clauses generalizing work buckets default? with
  | nil => exact before
  | cons clause behind ih =>
    rw [takeClauses]
    split
    · exact ih before
    · simp only
      split
      · exact before
      · split
        · exact @ih (work.drop clause _) _ _ before
        · rename_i values _
          have next : holds (takeClause origin expand work clause behind values).1.store :=
            takeClause_lasts lasting lasts clause behind values before
          split <;> rename_i taken <;> rw [taken] at next
          · exact next
          · exact ih next

theorem takeDefault_lasts (before : holds work.store) :
    holds (takeDefault origin expand work buckets default?).1.store := by
  unfold takeDefault
  split
  · exact before
  · split
    · exact before
    · exact takeClause_lasts lasting lasts _ _ _ before
    · exact before

end Clauses

theorem expandWithin_lasts {holds : Store → Prop} (lasting : Lasting holds) (origin : Origin)
    (depth : Nat) : ExpandLasts holds (expandWithin origin depth) := by
  induction depth with
  | zero => exact fun _ _ _ before => before
  | succ depth ih =>
    intro work switch values before
    rw [expandWithin]
    split
    · rename_i discriminant clauses _
      split
      · exact before
      · rename_i pairs _
        have next : holds (takeClauses origin (expandWithin origin depth) clauses work
            (gather pairs) none).1.store := takeClauses_lasts lasting ih clauses before
        split <;> rename_i taken <;> rw [taken] at next
        · exact next
        · exact takeDefault_lasts lasting ih next
    · exact before

/-! ## A copy is expanded -/

section Copies
variable {store : Store} {tree prelude : Tree} {work : Expansion} {outcome : Option Mismatch}

/-- New trees come of the expansion of a copy, if they are made of new nodes. -/
theorem rebuilds_of_expand_copy (holds : store.Holds tree) (nodup : tree.names.Nodup)
    (key : DispatchKey) (values : List Int) {built : List Tree}
    (expanded : expand (store.copy tree.root).1 key (store.copy tree.root).2 values = (work, outcome))
    (all : work.store.HoldsAll built) (fresh : ∀ id ∈ Tree.namesAll built, store.nodes.size ≤ id) :
    Rebuilds store work.store [] built := by
  have sustains := expand_copy_sustains holds nodup key values
  rw [expanded] at sustains
  have upkeep : ∀ {property : Store → Prop}, Lasting property →
      property (store.copy tree.root).1 → property work.store := by
    intro property lasting before
    have after := expandWithin_lasts lasting ⟨key.name, key.prelude⟩ (maxMergeDepth + 1)
      ⟨(store.copy tree.root).1, ∅, []⟩ (store.copy tree.root).2 values before
    change property (expand (store.copy tree.root).1 key (store.copy tree.root).2 values).1.store at after
    rwa [expanded] at after
  -- the new nodes are a part of the store that nothing leaves
  have size := (copy_sustains store tree.root).size
  have lists := holds.copy_listsNew
  have guarded : Guarded [] (store.nodes.size ≤ ·) (store.copy tree.root).1 := by
    refine ⟨fun id beyond => Nat.le_trans size beyond, fun id shape child new found listed => ?_⟩
    obtain ⟨newChild, bound⟩ := lists id new shape found child listed
    exact ⟨newChild, bound, fun ⟨_, impossible, _⟩ => nomatch impossible⟩
  have expands : ExpandGuards [] (store.nodes.size ≤ ·)
      (expandWithin ⟨key.name, key.prelude⟩ (maxMergeDepth + 1)) := expandWithin_guards _
  have guards : Guards [] (store.nodes.size ≤ ·) work := by
    refine expands expanded ⟨guarded, fun found => ?_⟩ fun id same => ?_
    · simp at found
    · obtain ⟨copied, -, isCopy, rooted⟩ := copy_copies holds rfl nodup
      exact isCopy.fresh id (Tree.mem_names_root (by rw [← rooted, same]))
  refine .ofNew ⟨sustains.size, fun id old => ?_, fun id old => ?_⟩ all fresh
    (fun links => upkeep lasting_hasTrueLinks (hasTrueLinks_copy _ links))
    (fun tidy => upkeep lasting_isTidy (isTidy_copy _ tidy))
    fun id new shape found child listed =>
      ⟨(guards.guarded.slots id shape child new found listed).1,
        (guards.guarded.slots id shape child new found listed).2.1⟩
  · simp only [shape?, node?, Option.bind_some, sustains id (Nat.not_le_of_lt old)]
  · simp only [parent, node?, Option.bind_some, sustains id (Nat.not_le_of_lt old)]

/-- The cases of an expanded copy are trees, whose jumps need no more than those of the original
and something to break from. -/
theorem expand_copy_rebuilds {key : DispatchKey} (holds : store.Holds tree)
    (nodup : tree.names.Nodup) (held : store.Holds prelude) (same : prelude.root = key.prelude)
    (expanded : expand (store.copy tree.root).1 key (store.copy tree.root).2 key.liveValues =
      (work, none)) :
    ∃ entries : List (Int × List Tree),
      work.cases.toList = entries.map (fun entry => (entry.1, entry.2.map Tree.root)) ∧
      Rebuilds store work.store [] (entries.flatMap Prod.snd) ∧
      Tree.unmetAll (entries.flatMap Prod.snd) ⊆ .breaks :: tree.unmet := by
  obtain ⟨copied, grown, isCopy, rooted⟩ := copy_copies holds rfl nodup
  have aside : ∀ id ∈ copied.names, id ∉ prelude.names := fun id fresh old =>
    absurd (held.lt_size old) (Nat.not_lt_of_le (isCopy.fresh id fresh))
  have distinct : key.liveValues.Nodup := Std.TreeMap.nodup_keys.filter _
  have onCopy := expanded
  rw [rooted] at onCopy
  obtain ⟨table, reworked, expands⟩ := expand_expands isCopy.holds isCopy.nodup (grown.holds held)
    same aside distinct onCopy
  obtain ⟨entries, listed, sets, all⟩ := expands.isTable.exists_cases
  refine ⟨entries, listed, rebuilds_of_expand_copy holds nodup key _ expanded all fun id inside => ?_,
    fun target needed => ?_⟩
  · obtain ⟨part, member, within⟩ := Tree.mem_namesAll.mp inside
    obtain ⟨entry, among, here⟩ := List.mem_flatMap.mp member
    rcases expands.isTable.names (sets entry among) id (Tree.mem_namesAll.mpr ⟨part, here, within⟩)
      with old | new
    · rw [Tree.namesAll, Tree.namesAll, List.append_nil] at old
      exact isCopy.fresh id old
    · exact Nat.le_trans grown.size new
  · rw [← (Tree.unmet_of_bare holds isCopy.holds isCopy.bare).1]
    obtain ⟨part, member, needed⟩ := Tree.mem_unmetAll.mp needed
    obtain ⟨entry, among, here⟩ := List.mem_flatMap.mp member
    have needs : table.Needs copied.unmet :=
      expands.fills (List.subset_cons_self .breaks copied.unmet) fun impossible => by cases impossible
    exact needs (sets entry among) (Tree.mem_unmetAll.mpr ⟨part, here, needed⟩)

end Copies

end Expansion

end Unflatten
