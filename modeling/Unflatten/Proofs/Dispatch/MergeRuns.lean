import Unflatten.Proofs.Dispatch.MergeSteps

/-! # Runs of a merge

Merging a list calls itself for other cases and for the arms of an `if`.  Each call keeps the
books of the table and of its own list, whatever stands in the lists of the calls around it.
By induction on the rounds, on the depth and on the sweeps, so does the whole merge. -/

set_option autoImplicit false

namespace Unflatten

namespace Merging

/-- Merging at the end of a list keeps the books. -/
def Settles (key : String) (settle : Settle) : Prop :=
  ∀ {work : Merging} {entries : List (Int × List Tree)} {body : List Tree} (value : Int)
    (atEntry : Bool), Laid work entries body →
    ∃ merged settled removals,
      (settle work value atEntry (body.map Tree.root)).2.1 = settled.map Tree.root ∧
      Merges key work (settle work value atEntry (body.map Tree.root)).1 entries merged body settled
        removals

/-- Merging in other cases keeps the books. -/
def SettlesCases (key : String) (inCase : Merging → Int → Merging) : Prop :=
  ∀ {work : Merging} {entries : List (Int × List Tree)} (value : Int), Laid work entries [] →
    ∃ merged removals, Merges key work (inCase work value) entries merged [] [] removals

/-- Merging in an arm keeps the books and leaves the arm in its place. -/
def SettlesArms (key : String) (inArm : Merging → Int → Slot → Merging × Option Int) : Prop :=
  ∀ {work : Merging} {entries : List (Int × List Tree)} {id : NodeId} {body : List Tree}
    (value : Int), Laid work entries [.node id (.block (body.map Tree.root)) body] →
    ∃ merged settled removals,
      Merges key work (inArm work value (some id)).1 entries merged
        [.node id (.block (body.map Tree.root)) body]
        [.node id (.block (settled.map Tree.root)) settled] removals ∧
      (inArm work value (some id)).1.store.parent (some id) = work.store.parent (some id)

section Calls
variable {key : String} {settle : Settle} {inCase : Merging → Int → Merging}
  {inArm : Merging → Int → Slot → Merging × Option Int} {work middle : Merging}
  {entries merged : List (Int × List Tree)} {body settled : List Tree} {removals : List Removal}
  {slots : List Slot}

theorem Settles.onward (settles : Settles key settle)
    (merges : Merges key work middle entries merged body settled removals) (value : Int)
    (atEntry : Bool) (listed : slots = settled.map Tree.root) :
    ∃ final last more, (settle middle value atEntry slots).2.1 = last.map Tree.root ∧
      Merges key work (settle middle value atEntry slots).1 entries final body last more := by
  subst listed
  obtain ⟨final, last, more, answered, further⟩ :=
    settles value atEntry merges.laid
  exact ⟨final, last, removals ++ more, answered, merges.trans further⟩

/-- A case is taken out of the table, and put back when its end is merged. -/
theorem putBack_merges {after : Merging} {others : List (Int × List Tree)} {value : Int}
    {trees : List Tree} (laid : Laid work ((value, trees) :: others) [])
    (merges : Merges key { work with table := work.table.erase value } after others merged
      trees.reverse settled removals) :
    Merges key work
      { after with table := after.table.insert value (settled.map Tree.root).reverse }
      ((value, trees) :: others) ((value, settled.reverse) :: merged) [] [] removals := by
  have perm : ∀ (entries : List (Int × List Tree)) (trees : List Tree),
      (pile entries trees.reverse).Perm (pile ((value, trees) :: entries) []) := fun entries trees =>
    trees.reverse_perm.append_right _
  have back := perm merged settled.reverse
  rw [List.reverse_reverse] at back
  obtain ⟨absent, keys⟩ := List.nodup_cons.mp laid.lists.keys
  have erased : ∀ {elsewhere}, Balanced key work ((value, trees) :: others) [] elsewhere →
      Balanced key { work with table := work.table.erase value } others trees.reverse elsewhere :=
    fun balanced => balanced.perm (perm others trees).symm
  refine ⟨?_, merges.moves.congr (perm others trees) back, fun removal member => ?_,
    fun balanced => merges.counts (erased balanced), ?_, ?_, merges.noted⟩
  · rw [← List.map_reverse]
    exact merges.lists.insert (fun inside => absent (merges.keys inside)) settled.reverse
  · exact (merges.loops removal member).carry (.refl _) fun _ _ _ _ inside =>
      (Tree.namesAll_perm back).subset inside
  · exact List.cons_subset_cons value merges.keys
  · intro _ balanced other inside outside
    rw [List.map_cons, List.mem_cons, not_or] at outside
    rcases List.mem_cons.mp inside with same | there
    · exact absurd same outside.1
    · exact merges.gone (erased balanced) other there outside.2

theorem settlesCases_visitCase (settles : Settles key settle) : SettlesCases key (visitCase settle) := by
  intro work entries value laid
  unfold visitCase
  split
  · exact ⟨entries, [], .refl laid⟩
  · simp only
    split
    · have kept : Merges key { work with visited := work.visited.insert value } _ entries entries
        [] [] [] := .refl ⟨laid.lists, laid.trees⟩
      exact ⟨entries, [], kept.unmarked rfl rfl id⟩
    · rename_i statements found
      obtain ⟨trees, others, listed, rfl⟩ := laid.lists.exists_cons found
      have first : Laid { work with visited := work.visited.insert value } ((value, trees) :: others) [] :=
        ⟨laid.lists.perm listed, laid.trees.perm (pile_perm listed [])⟩
      have perm : (pile entries []).Perm (pile others trees.reverse) :=
        (pile_perm listed []).trans (trees.reverse_perm.symm.append_right _)
      obtain ⟨merged, settled, removals, answered, merges⟩ := @settles
        { work with visited := work.visited.insert value, table := work.table.erase value }
        others trees.reverse value true ⟨first.lists.erase, laid.trees.perm perm⟩
      rw [List.map_reverse] at answered merges
      have whole := putBack_merges first merges
      rw [← answered] at whole
      exact ⟨_, removals, (whole.congr listed).unmarked rfl rfl id⟩

/-- The statements that are left in an arm are put back into it. -/
theorem settlesArms_visitArm (settles : Settles key settle) : SettlesArms key (visitArm settle) := by
  intro work entries id body value laid
  have listed : work.store.statementsOf (some id) = body.map Tree.root :=
    (laid.trees.holds _ List.mem_cons_self).statementsOf
  have perm : ∀ (entries : List (Int × List Tree)) (body : List Tree),
      (pile entries body).Perm (pile entries body.reverse) := fun entries body =>
    body.reverse_perm.symm.append_right _
  obtain ⟨inside, outside⟩ := laid.trees.below
  obtain ⟨merged, settled, removals, answered, merges⟩ := @settles work entries body.reverse value
    false ⟨laid.lists, inside.perm (perm entries body)⟩
  have moves := merges.moves.congr (perm entries body).symm (perm merged settled)
  have there : (settle work value false (body.reverse.map Tree.root)).1.store.shape? (some id) =
      some (.block (body.map Tree.root)) := by
    have found := (laid.trees.holds _ List.mem_cons_self).shape?
    rw [moves.touches.shape id (Store.lt_size_of_shape? found) outside]
    exact found
  obtain ⟨refilled, link⟩ := Moves.refill laid.trees moves
  have within : Tree.namesAll (pile merged settled) ⊆ Tree.namesAll
      (pile merged [.node id (.block (settled.reverse.map Tree.root)) settled.reverse]) := by
    refine List.Subset.trans (Tree.namesAll_perm (perm merged settled)).subset ?_
    show _ ⊆ Tree.namesAll (_ :: merged.flatMap Prod.snd)
    rw [Tree.namesAll, Tree.names, List.cons_append, ← Tree.namesAll_append]
    exact List.subset_cons_self _ _
  have put : (visitArm settle work value (some id)).1 =
      { (settle work value false (body.reverse.map Tree.root)).1 with
        store := ((settle work value false (body.reverse.map Tree.root)).1.store.setStatements (some id)
          (settled.reverse.map Tree.root)).1 } := by
    rw [visitArm, listed, List.map_reverse, List.map_reverse, ← answered, List.map_reverse]
  rw [put]
  refine ⟨merged, settled.reverse, removals,
    merges.around rfl rfl (Store.refills_setStatements there) refilled within fun other => ?_, link⟩
  rw [Tree.jumps_cons, Tree.length_keyStatements_other key other body id (fun _ => Shape.noConfusion),
    Tree.jumps_perm key other body.reverse_perm]
  exact Nat.le_add_right _ _

/-- An arm stands alone, without its `if`. -/
theorem Laid.arm {id arm : NodeId} {front back armBody : List Tree} {test thenSlot elseSlot : Slot}
    (laid : Laid work entries (.node id (.conditionalStatement test thenSlot elseSlot)
      (front ++ .node arm (.block (armBody.map Tree.root)) armBody :: back) :: body)) :
    Laid work entries [.node arm (.block (armBody.map Tree.root)) armBody] := by
  have whole := laid.trees.holds _ List.mem_cons_self
  refine ⟨laid.lists, laid.trees.of_occurs ?_ fun name => ?_⟩
  · intro tree member
    rcases List.mem_cons.mp member with rfl | inTable
    · exact whole.part (by simp [Tree.parts])
    · exact laid.trees.holds tree (List.mem_append_right _ inTable)
  · simp only [pile, List.cons_append, List.nil_append, Tree.occurs_cons, Tree.occurs_append,
      Tree.count_node]
    omega

/-- An arm is merged in its `if`. -/
theorem arm_merges (settlesArms : SettlesArms key inArm) {id arm : NodeId} (front back : List Tree)
    {armBody : List Tree} {test thenSlot elseSlot : Slot} (value : Int)
    (laid : Laid work entries (.node id (.conditionalStatement test thenSlot elseSlot)
      (front ++ .node arm (.block (armBody.map Tree.root)) armBody :: back) :: body)) :
    ∃ merged settled removals, Merges key work (inArm work value (some arm)).1 entries merged
      (.node id (.conditionalStatement test thenSlot elseSlot)
        (front ++ .node arm (.block (armBody.map Tree.root)) armBody :: back) :: body)
      (.node id (.conditionalStatement test thenSlot elseSlot)
        (front ++ .node arm (.block (settled.map Tree.root)) settled :: back) :: body) removals := by
  have whole := laid.trees.holds _ List.mem_cons_self
  have few : ∀ other, Tree.jumps key other [.node arm (.block (armBody.map Tree.root)) armBody] ≤
      Tree.jumps key other [.node id (.conditionalStatement test thenSlot elseSlot)
        (front ++ .node arm (.block (armBody.map Tree.root)) armBody :: back)] := by
    intro other
    simp only [Tree.jumps_cons, Tree.jumps_append, Tree.jumps_nil, Tree.length_keyStatements_other,
      ne_eq, reduceCtorEq, not_false_eq_true, implies_true]
    omega
  obtain ⟨merged, settled, removals, merges, link⟩ := settlesArms value laid.arm
  have alone : Laid work entries [.node id (.conditionalStatement test thenSlot elseSlot)
      (front ++ .node arm (.block (armBody.map Tree.root)) armBody :: back)] := by
    refine ⟨laid.lists, laid.trees.of_occurs ?_ fun name => ?_⟩
    · intro tree member
      rcases List.mem_cons.mp member with rfl | inTable
      · exact whole
      · exact laid.trees.holds tree (List.mem_append_right _ inTable)
    · simp only [pile, List.cons_append, List.nil_append, Tree.occurs_cons, Tree.occurs_append]
      omega
  have moves : Moves key work.store _ (pile entries [.node id (.conditionalStatement test thenSlot elseSlot)
        (front ++ .node arm (.block (armBody.map Tree.root)) armBody :: back)])
      (pile merged [.node id (.conditionalStatement test thenSlot elseSlot)
        (front ++ .node arm (.block (settled.map Tree.root)) settled :: back)]) removals :=
    Moves.within alone.trees merges.moves rfl link
  refine ⟨merged, settled, removals, (merges.around rfl rfl (.refl _) moves ?_ few).beside laid⟩
  show Tree.namesAll (_ :: merged.flatMap Prod.snd) ⊆ Tree.namesAll (_ :: merged.flatMap Prod.snd)
  intro name inside
  rw [Tree.namesAll, List.mem_append] at inside ⊢
  refine inside.imp_left fun here => List.mem_cons_of_mem _ (Tree.mem_namesAll.mpr ⟨_, ?_, here⟩)
  exact List.mem_append_right _ List.mem_cons_self

/-- Another case is merged beside a list. -/
theorem case_merges (settlesCases : SettlesCases key inCase) (body : List Tree) (value : Int)
    (laid : Laid work entries body) :
    ∃ merged removals, Merges key work (inCase work value) entries merged body body removals := by
  have table : Laid work entries [] :=
    ⟨laid.lists, (Store.holdsAll_append.mp laid.trees).2.1⟩
  obtain ⟨merged, removals, merges⟩ := settlesCases value table
  exact ⟨merged, removals, merges.beside laid⟩

/-- Both arms are merged, the one after the other. -/
theorem arms_merge (settlesArms : SettlesArms key inArm) {tree : Tree} {arms : Arms} (value : Int)
    (laid : Laid work entries (tree :: body)) (found : work.store.arms? tree.root = some arms) :
    ∃ merged changed removals, changed.root = tree.root ∧
      (inArm (inArm work value arms.thenBlock).1 value arms.elseBlock).1.store.arms? tree.root = some arms ∧
      Merges key work (inArm (inArm work value arms.thenBlock).1 value arms.elseBlock).1 entries merged
        (tree :: body) (changed :: body) removals := by
  obtain ⟨id, test, first, second, thenBody, elseBody, rfl, rfl⟩ :=
    (laid.trees.holds tree List.mem_cons_self).arms found
  obtain ⟨_, thenSettled, _, thenMerges⟩ := arm_merges settlesArms [test]
    [.node second (.block (elseBody.map Tree.root)) elseBody] value laid
  obtain ⟨merged, elseSettled, removals, elseMerges⟩ := arm_merges settlesArms
    [test, .node first (.block (thenSettled.map Tree.root)) thenSettled] [] value
    thenMerges.laid
  have merges := thenMerges.trans elseMerges
  refine ⟨merged, Tree.branch id test first second thenSettled elseSettled, _, rfl, ?_, merges⟩
  exact (merges.laid.trees.holds _ List.mem_cons_self).arms?_branch

/-- Every round keeps the books. -/
theorem settles_settleWith {key : MergeKey} (settlesCases : SettlesCases key.name inCase)
    (settlesArms : SettlesArms key.name inArm) (rounds : Nat) :
    Settles key.name (settleWith key inCase inArm rounds) := by
  induction rounds with
  | zero =>
    intro work entries body value atEntry laid
    exact ⟨entries, body, [], rfl, .refl laid⟩
  | succ rounds ih =>
    intro work entries body value atEntry laid
    cases body with
    | nil => exact ⟨entries, [], [], rfl, .refl laid⟩
    | cons tree before =>
      rw [List.map_cons, settleWith.eq_def]
      simp only
      have stop : ∃ merged settled removals, tree.root :: before.map Tree.root = settled.map Tree.root ∧
          Merges key.name work work entries merged (tree :: before) settled removals :=
        ⟨entries, tree :: before, [], rfl, .refl laid⟩
      split
      · exact stop
      cases found : work.store.arms? tree.root with
      | some arms =>
        simp only
        obtain ⟨merged, changed, removals, same, armed, merges⟩ :=
          arms_merge settlesArms value laid found
        generalize (inArm work value arms.thenBlock).2 = thenTarget
        generalize inArm (inArm work value arms.thenBlock).1 value arms.elseBlock = both at armed merges
        obtain ⟨later, elseTarget⟩ := both
        rw [← same] at armed ⊢
        split
        · -- the arms lead to the same case
          rename_i target shares
          obtain ⟨settled, more, listed, shared, -⟩ :=
            shareJump_merges merges.laid armed (Option.filter_eq_some_iff.mp shares).2
          exact ih.onward (merges.trans shared) value atEntry listed
        · split
          · rename_i mirrored statements recovers
            split
            · -- an arm leads back to the case
              rename_i whole
              simp only [Bool.and_eq_true, List.isEmpty_iff, List.map_eq_nil_iff] at whole
              obtain ⟨_, rfl⟩ := whole
              obtain ⟨settled, more, listed, looped, -⟩ :=
                recoverLoop_merges merges.laid armed recovers
              exact ih.onward (merges.trans looped) value atEntry listed
            · exact ⟨merged, changed :: before, removals, rfl, merges⟩
          · exact ⟨merged, changed :: before, removals, rfl, merges⟩
      | none =>
        cases before with
        | nil => exact stop
        | cons assignment rest =>
          simp only [List.map_cons] at stop ⊢
          split
          · exact stop
          rename_i breaks
          split
          · exact stop
          rename_i next assigns
          split
          · exact stop
          split
          · -- others lead to the case too: it is merged where it is
            obtain ⟨merged, removals, merges⟩ :=
              case_merges settlesCases (tree :: assignment :: rest) next laid
            exact ⟨merged, tree :: assignment :: rest, removals, rfl, merges⟩
          rename_i few
          split
          · exact stop
          rename_i successor listed
          split
          · exact stop
          -- nothing else leads to the case
          obtain ⟨merged, settled, removals, slots, taken, -⟩ := takeIn_merges laid assigns
            (by simpa using breaks) (Nat.le_of_not_lt few) listed
          exact ih.onward taken value atEntry slots

end Calls

/-! ## The whole merge -/

theorem settles_settle (key : MergeKey) (depth : Nat) : Settles key.name (settle key depth) := by
  induction depth with
  | zero =>
    intro work entries body value atEntry laid
    refine settles_settleWith ?_ ?_ work.store.depthBound value atEntry laid
    · exact fun _ laid => ⟨_, [], .refl laid⟩
    · exact fun _ laid => ⟨_, _, [], .refl laid, rfl⟩
  | succ depth ih =>
    intro work entries body value atEntry laid
    refine settles_settleWith ?_ (settlesArms_visitArm ih) work.store.depthBound value atEntry laid
    intro work entries value laid
    split
    · exact ⟨entries, [], .refl laid⟩
    · exact settlesCases_visitCase ih value laid

/-- A sweep begins with the start case: none was visited before. -/
theorem sweep_eq (key : MergeKey) (work : Merging) :
    sweep key work =
      match work.table.cases[key.start]? with
      | none => { work with visited := (∅ : Std.HashSet Int).insert key.start, isUpdated := false }
      | some statements =>
        let outcome := settle key (maxMergeDepth + 1)
          ⟨work.store, work.table.erase key.start, (∅ : Std.HashSet Int).insert key.start, false⟩
          key.start true statements.reverse
        { outcome.1 with table := outcome.1.table.insert key.start outcome.2.1.reverse } := by
  unfold sweep visitCase
  exact if_neg (by simp)

section Sweeps
variable {work : Merging} {entries : List (Int × List Tree)}

theorem sweep_merges (key : MergeKey) (laid : Laid work entries []) :
    ∃ merged removals, Merges key.name work (sweep key work) entries merged [] [] removals := by
  have fresh : Laid { work with visited := ∅, isUpdated := false } entries [] := ⟨laid.lists, laid.trees⟩
  obtain ⟨merged, removals, merges⟩ :=
    settlesCases_visitCase (settles_settle key (maxMergeDepth + 1)) key.start fresh
  exact ⟨merged, removals, merges.unmarked rfl rfl fun impossible => nomatch impossible⟩

theorem sweepAll_merges (key : MergeKey) (limit : Nat) (laid : Laid work entries []) :
    ∃ merged removals, Merges key.name work (sweepAll key limit work).1 entries merged [] [] removals := by
  induction limit generalizing work entries with
  | zero => exact ⟨entries, [], .refl laid⟩
  | succ limit ih =>
    obtain ⟨merged, removals, swept⟩ := sweep_merges key laid
    rw [sweepAll]
    split
    · obtain ⟨final, more, further⟩ := ih swept.laid
      exact ⟨final, removals ++ more, swept.trans further⟩
    · exact ⟨merged, removals, swept⟩

end Sweeps

end Merging

end Unflatten
