import Unflatten.Proofs.Dispatch.MergedTable

/-! # Merging comes to an end

`Ends` merges lists, arms and cases with no bound but the depth of `maxMergeDepth`.  The rounds of the
program are always enough, since each round takes a statement that gives the key a value out of the
trees, and there are no more of these than nodes (`ends_settle`).  A sweep that changes the table takes
one out of it, so sweeps come to an end after as many as there are at most (`merge_ends`).  Nothing of
this depends on the counts of the table. -/

set_option autoImplicit false

namespace Unflatten

namespace CaseTable

/-- How many statements in all cases give the key a value. -/
def assignments (table : CaseTable) (store : Store) (key : String) : Nat :=
  (table.nodes store).countP fun id => (store.keyValue? (some id) key).isSome

end CaseTable

namespace Merging

/-! ## Rounds without a bound -/

/-- What the end of a list calls for. -/
inductive Turn where
  | stop
  /-- Merging in the arms of an `if`. -/
  | branch (arms : Arms)
  /-- Merging in a case to which others lead as well. -/
  | join (next : Int)
  /-- Taking a case in.  Its statements go behind those that are left. -/
  | takeIn (next : Int) (successor rest : List Slot)

def turn (key : MergeKey) (work : Merging) : List Slot → Turn
  | [] => .stop
  | last :: before =>
    if work.store.isExit last then .stop
    else
      match work.store.arms? last with
      | some arms => .branch arms
      | none =>
        match before with
        | [] => .stop
        | assignment :: rest =>
          if !work.store.isPlainBreak last then .stop
          else
            match work.store.keyValue? assignment key.name with
            | none => .stop
            | some next =>
              if key.exits.contains next then .stop
              else if 1 < work.count next then .join next
              else
                match work.table.cases[next]? with
                | none => .stop
                | some successor =>
                  if reenters work.store key.name successor then .stop
                  else .takeIn next successor rest

/-- A case is taken out of the table for good. -/
def without (work : Merging) (next : Int) : Merging :=
  { work with table := work.table.erase next }.updated (work.table.histogram.insert next 0)

/-- The list that is merged next when the arms at the end of a list are merged, if there is one. -/
def rejoin? (key : MergeKey) (work : Merging) (value : Int) (atEntry : Bool) (arms : Arms)
    (thenTarget elseTarget : Option Int) (body : List Slot) : Option (Merging × List Slot) :=
  let shared : Option Int := if thenTarget = elseTarget then thenTarget else none
  match shared.filter (work.sharesJump key.name arms) with
  | some target => some ((work.shareJump arms target).1, (work.shareJump arms target).2.reverse ++ body)
  | none =>
    match recovery? work.store key.name arms thenTarget elseTarget value with
    | some (mirrored, statements) =>
      if atEntry && body.tail.isEmpty then
        some ((work.recoverLoop arms mirrored statements value).1,
          (work.recoverLoop arms mirrored statements value).2.reverse)
      else none
    | none => none

/-- What is merged: the end of a list, which is given last statements first, an arm, or a case. -/
inductive Part where
  | list (value : Int) (atEntry : Bool) (body : List Slot)
  | arm (value : Int) (arm : Slot)
  | case (value : Int)

/-- What merging comes to at some depth. -/
inductive Ends (key : MergeKey) : (depth : Nat) → Merging → Part → Merging × List Slot × Option Int → Prop
  | stop {depth : Nat} {work : Merging} {value : Int} {atEntry : Bool} {body : List Slot}
      (stops : turn key work body = .stop) :
      Ends key depth work (.list value atEntry body) (work, body, none)
  | join {depth : Nat} {work later : Merging} {value next : Int} {atEntry : Bool} {body : List Slot}
      (joins : turn key work body = .join next)
      (inner : Ends key (depth + 1) work (.case next) (later, [], none)) :
      Ends key depth work (.list value atEntry body) (later, body, some next)
  | takeIn {depth : Nat} {work : Merging} {value next : Int} {atEntry : Bool}
      {body successor rest : List Slot} {result : Merging × List Slot × Option Int}
      (takes : turn key work body = .takeIn next successor rest)
      (more : Ends key depth (work.without next) (.list value atEntry (successor.reverse ++ rest)) result) :
      Ends key depth work (.list value atEntry body) result
  | branch {depth : Nat} {work middle later : Merging} {value : Int} {atEntry : Bool} {body : List Slot}
      {arms : Arms} {thenTarget elseTarget : Option Int} (branches : turn key work body = .branch arms)
      (first : Ends key depth work (.arm value arms.thenBlock) (middle, [], thenTarget))
      (second : Ends key depth middle (.arm value arms.elseBlock) (later, [], elseTarget))
      (leaves : rejoin? key later value atEntry arms thenTarget elseTarget body = none) :
      Ends key depth work (.list value atEntry body) (later, body, none)
  | again {depth : Nat} {work middle later joined : Merging} {value : Int} {atEntry : Bool}
      {body rest : List Slot} {arms : Arms} {thenTarget elseTarget : Option Int}
      {result : Merging × List Slot × Option Int} (branches : turn key work body = .branch arms)
      (first : Ends key depth work (.arm value arms.thenBlock) (middle, [], thenTarget))
      (second : Ends key depth middle (.arm value arms.elseBlock) (later, [], elseTarget))
      (rejoins : rejoin? key later value atEntry arms thenTarget elseTarget body = some (joined, rest))
      (more : Ends key depth joined (.list value atEntry rest) result) :
      Ends key depth work (.list value atEntry body) result
  | deepArm {depth : Nat} {work : Merging} {value : Int} {arm : Slot} (deep : maxMergeDepth < depth) :
      Ends key depth work (.arm value arm) (work, [], none)
  | arm {depth : Nat} {work later : Merging} {value : Int} {arm : Slot} {settled : List Slot}
      {target : Option Int} (shallow : depth ≤ maxMergeDepth)
      (inner : Ends key (depth + 1) work (.list value false (work.store.statementsOf arm).reverse)
        (later, settled, target)) :
      Ends key depth work (.arm value arm)
        ({ later with store := (later.store.setStatements arm settled.reverse).1 }, [], target)
  | pass {depth : Nat} {work : Merging} {value : Int}
      (passes : maxMergeDepth < depth ∨ work.visited.contains value = true) :
      Ends key depth work (.case value) (work, [], none)
  | absent {depth : Nat} {work : Merging} {value : Int} (shallow : depth ≤ maxMergeDepth)
      (fresh : work.visited.contains value = false) (nowhere : work.table.cases[value]? = none) :
      Ends key depth work (.case value) ({ work with visited := work.visited.insert value }, [], none)
  | case {depth : Nat} {work later : Merging} {value : Int} {statements settled : List Slot}
      {target : Option Int} (shallow : depth ≤ maxMergeDepth)
      (fresh : work.visited.contains value = false) (found : work.table.cases[value]? = some statements)
      (inner : Ends key depth
        { work with visited := work.visited.insert value, table := work.table.erase value }
        (.list value true statements.reverse) (later, settled, target)) :
      Ends key depth work (.case value)
        ({ later with table := later.table.insert value settled.reverse }, [], none)

section Turns
variable {key : MergeKey} {work : Merging} {slots : List Slot}
  {inCase : Merging → Int → Merging} {inArm : Merging → Int → Slot → Merging × Option Int}

/-- One round, and the rounds behind it. -/
theorem settleWith_succ (rounds : Nat) (value : Int) (atEntry : Bool) :
    settleWith key inCase inArm (rounds + 1) work value atEntry slots =
      match turn key work slots with
      | .stop => (work, slots, none)
      | .branch arms =>
        let (middle, thenTarget) := inArm work value arms.thenBlock
        let (later, elseTarget) := inArm middle value arms.elseBlock
        match rejoin? key later value atEntry arms thenTarget elseTarget slots with
        | some (joined, rest) => settleWith key inCase inArm rounds joined value atEntry rest
        | none => (later, slots, none)
      | .join next => (inCase work next, slots, some next)
      | .takeIn next successor rest =>
        settleWith key inCase inArm rounds (work.without next) value atEntry (successor.reverse ++ rest) := by
  cases slots with
  | nil => rfl
  | cons last before =>
    rw [settleWith.eq_def]
    simp only [turn]
    by_cases exits : work.store.isExit last
    · simp only [if_pos exits]
    simp only [if_neg exits]
    cases work.store.arms? last with
    | some arms =>
      simp only [rejoin?]
      generalize (inArm work value arms.thenBlock).2 = thenTarget
      generalize inArm (inArm work value arms.thenBlock).1 value arms.elseBlock = both
      obtain ⟨later, elseTarget⟩ := both
      cases Option.filter (later.sharesJump key.name arms)
          (if thenTarget = elseTarget then thenTarget else none) with
      | some target => rfl
      | none =>
        cases recovery? later.store key.name arms thenTarget elseTarget value with
        | none => rfl
        | some recovered =>
          obtain ⟨mirrored, statements⟩ := recovered
          cases atEntry <;> cases before <;> rfl
    | none =>
      simp only
      cases before with
      | nil => rfl
      | cons assignment rest =>
        simp only
        by_cases breaks : (!work.store.isPlainBreak last) = true
        · simp only [if_pos breaks]
        simp only [if_neg breaks]
        cases work.store.keyValue? assignment key.name with
        | none => rfl
        | some next =>
          simp only
          by_cases leaves : key.exits.contains next = true
          · simp only [if_pos leaves]
          simp only [if_neg leaves]
          by_cases many : 1 < work.count next
          · simp only [if_pos many]
          simp only [if_neg many]
          cases work.table.cases[next]? with
          | none => rfl
          | some successor =>
            simp only
            split <;> rfl

theorem exists_of_branches {arms : Arms} (branches : turn key work slots = .branch arms) :
    ∃ last before, slots = last :: before ∧ work.store.arms? last = some arms := by
  revert branches
  fun_cases turn key work slots <;> intro branches <;> cases branches
  rename_i last before _ found
  exact ⟨last, before, rfl, found⟩

theorem exists_of_takes {next : Int} {successor rest : List Slot}
    (takes : turn key work slots = .takeIn next successor rest) :
    ∃ last assignment, slots = last :: assignment :: rest ∧ work.store.isPlainBreak last = true ∧
      work.store.keyValue? assignment key.name = some next ∧ work.count next ≤ 1 ∧
      work.table.cases[next]? = some successor := by
  revert takes
  fun_cases turn key work slots <;> intro takes <;> cases takes
  rename_i last _ _ assignment breaks assigns _ few _ found
  exact ⟨last, assignment, rfl, by simpa using breaks, assigns, Nat.le_of_not_lt few, found⟩

end Turns

/-! ## Each round takes a statement out -/

/-- The values that statements give the key. -/
def assigned (store : Store) (key : String) (ids : List NodeId) : List Int :=
  ids.filterMap fun id => store.keyValue? (some id) key

section Assigned
variable {store : Store} {key : String} {trees : List Tree} {work after : Merging}
  {entries merged : List (Int × List Tree)} {body settled : List Tree} {removals : List Removal}

theorem count_assigned (holds : ∀ tree ∈ trees, store.Holds tree) (value : Int) :
    (assigned store key (Tree.namesAll trees)).count value = Tree.jumps key value trees := by
  induction trees with
  | nil => rfl
  | cons tree rest ih =>
    have here := (holds tree List.mem_cons_self).filter_names key value
    have others := ih fun other member => holds other (List.mem_cons_of_mem tree member)
    unfold assigned at others ⊢
    rw [Tree.namesAll, List.filterMap_append, List.count_append, others, Tree.jumps_cons, ← here,
      List.count_filterMap, List.countP_eq_length_filter]

theorem length_lt_of_counts {first second : List Int} (each : ∀ value, first.count value ≤ second.count value) :
    first.length ≤ second.length ∧
      ((∃ value, first.count value < second.count value) → first.length < second.length) := by
  have among : first.Subperm second := List.subperm_ext_iff.mpr fun value _ => each value
  refine ⟨among.length_le, fun ⟨value, less⟩ => ?_⟩
  by_contra long
  have perm := among.perm_of_length_le (Nat.le_of_not_lt long)
  exact absurd (perm.count_eq value) (Nat.ne_of_lt less)

/-- No part of a merge adds a statement that gives the key a value, and a removed jump takes one out. -/
theorem Merges.fewer (merges : Merges key work after entries merged body settled removals) :
    (assigned after.store key (Tree.namesAll (pile merged settled))).length ≤
        (assigned work.store key (Tree.namesAll (pile entries body))).length ∧
      ((∃ value, 0 < Removal.jumps value removals) →
        (assigned after.store key (Tree.namesAll (pile merged settled))).length <
          (assigned work.store key (Tree.namesAll (pile entries body))).length) := by
  have counts : ∀ value, (assigned work.store key (Tree.namesAll (pile entries body))).count value =
      (assigned after.store key (Tree.namesAll (pile merged settled))).count value +
        Removal.jumps value removals := by
    intro value
    rw [count_assigned merges.moves.before.holds, count_assigned merges.moves.after.holds]
    exact merges.moves.jumps value
  obtain ⟨le, lt⟩ := length_lt_of_counts fun value => Nat.le.intro (counts value).symm
  refine ⟨le, fun ⟨value, removed⟩ => lt ⟨value, ?_⟩⟩
  rw [counts value]
  exact Nat.lt_add_of_pos_right removed

theorem length_assigned_le (laid : Laid work entries body) :
    (assigned work.store key (Tree.namesAll (pile entries body))).length ≤ work.store.nodes.size := by
  have bounded := Store.length_le_size laid.trees.nodup fun _ => laid.trees.lt_size
  exact Nat.le_trans (List.length_filterMap_le _ _) bounded

end Assigned

section Rounds
variable {key : MergeKey} {work joined : Merging} {entries : List (Int × List Tree)}
  {body : List Tree} {tree : Tree} {value next : Int} {successor rest : List Slot} {atEntry : Bool}

/-- The next round has a list of trees again, and fewer statements give the key a value. -/
def GoesOn (key : MergeKey) (work after : Merging) (entries : List (Int × List Tree)) (body : List Tree)
    (slots : List Slot) : Prop :=
  ∃ merged settled, slots = settled.map Tree.root ∧ Laid after merged settled ∧
    (assigned after.store key.name (Tree.namesAll (pile merged settled))).length <
      (assigned work.store key.name (Tree.namesAll (pile entries body))).length

theorem goesOn_takeIn (laid : Laid work entries body)
    (takes : turn key work (body.map Tree.root) = .takeIn next successor rest) :
    GoesOn key work (work.without next) entries body (successor.reverse ++ rest) := by
  obtain ⟨last, assignment, listed, breaks, assigns, few, found⟩ := exists_of_takes takes
  obtain ⟨leave, _, rfl, rfl, more⟩ := List.map_eq_cons_iff.mp listed
  obtain ⟨statement, before, rfl, rfl, rfl⟩ := List.map_eq_cons_iff.mp more
  obtain ⟨merged, settled, removals, slots, merges, removed⟩ :=
    takeIn_merges laid assigns breaks few found
  exact ⟨merged, settled, slots, merges.laid, merges.fewer.2 removed⟩

theorem goesOn_rejoin {arms : Arms} {thenTarget elseTarget : Option Int}
    (laid : Laid work entries (tree :: body)) (found : work.store.arms? tree.root = some arms)
    (rejoins : rejoin? key work value atEntry arms thenTarget elseTarget ((tree :: body).map Tree.root) =
      some (joined, rest)) : GoesOn key work joined entries (tree :: body) rest := by
  unfold rejoin? at rejoins
  simp only at rejoins
  split at rejoins
  · -- the arms share a jump
    rename_i target shares
    obtain ⟨settled, removals, slots, merges, removed⟩ :=
      shareJump_merges laid found (Option.filter_eq_some_iff.mp shares).2
    cases rejoins
    exact ⟨entries, settled, slots, merges.laid, merges.fewer.2 removed⟩
  · split at rejoins
    · -- an arm leads back to the case
      rename_i mirrored statements recovers
      split at rejoins
      · rename_i whole
        simp only [List.map_cons, List.tail_cons, Bool.and_eq_true, List.isEmpty_iff,
          List.map_eq_nil_iff] at whole
        obtain ⟨-, rfl⟩ := whole
        obtain ⟨settled, removals, slots, merges, removed⟩ := recoverLoop_merges laid found recovers
        cases rejoins
        exact ⟨entries, settled, slots, merges.laid, merges.fewer.2 removed⟩
      · cases rejoins
    · cases rejoins

end Rounds

/-! ## The rounds are enough -/

/-- Merging at the end of a list comes to its end. -/
def EndsLists (key : MergeKey) (depth : Nat) (settle : Settle) : Prop :=
  ∀ {work : Merging} {entries : List (Int × List Tree)} {body : List Tree} (value : Int) (atEntry : Bool),
    Laid work entries body → Ends key depth work (.list value atEntry (body.map Tree.root))
      (settle work value atEntry (body.map Tree.root))

/-- Merging in other cases comes to its end. -/
def EndsCases (key : MergeKey) (depth : Nat) (inCase : Merging → Int → Merging) : Prop :=
  ∀ {work : Merging} {entries : List (Int × List Tree)} (value : Int), Laid work entries [] →
    Ends key depth work (.case value) (inCase work value, [], none)

/-- Merging in arms comes to its end. -/
def EndsArms (key : MergeKey) (depth : Nat) (inArm : Merging → Int → Slot → Merging × Option Int) : Prop :=
  ∀ {work : Merging} {entries : List (Int × List Tree)} {id : NodeId} {body : List Tree} (value : Int),
    Laid work entries [.node id (.block (body.map Tree.root)) body] →
      Ends key depth work (.arm value (some id))
        ((inArm work value (some id)).1, [], (inArm work value (some id)).2)

section Enough
variable {key : MergeKey} {depth : Nat} {settle : Settle} {inCase : Merging → Int → Merging}
  {inArm : Merging → Int → Slot → Merging × Option Int} {work : Merging}
  {entries : List (Int × List Tree)} {body : List Tree} {tree : Tree}

theorem endsCases_visitCase (ends : EndsLists key depth settle) (shallow : depth ≤ maxMergeDepth) :
    EndsCases key depth (visitCase settle) := by
  intro work entries value laid
  unfold visitCase
  by_cases visited : work.visited.contains value = true
  · rw [if_pos visited]
    exact .pass (.inr visited)
  rw [if_neg visited]
  have fresh := Bool.eq_false_of_not_eq_true visited
  simp only
  cases found : work.table.cases[value]? with
  | none => exact .absent shallow fresh found
  | some statements =>
    obtain ⟨trees, others, listed, rfl⟩ := laid.lists.exists_cons found
    have perm : (pile entries []).Perm (pile others trees.reverse) :=
      (pile_perm listed []).trans (trees.reverse_perm.symm.append_right _)
    have inner := @ends
      { work with visited := work.visited.insert value, table := work.table.erase value }
      others trees.reverse value true ⟨(laid.lists.perm listed).erase, laid.trees.perm perm⟩
    rw [List.map_reverse] at inner
    exact .case shallow fresh found inner

theorem endsArms_visitArm (ends : EndsLists key (depth + 1) settle) (shallow : depth ≤ maxMergeDepth) :
    EndsArms key depth (visitArm settle) := by
  intro work entries id body value laid
  have listed : work.store.statementsOf (some id) = body.map Tree.root :=
    (laid.trees.holds _ List.mem_cons_self).statementsOf
  have perm : (pile entries body).Perm (pile entries body.reverse) :=
    body.reverse_perm.symm.append_right _
  have inner := ends value false ⟨laid.lists, laid.trees.below.1.perm perm⟩
  rw [List.map_reverse, ← listed] at inner
  exact .arm shallow inner

/-- Both arms of an `if` come to their end. -/
theorem ends_arms (settlesArms : SettlesArms key.name inArm) (endsArms : EndsArms key depth inArm)
    {arms : Arms} (value : Int) (laid : Laid work entries (tree :: body))
    (found : work.store.arms? tree.root = some arms) :
    Ends key depth work (.arm value arms.thenBlock)
        ((inArm work value arms.thenBlock).1, [], (inArm work value arms.thenBlock).2) ∧
      Ends key depth (inArm work value arms.thenBlock).1 (.arm value arms.elseBlock)
        ((inArm (inArm work value arms.thenBlock).1 value arms.elseBlock).1, [],
          (inArm (inArm work value arms.thenBlock).1 value arms.elseBlock).2) := by
  obtain ⟨id, test, first, second, thenBody, elseBody, rfl, rfl⟩ :=
    (laid.trees.holds tree List.mem_cons_self).arms found
  have thenLaid : Laid work entries (.node id _ ([test] ++ .node first _ thenBody :: [_]) :: body) := laid
  obtain ⟨_, thenSettled, _, merges⟩ := arm_merges settlesArms [test]
    [.node second (.block (elseBody.map Tree.root)) elseBody] value laid
  have elseLaid : Laid _ _ (.node id _ ([test, _] ++ .node second _ elseBody :: []) :: body) := merges.laid
  exact ⟨endsArms value thenLaid.arm, endsArms value elseLaid.arm⟩

/-- As many rounds are enough as statements give the key a value. -/
theorem ends_settleWith (settlesArms : SettlesArms key.name inArm) (endsCases : EndsCases key (depth + 1) inCase) (endsArms : EndsArms key depth inArm) (rounds : Nat) (value : Int) (atEntry : Bool)
    (laid : Laid work entries body)
    (enough : (assigned work.store key.name (Tree.namesAll (pile entries body))).length < rounds) :
    Ends key depth work (.list value atEntry (body.map Tree.root))
      (settleWith key inCase inArm rounds work value atEntry (body.map Tree.root)) := by
  induction rounds generalizing work entries body with
  | zero => exact absurd enough (Nat.not_lt_zero _)
  | succ rounds ih =>
    have onward : ∀ {after : Merging} {slots : List Slot}, GoesOn key work after entries body slots →
        Ends key depth after (.list value atEntry slots)
          (settleWith key inCase inArm rounds after value atEntry slots) := by
      rintro after _ ⟨merged, settled, rfl, further, fewer⟩
      exact ih further (Nat.lt_of_lt_of_le fewer (Nat.le_of_lt_succ enough))
    rw [settleWith_succ]
    cases turns : turn key work (body.map Tree.root) with
    | stop => exact .stop turns
    | join next =>
      have table : Laid work entries [] := ⟨laid.lists, (Store.holdsAll_append.mp laid.trees).2.1⟩
      exact .join turns (endsCases next table)
    | takeIn next successor rest => exact .takeIn turns (onward (goesOn_takeIn laid turns))
    | branch arms =>
      obtain ⟨_, _, listed, found⟩ := exists_of_branches turns
      obtain ⟨tree, before, rfl, rfl, rfl⟩ := List.map_eq_cons_iff.mp listed
      obtain ⟨first, second⟩ := ends_arms settlesArms endsArms value laid found
      obtain ⟨merged, changed, removals, same, armed, merges⟩ := arms_merge settlesArms value laid found
      simp only
      cases rejoins : rejoin? key (inArm (inArm work value arms.thenBlock).1 value arms.elseBlock).1 value
          atEntry arms (inArm work value arms.thenBlock).2
          (inArm (inArm work value arms.thenBlock).1 value arms.elseBlock).2
          ((tree :: before).map Tree.root) with
      | none => exact .branch turns first second rejoins
      | some state =>
        obtain ⟨joined, rest⟩ := state
        have slots : (changed :: before).map Tree.root = (tree :: before).map Tree.root := by
          rw [List.map_cons, List.map_cons, same]
        obtain ⟨final, last, list, further, fewer⟩ :=
          goesOn_rejoin merges.laid (same ▸ armed) (slots ▸ rejoins)
        exact .again turns first second rejoins
          (onward ⟨final, last, list, further, Nat.lt_of_lt_of_le fewer merges.fewer.1⟩)

/-- At each depth merging comes to its end.  The program counts the depth down from above its bound. -/
theorem ends_settle (key : MergeKey) (left : Nat) (bounded : left ≤ maxMergeDepth + 1) :
    EndsLists key (maxMergeDepth + 1 - left) (Merging.settle key left) := by
  have enough : ∀ {work : Merging} {entries : List (Int × List Tree)} {body : List Tree},
      Laid work entries body →
      (assigned work.store key.name (Tree.namesAll (pile entries body))).length < work.store.depthBound :=
    fun laid => Nat.lt_succ_of_le (length_assigned_le laid)
  induction left with
  | zero =>
    intro work entries body value atEntry laid
    apply ends_settleWith _ _ _ work.store.depthBound value atEntry laid (enough laid)
    · exact fun _ laid => ⟨_, _, [], .refl laid, rfl⟩
    · exact fun _ _ => .pass (.inl (Nat.lt_succ_of_lt (Nat.lt_succ_self _)))
    · exact fun _ _ => .deepArm (Nat.lt_succ_self _)
  | succ left ih =>
    intro work entries body value atEntry laid
    have one : maxMergeDepth + 1 - (left + 1) + 1 = maxMergeDepth + 1 - left := by omega
    have inner : EndsLists key (maxMergeDepth + 1 - left) (Merging.settle key left) :=
      ih (Nat.le_of_succ_le bounded)
    apply ends_settleWith _ _ _ work.store.depthBound value atEntry laid (enough laid)
    · exact settlesArms_visitArm (settles_settle key left)
    · rw [one]
      intro work entries value laid
      by_cases deepest : left = 0
      · simp only [if_pos deepest]
        exact .pass (.inl (by omega))
      · simp only [if_neg deepest]
        exact endsCases_visitCase inner (by omega) value laid
    · rw [← one] at inner
      exact endsArms_visitArm inner (by omega)

end Enough

/-! ## The sweeps -/

section Sweeps
variable {work : Merging} {entries : List (Int × List Tree)}

theorem Laid.assignments_eq (laid : Laid work entries []) (key : String) :
    work.table.assignments work.store key =
      (assigned work.store key (Tree.namesAll (pile entries []))).length := by
  rw [CaseTable.assignments, laid.nodes_perm.countP_eq, assigned, List.length_filterMap_eq_countP]

/-- A sweep comes to its end, and if it changed anything, fewer statements give the key a value. -/
theorem sweep_lessens (key : MergeKey) (laid : Laid work entries []) :
    Ends key 0 { work with visited := ∅, isUpdated := false } (.case key.start) (sweep key work, [], none) ∧
      (∃ merged, Laid (sweep key work) merged []) ∧
      ((sweep key work).isUpdated = true →
        (sweep key work).table.assignments (sweep key work).store key.name <
          work.table.assignments work.store key.name) := by
  have fresh : Laid { work with visited := ∅, isUpdated := false } entries [] := ⟨laid.lists, laid.trees⟩
  have ends : EndsLists key 0 (settle key (maxMergeDepth + 1)) := by
    have whole : EndsLists key (maxMergeDepth + 1 - (maxMergeDepth + 1)) _ :=
      ends_settle key (maxMergeDepth + 1) (Nat.le_refl _)
    rwa [Nat.sub_self] at whole
  obtain ⟨merged, removals, merges⟩ : ∃ merged removals, Merges key.name
      { work with visited := ∅, isUpdated := false } (sweep key work) entries merged [] [] removals :=
    settlesCases_visitCase (settles_settle key (maxMergeDepth + 1)) key.start fresh
  refine ⟨endsCases_visitCase ends (Nat.zero_le _) key.start fresh, ⟨merged, merges.laid⟩, fun updated => ?_⟩
  rcases merges.noted updated with impossible | removed
  · cases impossible
  · rw [laid.assignments_eq, merges.laid.assignments_eq]
    exact merges.fewer.2 removed

/-- Sweeps come to an end if there are more of them than statements that give the key a value. -/
theorem sweepAll_settles (key : MergeKey) (limit : Nat) (laid : Laid work entries [])
    (enough : work.table.assignments work.store key.name < limit) : (sweepAll key limit work).2 = true := by
  induction limit generalizing work entries with
  | zero => exact absurd enough (Nat.not_lt_zero _)
  | succ limit ih =>
    obtain ⟨-, ⟨merged, further⟩, fewer⟩ := sweep_lessens key laid
    rw [sweepAll]
    by_cases updated : (sweep key work).isUpdated
    · rw [if_pos updated]
      exact ih further (Nat.lt_of_lt_of_le (fewer updated) (Nat.le_of_lt_succ enough))
    · rw [if_neg updated]

end Sweeps

end Merging

namespace CaseTable

open Merging

/-- A sweep over a table comes to its end and leaves a table, with fewer statements that give the key a
value if it changed anything.  So the sweeps end before their limit, if there are fewer such statements
than that. -/
theorem merge_ends {table : CaseTable} {store : Store} (stands : table.Stands store) (key : MergeKey)
    (visited : Std.HashSet Int) (isUpdated : Bool) :
    let swept := sweep key ⟨store, table, visited, isUpdated⟩
    Ends key 0 ⟨store, table, ∅, false⟩ (.case key.start) (swept, [], none) ∧
      swept.table.Stands swept.store ∧
      (swept.isUpdated = true →
        swept.table.assignments swept.store key.name < table.assignments store key.name) ∧
      (table.assignments store key.name < maxMergeSweeps → (table.merge store key).2.2 = true) := by
  obtain ⟨entries, laid⟩ := exists_laid stands visited isUpdated
  obtain ⟨ends, ⟨merged, further⟩, fewer⟩ := sweep_lessens key laid
  refine ⟨ends, further.stands, fewer, fun enough => ?_⟩
  obtain ⟨others, fresh⟩ := exists_laid stands ∅ false
  exact sweepAll_settles key maxMergeSweeps fresh enough

/-- The first sweep takes the one statement `s = 1;` out, and the merge comes to an end. -/
theorem leading_merge_ends : leadingTable.Stands leading ∧
    leadingTable.assignments leading "s" = 1 ∧ 1 < maxMergeSweeps ∧
    (sweep leadingKey ⟨leading, leadingTable, ∅, false⟩).isUpdated = true ∧
    (sweep leadingKey ⟨leading, leadingTable, ∅, false⟩).table.assignments
      (sweep leadingKey ⟨leading, leadingTable, ∅, false⟩).store "s" < 1 ∧
    (leadingTable.merge leading leadingKey).2.2 = true := by
  have one : leadingTable.assignments leading "s" = 1 := by decide +kernel
  have few : 1 < maxMergeSweeps := by decide
  obtain ⟨-, -, fewer, settles⟩ := merge_ends leadingTable_stands leadingKey ∅ false
  have updated : (sweep leadingKey ⟨leading, leadingTable, ∅, false⟩).isUpdated = true := by
    rw [sweep_eq]
    decide +kernel
  rw [show leadingKey.name = "s" from rfl, one] at fewer settles
  exact ⟨leadingTable_stands, one, few, updated, fewer updated, settles few⟩

end CaseTable

end Unflatten
