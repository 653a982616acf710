import Unflatten.Dispatch.Merging
import Unflatten.Proofs.Dispatch.Moves

/-! # The steps of a merge

While cases are merged, statements stand in the table, in blocks, and in lists that were taken
out of the table.  `Laid` says that the cases of the table and one such list are trees of the
store that do not overlap, `Balanced` that the counts are the statements there and in the other
lists.  `Merges` says what a part of the merge does to the trees, and to the counts if they are
right.  Each step is such a part: a case is taken in, two arms share a jump, an `if` becomes a
loop. -/

set_option autoImplicit false

namespace Unflatten

namespace Histogram

theorem count_insert (histogram : Histogram) (value other : Int) (number : Nat) :
    count (histogram.insert value number) other =
      if value = other then number else histogram.count other := by
  rw [count, Std.TreeMap.getElem?_insert]
  by_cases same : value = other
  · rw [if_pos (compare_eq_iff_eq.mpr same), if_pos same]
    rfl
  · rw [if_neg fun equal => same (compare_eq_iff_eq.mp equal), if_neg same]
    rfl

theorem count_decrement (histogram : Histogram) (value other : Int) :
    (histogram.decrement value).count other =
      if value = other then histogram.count other - 1 else histogram.count other := by
  unfold decrement
  split
  · rw [count_insert]
    by_cases same : value = other
    · rw [if_pos same, if_pos same, same]
    · rw [if_neg same, if_neg same]
  · rename_i absent
    by_cases same : value = other
    · rw [if_pos same, ← same, count, Std.TreeMap.getElem?_eq_none (by simpa using absent)]
      rfl
    · rw [if_neg same]

end Histogram

namespace Merging

/-! ## Tables of trees -/

/-- The cases of a table are lists of trees. -/
structure Lists (cases : Std.TreeMap Int (List Slot)) (entries : List (Int × List Tree)) : Prop where
  found : ∀ value slots, cases[value]? = some slots ↔
    ∃ trees, (value, trees) ∈ entries ∧ slots = trees.map Tree.root
  keys : (entries.map Prod.fst).Nodup

/-- All trees of a list and of a table. -/
def pile (entries : List (Int × List Tree)) (body : List Tree) : List Tree :=
  body ++ entries.flatMap Prod.snd

section Lists
variable {cases : Std.TreeMap Int (List Slot)} {entries others : List (Int × List Tree)}
  {value : Int} {slots : List Slot} {trees : List Tree}

theorem pile_perm (perm : entries.Perm others) (body : List Tree) :
    (pile entries body).Perm (pile others body) :=
  (perm.flatMap_right _).append_left body

theorem Lists.perm (lists : Lists cases entries) (perm : entries.Perm others) : Lists cases others := by
  refine ⟨fun value slots => ?_, (perm.map _).nodup lists.keys⟩
  rw [lists.found]
  simp only [perm.mem_iff]

/-- A case of the table, and the others. -/
theorem Lists.exists_cons (lists : Lists cases entries) (found : cases[value]? = some slots) :
    ∃ trees others, entries.Perm ((value, trees) :: others) ∧ slots = trees.map Tree.root := by
  obtain ⟨trees, member, same⟩ := (lists.found value slots).mp found
  obtain ⟨front, back, rfl⟩ := List.append_of_mem member
  exact ⟨trees, front ++ back, List.perm_middle, same⟩

theorem Lists.erase (lists : Lists cases ((value, trees) :: entries)) :
    Lists (cases.erase value) entries := by
  obtain ⟨absent, keys⟩ := List.nodup_cons.mp lists.keys
  refine ⟨fun other slots => ?_, keys⟩
  rw [Std.TreeMap.getElem?_erase]
  by_cases same : value = other
  · subst same
    rw [if_pos (compare_eq_iff_eq.mpr rfl)]
    refine ⟨fun impossible => (by cases impossible), ?_⟩
    rintro ⟨trees, member, _⟩
    exact absurd (List.mem_map_of_mem member) absent
  · rw [if_neg fun equal => same (compare_eq_iff_eq.mp equal), lists.found]
    refine exists_congr fun trees => and_congr_left fun _ => ?_
    simp [Ne.symm same]

theorem Lists.insert (lists : Lists cases entries) (absent : value ∉ entries.map Prod.fst)
    (trees : List Tree) : Lists (cases.insert value (trees.map Tree.root)) ((value, trees) :: entries) := by
  refine ⟨fun other slots => ?_, List.nodup_cons.mpr ⟨absent, lists.keys⟩⟩
  rw [Std.TreeMap.getElem?_insert]
  by_cases same : value = other
  · subst same
    rw [if_pos (compare_eq_iff_eq.mpr rfl), Option.some.injEq]
    constructor
    · rintro rfl
      exact ⟨trees, List.mem_cons_self, rfl⟩
    · rintro ⟨trees', member, rfl⟩
      rcases List.mem_cons.mp member with here | there
      · cases here
        rfl
      · exact absurd (List.mem_map_of_mem there) absent
  · rw [if_neg fun equal => same (compare_eq_iff_eq.mp equal), lists.found]
    refine exists_congr fun trees' => and_congr_left fun _ => ?_
    simp [Ne.symm same]

end Lists

/-! ## Books -/

/-- A table and a list are trees of the store that do not overlap. -/
structure Laid (work : Merging) (entries : List (Int × List Tree)) (body : List Tree) : Prop where
  lists : Lists work.table.cases entries
  trees : work.store.HoldsAll (pile entries body)

/-- The counts are the statements of a table and a list, and others that are elsewhere. -/
def Balanced (key : String) (work : Merging) (entries : List (Int × List Tree)) (body : List Tree)
    (elsewhere : Int → Nat) : Prop :=
  ∀ value, work.count value = Tree.jumps key value (pile entries body) + elsewhere value

/-- What a part of a merge does to a table and a list. -/
structure Merges (key : String) (work after : Merging) (entries merged : List (Int × List Tree))
    (body settled : List Tree) (removals : List Removal) : Prop where
  lists : Lists after.table.cases merged
  moves : Moves key work.store after.store (pile entries body) (pile merged settled) removals
  loops : ∀ removal ∈ removals,
    removal.BecomesLoop work.store after.store (Tree.namesAll (pile merged settled))
  counts : ∀ {elsewhere}, Balanced key work entries body elsewhere →
    ∀ value, work.count value = after.count value + Removal.jumps value removals
  keys : merged.map Prod.fst ⊆ entries.map Prod.fst
  gone : ∀ {elsewhere}, Balanced key work entries body elsewhere →
    ∀ value ∈ entries.map Prod.fst, value ∉ merged.map Prod.fst → after.count value = 0
  noted : after.isUpdated = true → work.isUpdated = true ∨ ∃ value, 0 < Removal.jumps value removals

section Balanced
variable {key : String} {work : Merging} {entries others : List (Int × List Tree)}
  {body trees : List Tree} {elsewhere : Int → Nat}

theorem Balanced.perm (balanced : Balanced key work entries body elsewhere)
    (perm : (pile entries body).Perm (pile others trees)) :
    Balanced key work others trees elsewhere := fun value => by
  rw [← Tree.jumps_perm key value perm]
  exact balanced value

/-- For a part of the statements the others are elsewhere. -/
theorem Balanced.part (balanced : Balanced key work entries body elsewhere)
    (fewer : ∀ value, Tree.jumps key value trees ≤ Tree.jumps key value body) :
    ∃ elsewhere, Balanced key work entries trees elsewhere := by
  refine ⟨fun value => work.count value - Tree.jumps key value (pile entries trees), fun value => ?_⟩
  have counted := balanced value
  have bound := fewer value
  simp only [pile, Tree.jumps_append] at counted ⊢
  omega

end Balanced

section Merges
variable {key : String} {work middle after : Merging}
  {entries others merged final : List (Int × List Tree)} {body settled last aside : List Tree}
  {removals more : List Removal} {elsewhere : Int → Nat} {value : Int}

theorem Merges.refl (laid : Laid work entries body) : Merges key work work entries entries body body [] :=
  ⟨laid.lists, .perm key laid.trees (.refl _), List.forall_mem_nil _, fun _ _ => rfl,
    List.Subset.refl _, fun _ _ inside outside => absurd inside outside, .inl⟩

theorem Merges.congr (merges : Merges key work after others merged body settled removals)
    (listed : entries.Perm others) : Merges key work after entries merged body settled removals := by
  refine ⟨merges.lists, merges.moves.congr (pile_perm listed.symm body) (.refl _), merges.loops,
    fun balanced => merges.counts (balanced.perm (pile_perm listed body)), fun value inside => ?_,
    fun balanced value inside => ?_, merges.noted⟩
  · rw [(listed.map Prod.fst).mem_iff]
    exact merges.keys inside
  · rw [(listed.map Prod.fst).mem_iff] at inside
    exact merges.gone (balanced.perm (pile_perm listed body)) value inside

/-- What is marked as visited is not in the books. -/
theorem Merges.unmarked {marked : Merging}
    (merges : Merges key marked after entries merged body settled removals)
    (store : marked.store = work.store) (table : marked.table = work.table)
    (update : marked.isUpdated = true → work.isUpdated = true) :
    Merges key work after entries merged body settled removals := by
  have counts : ∀ value, marked.count value = work.count value := fun value => by rw [count, count, table]
  have marks : ∀ {elsewhere}, Balanced key work entries body elsewhere →
      Balanced key marked entries body elsewhere :=
    fun balanced value => (counts value).trans (balanced value)
  exact ⟨merges.lists, store ▸ merges.moves, store ▸ merges.loops,
    fun balanced value => counts value ▸ merges.counts (marks balanced) value, merges.keys,
    fun balanced => merges.gone (marks balanced), fun noted => (merges.noted noted).imp_left update⟩

theorem Merges.laid (merges : Merges key work after entries merged body settled removals) :
    Laid after merged settled := ⟨merges.lists, merges.moves.after⟩

/-- The books stay balanced. -/
theorem Merges.balanced (merges : Merges key work after entries merged body settled removals)
    (balanced : Balanced key work entries body elsewhere) :
    Balanced key after merged settled elsewhere := by
  intro value
  have before := balanced value
  have counts := merges.counts balanced value
  have jumps := merges.moves.jumps value
  omega

theorem Merges.trans (first : Merges key work middle entries merged body settled removals)
    (second : Merges key middle after merged final settled last more) :
    Merges key work after entries final body last (removals ++ more) := by
  refine ⟨second.lists, first.moves.trans second.moves, fun removal member => ?_,
    fun balanced value => ?_, List.Subset.trans second.keys first.keys,
    fun balanced value inside outside => ?_, fun noted => ?_⟩
  · rcases List.mem_append.mp member with here | there
    · exact second.moves.becomesLoop_after (first.loops removal here)
    · exact first.moves.becomesLoop_before (second.loops removal there)
  · have here := first.counts balanced value
    have there := second.counts (first.balanced balanced) value
    rw [Removal.jumps_append]
    omega
  · by_cases kept : value ∈ merged.map Prod.fst
    · exact second.gone (first.balanced balanced) value kept outside
    · have here := first.gone balanced value inside kept
      have there := second.counts (first.balanced balanced) value
      omega
  · simp only [Removal.jumps_append]
    rcases second.noted noted with middleNoted | ⟨value, there⟩
    · exact (first.noted middleNoted).imp_right fun ⟨value, here⟩ => ⟨value, Nat.add_pos_left here _⟩
    · exact .inr ⟨value, Nat.add_pos_right _ there⟩

/-- A part of a merge in one list, seen from another one around it. -/
theorem Merges.around {around : Merging} {outer outside : List Tree}
    (merges : Merges key work after entries merged body settled removals)
    (table : around.table = after.table) (update : around.isUpdated = after.isUpdated)
    (refills : after.store.Refills around.store)
    (moves : Moves key work.store around.store (pile entries outer) (pile merged outside) removals)
    (within : Tree.namesAll (pile merged settled) ⊆ Tree.namesAll (pile merged outside))
    (fewer : ∀ value, Tree.jumps key value body ≤ Tree.jumps key value outer) :
    Merges key work around entries merged outer outside removals := by
  have counts : ∀ value, around.count value = after.count value := fun value => by rw [count, count, table]
  refine ⟨table ▸ merges.lists, moves, fun removal member => ?_, fun balanced value => ?_, merges.keys,
    fun balanced value inside outside => ?_, update ▸ merges.noted⟩
  · exact (merges.loops removal member).carry refills fun _ _ _ _ inside => within inside
  · obtain ⟨_, inner⟩ := balanced.part fewer
    rw [counts]
    exact merges.counts inner value
  · obtain ⟨_, inner⟩ := balanced.part fewer
    exact (counts value).trans (merges.gone inner value inside outside)

theorem Merges.beside (merges : Merges key work after entries merged body settled removals)
    (laid : Laid work entries (body ++ aside)) :
    Merges key work after entries merged (body ++ aside) (settled ++ aside) removals := by
  have perm : ∀ (entries : List (Int × List Tree)) (body : List Tree),
      (pile entries body ++ aside).Perm (pile entries (body ++ aside)) := by
    intro entries body
    simp only [pile, List.append_assoc]
    exact List.perm_append_comm.append_left body
  have moves := merges.moves.beside (laid.trees.perm (perm entries body).symm)
  refine merges.around rfl rfl (.refl _) (moves.congr (perm entries body) (perm merged settled)) ?_
    fun value => ?_
  · refine List.Subset.trans ?_ (Tree.namesAll_perm (perm merged settled)).subset
    rw [Tree.namesAll_append]
    exact List.subset_append_left _ _
  · rw [Tree.jumps_append]
    exact Nat.le_add_right _ _

end Merges

/-! ## Jumps -/

theorem count_updated (work : Merging) (histogram : Histogram) (value : Int) :
    (work.updated histogram).count value = histogram.count value := rfl

section Jumps
variable {store : Store} {key : String} {work : Merging} {entries : List (Int × List Tree)}
  {body trees : List Tree} {elsewhere : Int → Nat} {target : Int} {leave assignment tree : Tree}

theorem exists_of_endsWithJump (ends : store.endsWithJump key (trees.map Tree.root) target = true) :
    ∃ front assignment leave, trees = front ++ [assignment, leave] ∧
      store.keyValue? assignment.root key = some target ∧ store.isPlainBreak leave.root = true := by
  unfold Store.endsWithJump at ends
  rcases List.eq_nil_or_concat trees with rfl | ⟨before, leave, rfl⟩
  · cases ends
  · rcases List.eq_nil_or_concat before with rfl | ⟨front, assignment, rfl⟩
    · cases ends
    · simp only [List.concat_eq_append, List.map_append, List.map_cons, List.map_nil,
        List.reverse_append, List.reverse_cons, List.reverse_nil, List.nil_append, List.cons_append,
        Bool.and_eq_true, beq_iff_eq] at ends
      exact ⟨front, assignment, leave, by simp, ends.2, ends.1⟩

/-- The only case that leads to another takes it in. -/
theorem takeIn_merges {next : Int} {successor : List Slot}
    (laid : Laid work entries (leave :: assignment :: body))
    (assigns : work.store.keyValue? assignment.root key = some next)
    (breaks : work.store.isPlainBreak leave.root = true) (few : work.count next ≤ 1)
    (found : work.table.cases[next]? = some successor) :
    ∃ merged settled removals, successor.reverse ++ body.map Tree.root = settled.map Tree.root ∧
      Merges key work
        ({ work with table := work.table.erase next }.updated (work.table.histogram.insert next 0))
        entries merged (leave :: assignment :: body) settled removals ∧
      ∃ value, 0 < Removal.jumps value removals := by
  obtain ⟨trees, others, listed, rfl⟩ := laid.lists.exists_cons found
  have lists := (laid.lists.perm listed).erase
  have perm : (pile entries (leave :: assignment :: body)).Perm
      (leave :: assignment :: pile others (trees.reverse ++ body)) := by
    refine (pile_perm listed _).trans ?_
    simp only [pile, List.flatMap_cons, List.cons_append, List.append_assoc]
    refine .cons _ (.cons _ ?_)
    rw [← List.append_assoc, ← List.append_assoc]
    refine List.Perm.append_right _ ?_
    exact List.perm_append_comm.trans (trees.reverse_perm.symm.append_right body)
  obtain ⟨statement, binary, name, number, last, dropped⟩ :=
    Moves.dropJump (laid.trees.perm perm) assigns breaks
  have moves := dropped.congr perm.symm (.refl _)
  have once := moves.jumps next
  rw [Removal.jumps_jump, if_pos rfl] at once
  have removed : ∃ value, 0 < Removal.jumps value [.jump next statement binary name number last] :=
    ⟨next, by rw [Removal.jumps_jump, if_pos rfl]; exact Nat.one_pos⟩
  refine ⟨others, trees.reverse ++ body, _, by rw [List.map_append, List.map_reverse],
    ⟨lists, moves, ?_, fun balanced value => ?_, ?_, ?_, fun _ => .inr removed⟩, removed⟩
  · intro removal member
    rw [List.mem_singleton.mp member]
    trivial
  · have counted := balanced next
    rw [count_updated, Histogram.count_insert, Removal.jumps_jump]
    by_cases same : next = value
    · rw [if_pos same, if_pos same, ← same]
      omega
    · rw [if_neg same, if_neg same]
      rfl
  · intro value inside
    rw [(listed.map Prod.fst).mem_iff]
    exact List.mem_cons_of_mem _ inside
  · intro _ _ value inside outside
    rw [(listed.map Prod.fst).mem_iff] at inside
    rcases List.mem_cons.mp inside with rfl | there
    · rw [count_updated, Histogram.count_insert, if_pos rfl]
    · exact absurd there outside

/-- The arms of an `if` share a jump. -/
theorem shareJump_merges {arms : Arms} (laid : Laid work entries (tree :: body))
    (found : work.store.arms? tree.root = some arms)
    (shares : work.sharesJump key arms target = true) :
    ∃ settled removals,
      (work.shareJump arms target).2.reverse ++ (tree :: body).map Tree.root = settled.map Tree.root ∧
      Merges key work (work.shareJump arms target).1 entries entries (tree :: body) settled removals ∧
      ∃ value, 0 < Removal.jumps value removals := by
  have held := laid.trees.holds tree List.mem_cons_self
  obtain ⟨id, test, first, second, thenBody, elseBody, rfl, rfl⟩ := held.arms found
  obtain ⟨_, thenHeld, elseHeld⟩ := held.branch
  have thenListed : work.store.statementsOf (some first) = thenBody.map Tree.root := thenHeld.statementsOf
  have elseListed : work.store.statementsOf (some second) = elseBody.map Tree.root := elseHeld.statementsOf
  simp only [sharesJump, Bool.and_eq_true, decide_eq_true_eq, thenListed, elseListed] at shares
  obtain ⟨⟨counted, thenEnds⟩, elseEnds⟩ := shares
  obtain ⟨thenFront, thenAssignment, thenLeave, rfl, _, _⟩ := exists_of_endsWithJump thenEnds
  obtain ⟨elseFront, elseAssignment, elseLeave, rfl, assigns, breaks⟩ := exists_of_endsWithJump elseEnds
  have shared : work.shareJump ⟨test.root, some first, some second⟩ target =
      ({ work with store := ((work.store.setStatements (some first) (thenFront.map Tree.root)).1.setStatements
          (some second) (elseFront.map Tree.root)).1 }.updated (work.table.histogram.decrement target),
        [thenAssignment.root, thenLeave.root]) := by
    simp [shareJump, thenListed, elseListed]
  rw [shared]
  obtain ⟨statement, binary, name, number, last, moves⟩ := Moves.shareJump laid.trees assigns breaks
  have removed : ∃ value, 0 < Removal.jumps value [.jump target statement binary name number last] :=
    ⟨target, by rw [Removal.jumps_jump, if_pos rfl]; exact Nat.one_pos⟩
  refine ⟨thenLeave :: thenAssignment :: Tree.branch id test first second thenFront elseFront :: body,
    _, rfl, ⟨laid.lists, moves, ?_, ?_, List.Subset.refl _,
      fun _ _ inside outside => absurd inside outside, fun _ => .inr removed⟩, removed⟩
  · intro removal member
    rw [List.mem_singleton.mp member]
    trivial
  · intro _ _ value
    rw [count_updated, Histogram.count_decrement, Removal.jumps_jump]
    by_cases same : target = value
    · rw [if_pos same, if_pos same, ← same]
      exact (Nat.sub_add_cancel counted).symm
    · rw [if_neg same, if_neg same]
      rfl

end Jumps

/-! ## Loops -/

section Loops
variable {store later : Store} {key : String} {work : Merging} {entries : List (Int × List Tree)}
  {elsewhere : Int → Nat} {value : Int} {tree : Tree} {statements : List Slot}

theorem of_loopStatements? {test arm : Slot}
    (recovers : loopStatements? store key test arm value = some statements) :
    store.endsWithJump key (store.statementsOf arm) value = true ∧
      statements = (store.statementsOf arm).take ((store.statementsOf arm).length - 2) := by
  unfold loopStatements? at recovers
  simp only at recovers
  split at recovers
  · cases recovers
  · rename_i ends
    split at recovers
    · cases recovers
    · split at recovers
      · exact ⟨by simpa using ends, (Option.some.inj recovers).symm⟩
      · cases recovers

theorem of_recovery? {arms : Arms} {thenTarget elseTarget : Option Int} {mirrored : Bool}
    (recovers : recovery? store key arms thenTarget elseTarget value = some (mirrored, statements)) :
    loopStatements? store key arms.test (if mirrored then arms.elseBlock else arms.thenBlock) value =
      some statements := by
  unfold recovery? at recovers
  simp only at recovers
  split at recovers
  · rename_i here
    cases recovers
    rw [Option.ite_none_right_eq_some] at here
    exact here.2
  · obtain ⟨found, here, same⟩ := Option.map_eq_some_iff.mp recovers
    cases same
    rw [Option.ite_none_right_eq_some] at here
    exact here.2

theorem exists_removed_jump {id first second statement binary name number last : NodeId} :
    ∃ other, 0 < Removal.jumps other [.branch id first second,
      .jump value statement binary name number last] := by
  refine ⟨value, List.countP_pos_iff.mpr ⟨_, List.mem_cons_of_mem _ List.mem_cons_self, ?_⟩⟩
  exact beq_self_eq_true value

/-- The books, once an `if` is removed and a loop is made of its test. -/
theorem loop_merges {first second id loop block : NodeId} {test condition blockTree : Tree}
    {thenBody elseBody body exit : List Tree} {statement binary name number last : NodeId}
    (laid : Laid work entries [Tree.branch id test first second thenBody elseBody])
    (opened : Moves key work.store work.store
      (pile entries [Tree.branch id test first second thenBody elseBody])
      (test :: body ++ (exit ++ entries.flatMap Prod.snd))
      [.branch id first second, .jump value statement binary name number last])
    (made : Moves key work.store later (test :: body ++ (exit ++ entries.flatMap Prod.snd))
      (.node loop (.loop .whileLoop none condition.root none (some block))
        [.nothing, condition, .nothing, blockTree] :: (exit ++ entries.flatMap Prod.snd)) [])
    (tested : condition.root = test.root ∨ ∃ negated, condition.root = some negated ∧
      later.shape? (some negated) = some (.unary false .exclamation test.root))
    (new : work.store.nodes.size ≤ loop) :
    Merges key work
      ({ work with store := later }.updated (work.table.histogram.decrement value)) entries entries
      [Tree.branch id test first second thenBody elseBody]
      (.node loop (.loop .whileLoop none condition.root none (some block))
        [.nothing, condition, .nothing, blockTree] :: exit).reverse
      [.branch id first second, .jump value statement binary name number last] := by
  have whole := opened.trans made
  rw [List.append_nil] at whole
  have moves := whole.congr (.refl _) (((List.reverse_perm (_ :: exit)).symm).append_right
    (entries.flatMap Prod.snd))
  have jumps : ∀ other, Removal.jumps other [.branch id first second,
      .jump value statement binary name number last] = if value = other then 1 else 0 := by
    intro other
    rw [← Removal.jumps_jump value other statement binary name number last]
    rfl
  refine ⟨laid.lists, moves, ?_, fun balanced other => ?_, List.Subset.refl _,
    fun _ _ inside outside => absurd inside outside,
    fun _ => .inr exists_removed_jump⟩
  · intro removal member
    rcases List.mem_cons.mp member with rfl | jump
    · have branchShape := (laid.trees.holds _ List.mem_cons_self).shape?
      have loopShape := (made.after.holds _ List.mem_cons_self).shape?
      refine ⟨test.root, loop, condition.root, some block, branchShape, loopShape, tested, ?_, new⟩
      refine Tree.mem_namesAll.mpr ⟨_, List.mem_append_left _ (List.mem_reverse.mpr List.mem_cons_self),
        List.mem_cons_self⟩
    · rw [List.mem_singleton.mp jump]
      trivial
  · have counted := balanced value
    have once := moves.jumps value
    rw [jumps, if_pos rfl] at once
    rw [count_updated, Histogram.count_decrement, jumps]
    by_cases same : value = other
    · rw [if_pos same, if_pos same, ← same]
      have counts : work.table.histogram.count value = work.count value := rfl
      omega
    · rw [if_neg same, if_neg same]
      rfl

/-- An `if` whose arm leads back to its case becomes a loop. -/
theorem recoverLoop_merges {arms : Arms} {thenTarget elseTarget : Option Int} {mirrored : Bool}
    (laid : Laid work entries [tree]) (found : work.store.arms? tree.root = some arms)
    (recovers : recovery? work.store key arms thenTarget elseTarget value = some (mirrored, statements)) :
    ∃ settled removals,
      (work.recoverLoop arms mirrored statements value).2.reverse = settled.map Tree.root ∧
      Merges key work (work.recoverLoop arms mirrored statements value).1 entries entries [tree] settled
        removals ∧ ∃ other, 0 < Removal.jumps other removals := by
  have held := laid.trees.holds tree List.mem_cons_self
  obtain ⟨id, test, first, second, thenBody, elseBody, rfl, rfl⟩ := held.arms found
  obtain ⟨_, thenHeld, elseHeld⟩ := held.branch
  have thenListed : work.store.statementsOf (some first) = thenBody.map Tree.root := thenHeld.statementsOf
  have elseListed : work.store.statementsOf (some second) = elseBody.map Tree.root := elseHeld.statementsOf
  have jumpFirst : ∀ (body : List Tree) (assignment leave : Tree),
      (body ++ [assignment, leave]).Perm (leave :: assignment :: body) := fun body assignment leave =>
    List.perm_append_comm.trans (List.Perm.swap leave assignment body)
  obtain ⟨ends, same⟩ := of_loopStatements? (of_recovery? recovers)
  cases mirrored with
  | false =>
    simp only [Bool.false_eq_true, if_false, thenListed] at ends same
    obtain ⟨body, assignment, leave, rfl, assigns, breaks⟩ := exists_of_endsWithJump ends
    obtain rfl : statements = body.map Tree.root := by simpa using same
    obtain ⟨_, _, _, _, _, opened⟩ := Moves.openBranch laid.trees
      ((jumpFirst body assignment leave).append_right elseBody) assigns breaks
    have merges := loop_merges laid opened (Moves.makeLoop key opened.after) (.inl rfl)
      (Nat.le_succ _)
    have recovered : work.recoverLoop ⟨test.root, some first, some second⟩ false
        (body.map Tree.root) value =
        ({ work with store := ((work.store.makeBlock (body.map Tree.root)).1.makeWhile test.root
            (some work.store.nodes.size)).1 }.updated (work.table.histogram.decrement value),
          some (work.store.nodes.size + 1) :: elseBody.map Tree.root) := by
      simp [recoverLoop, elseListed, Store.makeBlock, Store.makeWhile]
    rw [recovered]
    refine ⟨_, _, ?_, merges, exists_removed_jump⟩
    rw [List.map_reverse]
    rfl
  | true =>
    simp only [if_true, elseListed] at ends same
    obtain ⟨body, assignment, leave, rfl, assigns, breaks⟩ := exists_of_endsWithJump ends
    obtain rfl : statements = body.map Tree.root := by simpa using same
    obtain ⟨_, _, _, _, _, opened⟩ := Moves.openBranch laid.trees
      (List.perm_append_comm.trans ((jumpFirst body assignment leave).append_right thenBody))
      assigns breaks
    -- the loop goes on while the test does not hold
    have apart : work.store.HoldsAll ([test] ++ (body ++ (thenBody ++ entries.flatMap Prod.snd))) :=
      opened.after
    have negated := Moves.make key (.unary false .exclamation test.root) apart rfl rfl (.refl _)
      fun tidy => ⟨fun child quiet => (tidy id _ held.shape?).quiet child quiet,
        (fun _ body => nomatch body), rfl, .refl _⟩
    have made := negated.trans (Moves.makeLoop key negated.after)
    have negation := ((made.after.holds _ List.mem_cons_self).part
      (List.mem_cons_of_mem _ List.mem_cons_self)).shape?
    have size : work.store.nodes.size ≤
        (work.store.make (.unary false .exclamation test.root)).1.nodes.size + 1 := by
      rw [Store.size_make]
      omega
    have merges := loop_merges laid opened made
      (.inr ⟨work.store.nodes.size, rfl, negation⟩) size
    have recovered : work.recoverLoop ⟨test.root, some first, some second⟩ true
        (body.map Tree.root) value =
        ({ work with store := (((work.store.make (.unary false .exclamation test.root)).1.makeBlock
            (body.map Tree.root)).1.makeWhile (some work.store.nodes.size)
            (some (work.store.make (.unary false .exclamation test.root)).1.nodes.size)).1 }.updated
              (work.table.histogram.decrement value),
          some ((work.store.make (.unary false .exclamation test.root)).1.nodes.size + 1) ::
            thenBody.map Tree.root) := by
      simp [recoverLoop, thenListed, Store.makeBlock, Store.makeWhile]
    rw [recovered]
    refine ⟨_, _, ?_, merges, exists_removed_jump⟩
    rw [List.map_reverse]
    rfl

end Loops

end Merging

end Unflatten
