import Unflatten.Proofs.Dispatch.Stripping
import Unflatten.Proofs.Dispatch.Restoring

/-! # A loop gives way to its case

The loop is opened down to the block of the start case.  What is kept are the head of the loop, the
prelude and the statements of the case; nothing else that was in the loop comes back into the
program, the dispatcher least of all. -/

set_option autoImplicit false

namespace Unflatten

open Store

/-- What some parts of a tree need, the tree needs too, unless the jumps are met in the tree. -/
def Tree.HandsOn (parts : List Tree) (tree : Tree) : Prop :=
  ∀ target ∈ Tree.unmetAll parts, target ≠ .breaks → target ≠ .continues → target ∈ tree.unmet

section HandsOn
variable {parts below : List Tree} {tree : Tree} {id : NodeId} {shape : Shape}

theorem Tree.handsOn_node (noLabel : ∀ label statement, shape ≠ .labeled label statement)
    (within : parts ⊆ below) : Tree.HandsOn parts (.node id shape below) := by
  intro target needed noBreak noContinue
  rw [Tree.unmet, List.mem_append]
  refine .inr (List.mem_filterMap.mpr ⟨target, Tree.unmetAll_subset_of_subset within needed, ?_⟩)
  cases shape
  case labeled label statement => exact absurd rfl (noLabel label statement)
  all_goals cases target <;> first | rfl | exact absurd rfl noBreak | exact absurd rfl noContinue

/-- What is needed of a part is needed of the whole. -/
theorem Tree.HandsOn.trans {part : Tree} (first : Tree.HandsOn parts part)
    (second : Tree.HandsOn [part] tree) : Tree.HandsOn parts tree := by
  intro target needed noBreak noContinue
  refine second target ?_ noBreak noContinue
  rw [Tree.unmetAll_cons, Tree.unmetAll_nil, List.append_nil]
  exact first target needed noBreak noContinue

theorem Tree.HandsOn.append {others : List Tree} (first : Tree.HandsOn parts tree)
    (second : Tree.HandsOn others tree) : Tree.HandsOn (parts ++ others) tree := by
  intro target needed
  rw [Tree.unmetAll_append, List.mem_append] at needed
  exact needed.elim (first target) (second target)

end HandsOn

namespace Collapse

section Opening
variable {store : Store} {key : DispatchKey} {statements slots more : List Slot} {tree : Tree}
  {rest : List Tree} {block : NodeId} {label discriminant clause : Slot} {isDefault : Bool}

/-- A `switch` whose only clause begins with a block. -/
inductive IsDispatcher : (dispatcher discriminant label : Tree) → (trees : List Tree) → Prop
  | only {id clause block : NodeId} {slot labelSlot : Slot} {slots clauseSlots statements : List Slot}
      {isDefault : Bool} {discriminant label : Tree} {trees more : List Tree} :
      IsDispatcher (.node id (.switch slot slots) [discriminant,
        .node clause (.clause isDefault labelSlot clauseSlots)
          (label :: .node block (.block statements) trees :: more)]) discriminant label trees

/-- A loop whose body is a prelude and a dispatcher. -/
inductive IsDispatchLoop (kind : LoopKind) :
    (loop head test step : Tree) → (preludes : List Tree) → (dispatcher : Tree) → Prop
  | loop {id body : NodeId} {initializer condition incrementor inside : Slot} {slots : List Slot}
      {head test step dispatcher : Tree} {preludes : List Tree} :
      IsDispatchLoop kind (.node id (.loop kind initializer condition incrementor inside)
        [head, test, step, .node body (.block slots) (preludes ++ [dispatcher])])
        head test step preludes dispatcher

/-- A loop needs what its head, its prelude and its dispatcher need. -/
theorem IsDispatchLoop.handsOn {kind : LoopKind} {loop head test step dispatcher : Tree}
    {preludes trees : List Tree} (isLoop : IsDispatchLoop kind loop head test step preludes dispatcher)
    (handsOn : Tree.HandsOn trees dispatcher) : Tree.HandsOn (trees ++ (preludes ++ [head])) loop := by
  cases isLoop with
  | @loop id body initializer condition incrementor inside slots =>
  have inLoop : ∀ {parts : List Tree},
      parts ⊆ [head, test, step, .node body (.block slots) (preludes ++ [dispatcher])] →
      Tree.HandsOn parts (.node id (.loop kind initializer condition incrementor inside)
        [head, test, step, .node body (.block slots) (preludes ++ [dispatcher])]) :=
    fun within => Tree.handsOn_node (fun _ _ same => by cases same) within
  have inBody : ∀ {parts : List Tree}, parts ⊆ preludes ++ [dispatcher] →
      Tree.HandsOn parts (.node body (.block slots) (preludes ++ [dispatcher])) :=
    fun within => Tree.handsOn_node (fun _ _ same => by cases same) within
  refine ((handsOn.trans (inBody (by simp))).trans (inLoop (by simp))).append ?_
  exact ((inBody (by simp)).trans (inLoop (by simp))).append (inLoop (by simp))

/-- The loop of a key with one case that leaves it. -/
structure RunsOnce (store : Store) (key : DispatchKey) (statements breaks : List Slot) : Prop where
  dispatcher : ∃ discriminant clause isDefault label block more,
    store.shape? (key.dispatcher? store) = some (.switch discriminant [clause]) ∧
    store.shape? clause = some (.clause isDefault label (some block :: more)) ∧
    store.shape? (some block) = some (.block statements) ∧
    (store.number? label).any (· == Float.ofInt key.start) = true
  entered : ∀ kind initializer condition incrementor body,
    store.shape? (some key.loop) = some (.loop kind initializer condition incrementor body) →
    evaluateCondition store (Environment.bind [] key.name (Value.ofInt key.start)) condition = .ok true
  exits : exitBreaks? store key store.depthBound statements = some breaks
  only : ∀ jump ∈ store.escapingJumps statements true, some jump ∈ breaks
  position : (store.position? (some key.loop)).isSome = true

theorem runsOnce_of_onlyRun? (run : onlyRun? store key = some statements) :
    ∃ breaks, RunsOnce store key statements breaks := by
  unfold onlyRun? at run
  simp only at run
  split at run
  swap
  · cases run
  rename_i block breaks kind initializer condition incrementor body start exits shaped
  simp only [Option.ite_none_right_eq_some, Option.some.injEq, Bool.and_eq_true, List.all_eq_true,
    List.contains_iff_mem] at run
  obtain ⟨⟨⟨entered, only⟩, position⟩, same⟩ := run
  rw [same] at exits only
  rw [start] at same
  have entered : evaluateCondition store (Environment.bind [] key.name (Value.ofInt key.start))
      condition = .ok true := by
    split at entered
    · rename_i holds decided
      rw [decided, entered]
    · cases entered
  refine ⟨breaks, ?_, fun _ _ _ _ _ found => ?_, exits, only, position⟩
  swap
  · rw [shaped] at found
    cases found
    exact entered
  -- the dispatcher has one clause, which begins with a block
  unfold startBlock? at start
  split at start
  swap
  · cases start
  rename_i discriminant clause switched
  split at start
  swap
  · cases start
  rename_i isDefault label first more claused
  simp only at start
  split at start
  swap
  · cases start
  rename_i both
  cases start
  obtain ⟨isStart, isBlock⟩ := Bool.and_eq_true_iff.mp both
  obtain ⟨shape, found, passes⟩ := (Option.any_eq_true _ _).mp isBlock
  cases shape
  case block inner =>
    refine ⟨discriminant, clause, isDefault, label, block, more, switched, claused, ?_, isStart⟩
    rw [found, ← same, statementsOf, statements?, found]
    rfl
  all_goals cases passes

/-- The dispatcher is opened down to the statements of its case. -/
theorem opens_case (all : store.HoldsAll (tree :: rest))
    (switched : store.shape? tree.root = some (.switch discriminant [clause]))
    (claused : store.shape? clause = some (.clause isDefault label (some block :: more)))
    (blocked : store.shape? (some block) = some (.block statements)) :
    ∃ trees, Rebuilds store store (tree :: rest) (trees ++ rest) ∧ trees.map Tree.root = statements ∧
      Tree.HandsOn trees tree ∧ (∀ id, tree.root = some id → id ∉ Tree.namesAll (trees ++ rest)) ∧
      ∃ selector labelTree, IsDispatcher tree selector labelTree trees ∧
        selector.root = discriminant ∧ labelTree.root = label := by
  obtain ⟨id, below, rfl, roots⟩ := (all.holds tree List.mem_cons_self).exists_node switched
  obtain ⟨selector, clauseTree, rfl, selects, rfl⟩ := Tree.two_of_roots roots
  have opened := Rebuilds.opening all rfl
  have inner := Rebuilds.dropping opened.all
  obtain ⟨name, parts, rfl, clauseRoots⟩ :=
    (inner.all.holds clauseTree List.mem_cons_self).exists_node claused
  obtain ⟨labelTree, _, rfl, labels, others⟩ := List.map_eq_cons_iff.mp clauseRoots.symm
  obtain ⟨blockTree, moreTrees, rfl, blockRoot, -⟩ := List.map_eq_cons_iff.mp others
  have clauseOpened := inner.trans (.opening inner.all rfl)
  have moved : (labelTree :: blockTree :: moreTrees ++ rest).Perm
      (labelTree :: moreTrees ++ (blockTree :: rest)) := by
    rw [List.cons_append, List.cons_append, List.cons_append]
    exact List.perm_middle.symm.cons _
  have kept := (clauseOpened.perm moved).trans (.keeping (clauseOpened.all.perm moved))
  obtain ⟨blockName, trees, rfl, blockRoots⟩ :=
    (kept.all.holds blockTree List.mem_cons_self).exists_node (blockRoot ▸ blocked)
  have whole := kept.trans (.opening kept.all rfl)
  refine ⟨trees, opened.trans whole, blockRoots.symm, ?_, fun name same inside => ?_,
    selector, labelTree, .only, selects, labels⟩
  swap
  · cases same
    exact all.below.2 (whole.mem_of_lt inside (whole.all.lt_size inside))
  -- neither the block nor the clause nor the `switch` is a labeled statement
  have inBlock : Tree.HandsOn trees (.node blockName (.block statements) trees) :=
    Tree.handsOn_node (fun _ _ same => by cases same) (List.Subset.refl _)
  have inClause : Tree.HandsOn [.node blockName (.block statements) trees]
      (.node name (.clause isDefault label (some block :: more))
        (labelTree :: .node blockName (.block statements) trees :: moreTrees)) :=
    Tree.handsOn_node (fun _ _ same => by cases same) (by simp)
  exact (inBlock.trans inClause).trans
    (Tree.handsOn_node (fun _ _ same => by cases same) (by simp))

/-- The body of the loop of a key is its prelude and the dispatcher. -/
theorem body_of_framed
    (framed : ∀ prelude, key.prelude = none ∨ key.prelude = some prelude →
      store.IsFramed key.loop prelude)
    (place : key.place = key.prelude.toList.length)
    (present : (key.dispatcher? store).isSome = true) :
    ∃ body, store.HasBody key.loop body ∧
      store.shape? (some body) = some (.block (key.prelude.toList.map some ++ [key.dispatcher? store])) ∧
      ∀ prelude, key.prelude = some prelude → store.kind? (some prelude) = some .variableStatement := by
  have looked : ∀ {body : NodeId} {slots : List Slot}, store.HasBody key.loop body →
      store.shape? (some body) = some (.block slots) →
      key.dispatcher? store = (slots[key.prelude.toList.length]?).join := by
    rintro body slots ⟨_, _, _, _, shaped⟩ found
    rw [DispatchKey.dispatcher?, loopBody, shaped, place]
    simp only [statements?, found]
    rfl
  cases given : key.prelude with
  | none =>
    rw [given] at looked
    -- a list cannot begin with two different preludes, so it has one statement only
    obtain ⟨body, hasBody, slots, found, -, short⟩ := framed 0 (.inl given)
    obtain ⟨other, hasOther, slots', found', -, short'⟩ := framed 1 (.inl given)
    cases hasBody.unique hasOther
    rw [found] at found'
    cases found'
    have here := looked hasBody found
    have single : slots = [key.dispatcher? store] := by
      rcases slots with _ | ⟨only, _ | ⟨next, others⟩⟩
      · rw [here] at present
        cases present
      · rw [here]
        rfl
      · rcases short with few | ⟨_, first, -⟩
        · simp at few
        · rcases short' with few | ⟨_, second, -⟩
          · simp at few
          · rw [first] at second
            cases second
    exact ⟨body, hasBody, single ▸ found, fun _ impossible => by cases impossible⟩
  | some prelude =>
    rw [given] at looked
    obtain ⟨body, hasBody, slots, found, -, short⟩ := framed prelude (.inr given)
    have here := looked hasBody found
    rcases short with few | ⟨dispatcher, rfl, kind⟩
    · rw [here, Option.toList_some, List.length_singleton, List.getElem?_eq_none few] at present
      cases present
    · refine ⟨body, hasBody, ?_, fun other same => ?_⟩
      · rw [found, here]
        rfl
      · cases same
        exact kind

/-- A loop that has been opened: what is kept of it, and that its `switch` is not. -/
structure Opened (store : Store) (key : DispatchKey) (statements : List Slot) (below : List Tree)
    (loop head : Tree) (preludes trees : List Tree) : Prop where
  shape : ∃ kind condition incrementor body, loop =
    .node key.loop (.loop kind head.root condition incrementor body) below
  form : ∃ kind test step dispatcher selector label,
    IsDispatchLoop kind loop head test step preludes dispatcher ∧
      IsDispatcher dispatcher selector label trees ∧
      store.discriminant? (key.dispatcher? store) = some selector.root ∧
      (store.number? label.root).any (· == Float.ofInt key.start) = true
  statements : trees.map Tree.root = statements
  prelude : preludes.map Tree.root = key.prelude.toList.map some
  quiet : ∀ tree ∈ preludes, store.IsQuietAt tree.root
  opening : Rebuilds store store below (trees ++ (preludes ++ [head]))
  spent : store.IsSpent (Tree.namesAll (trees ++ (preludes ++ [head]))) key.loop
  handsOn : Tree.HandsOn (trees ++ (preludes ++ [head])) loop

/-- The loop is opened down to the statements of its case. -/
theorem opens_loop {breaks : List Slot} (holds : store.Holds tree) (nodup : tree.names.Nodup)
    (rooted : tree.root = some key.loop)
    (framed : ∀ prelude, key.prelude = none ∨ key.prelude = some prelude →
      store.IsFramed key.loop prelude)
    (place : key.place = key.prelude.toList.length) (runs : RunsOnce store key statements breaks) :
    ∃ below head preludes trees, Opened store key statements below tree head preludes trees := by
  obtain ⟨discriminant, clause, isDefault, label, block, more, switched, claused, blocked, isStart⟩ :=
    runs.dispatcher
  have present : (key.dispatcher? store).isSome = true := by
    cases missing : key.dispatcher? store with
    | none =>
      rw [missing] at switched
      cases switched
    | some _ => rfl
  obtain ⟨body, ⟨kind, initializer, condition, incrementor, shaped⟩, bodied, declares⟩ :=
    body_of_framed framed place present
  obtain ⟨below, rfl, roots⟩ := holds.eq_node rooted shaped
  obtain ⟨head, _, rfl, rfl, rest⟩ := List.map_eq_cons_iff.mp roots.symm
  obtain ⟨test, step, bodyTree, rfl, -, -, bodyRoot⟩ := Tree.three_of_roots rest.symm
  have parts : store.HoldsAll [head, test, step, bodyTree] := holds.holdsAll_below nodup
  -- the test and the step go, and then the body is opened
  have moved : [head, test, step, bodyTree].Perm ([test, step] ++ [bodyTree, head]) :=
    @List.perm_append_comm _ [head] [test, step, bodyTree]
  have kept : Rebuilds store store [head, test, step, bodyTree] [bodyTree, head] :=
    (Rebuilds.keeping (parts.perm moved)).permBefore moved.symm
  obtain ⟨inBody, rfl, bodyRoots⟩ :=
    (kept.all.holds bodyTree List.mem_cons_self).eq_node bodyRoot bodied
  obtain ⟨preludes, last, rfl, preludeRoots, lastRoot⟩ := List.map_eq_append_iff.mp bodyRoots.symm
  obtain ⟨dispatcher, rfl, dispatches⟩ := List.map_eq_singleton_iff.mp lastRoot
  have opened := Rebuilds.opening kept.all rfl
  have moved : (preludes ++ [dispatcher] ++ [head]).Perm (dispatcher :: (preludes ++ [head])) := by
    rw [List.append_assoc]
    exact List.perm_middle
  obtain ⟨trees, inner, treeRoots, handsOn, dispatcherGone, selector, labelTree, dispatched,
      selectorRoot, labelRoot⟩ :=
    opens_case (opened.all.perm moved) (dispatches.symm ▸ switched) claused blocked
  have whole := (opened.perm moved).trans inner
  have bodyGone : body ∉ Tree.namesAll (trees ++ (preludes ++ [head])) := fun inside =>
    kept.all.below.2 ((Tree.namesAll_perm moved).mem_iff.mpr
      (inner.mem_of_lt inside (inner.all.lt_size inside)))
  have steady : ∀ tree ∈ preludes, ∃ prelude, tree.root = some prelude ∧
      store.kind? (some prelude) = some .variableStatement := by
    intro tree member
    have listed : tree.root ∈ key.prelude.toList.map some := preludeRoots ▸ List.mem_map_of_mem member
    obtain ⟨prelude, given, same⟩ := List.mem_map.mp listed
    exact ⟨prelude, same.symm, declares prelude (Option.mem_toList.mp given)⟩
  have discriminates : store.discriminant? (key.dispatcher? store) = some selector.root := by
    rw [discriminant?, switched, selectorRoot]
  have isLoop : IsDispatchLoop kind (.node key.loop (.loop kind head.root condition incrementor (some body))
      [head, test, step, .node body (.block (key.prelude.toList.map some ++ [key.dispatcher? store]))
        (preludes ++ [dispatcher])]) head test step preludes dispatcher := .loop
  refine ⟨_, head, preludes, trees, ⟨kind, condition, incrementor, some body, rfl⟩, ⟨kind, test, step,
    dispatcher, selector, labelTree, isLoop, dispatched, discriminates, labelRoot.symm ▸ isStart⟩,
    treeRoots, preludeRoots, fun tree member => ?_, kept.trans whole, fun other hasBody => ?_, ?_⟩
  · obtain ⟨prelude, prelude_root, variableStatement⟩ := steady tree member
    obtain ⟨shape, found, same⟩ := Option.map_eq_some_iff.mp variableStatement
    rw [prelude_root]
    exact isQuietAt_of_shape? found (by rw [Shape.isQuiet, same]; rfl)
  · obtain rfl := hasBody.unique ⟨kind, head.root, condition, incrementor, shaped⟩
    refine ⟨lt_size_of_shape? bodied, bodyGone, fun statement listed => ?_⟩
    rw [statementsOf, statements?, bodied] at listed
    rcases List.mem_append.mp listed with before | last
    · -- the prelude is no `switch`
      obtain ⟨prelude, given, same⟩ := List.mem_map.mp before
      cases same
      have variableStatement := declares statement (Option.mem_toList.mp given)
      obtain ⟨shape, found, -⟩ := Option.map_eq_some_iff.mp variableStatement
      refine ⟨lt_size_of_shape? found, fun selects => ?_⟩
      rw [isSwitch_iff, variableStatement] at selects
      cases selects
    · have same := List.mem_singleton.mp last
      rw [← same] at switched
      exact ⟨lt_size_of_shape? switched,
        fun _ => dispatcherGone statement (dispatches.trans same.symm)⟩
  · exact isLoop.handsOn handsOn

end Opening

section Head
variable {store : Store} {loop : NodeId} {head : Tree} {rest : List Tree} {kind : LoopKind}
  {condition incrementor body : Slot}

/-- A list of declarations in the head of a loop becomes a statement. -/
theorem makeVariables_rebuilds {id : NodeId} {declarations : List Slot} {below : List Tree}
    (all : store.HoldsAll (.node id (.declarationList false declarations) below :: rest))
    (links : store.HasTrueLinks) (flags : Flags) :
    Rebuilds store (store.makeVariables declarations flags).1
      (.node id (.declarationList false declarations) below :: rest)
      (.node store.nodes.size (.declarationList true declarations) below :: rest) := by
  obtain ⟨found, roots⟩ : store.shape? (some id) = some (.declarationList false declarations) ∧
      declarations = below.map Tree.root := by
    cases all.holds _ List.mem_cons_self with
    | node found _ roots => exact ⟨found, roots⟩
  have bound := lt_size_of_shape? found
  have answers : store.IsTidy → store.Admits (.declarationList true declarations) := fun tidy =>
    ⟨(tidy id _ found).quiet, fun _ impossible => absurd impossible List.not_mem_nil, rfl, .refl _⟩
  rw [makeVariables]
  refine .leaving all (.adding all.below.1 roots (.refl _) answers) ?_ ?_
  · rintro - other ⟨_, _, _, _, shaped⟩
    rw [keeps_add store _ _ _ _ id _ found] at shaped
    cases shaped
  · -- the declarations are linked to the statement now
    intro _ declaration old linked
    rw [parent_add _ _ _ _ _ _ old] at linked
    split at linked
    · cases linked
      exact absurd bound (Nat.lt_irrefl _)
    · rename_i unlisted
      obtain ⟨shape, shaped, listed⟩ := links declaration id linked
      rw [found] at shaped
      cases shaped
      exact absurd listed unlisted

/-- The head of a loop as the statements before its case. -/
inductive HeadBecomes : Tree → List Tree → Prop
  | nothing : HeadBecomes .nothing []
  | declarations {id new : NodeId} {declarations : List Slot} {below : List Tree} :
      HeadBecomes (.node id (.declarationList false declarations) below)
        [.node new (.declarationList true declarations) below]
  | expression {id new : NodeId} {shape : Shape} {below : List Tree}
      (noList : ∀ declarations, shape ≠ .declarationList false declarations) :
      HeadBecomes (.node id shape below)
        [.node new (.expressionStatement (some id)) [.node id shape below]]

/-- The head of a loop comes before its case as a statement. -/
theorem headStatement_rebuilds (all : store.HoldsAll (head :: rest)) (links : store.HasTrueLinks)
    (tidy : store.IsTidy)
    (shaped : store.shape? (some loop) = some (.loop kind head.root condition incrementor body)) :
    ∃ later slot heads, headStatement store loop = (later, slot) ∧
      heads.map Tree.root = slot.toList.map some ∧ Rebuilds store later (head :: rest) (heads ++ rest) ∧
      Tree.unmetAll heads ⊆ head.unmet ∧ HeadBecomes head heads := by
  have quiet : store.IsQuietAt head.root := tidy.quietAt shaped (List.mem_singleton_self _)
  cases head with
  | nothing =>
    refine ⟨store, none, [], ?_, rfl, .dropping all, List.nil_subset _, .nothing⟩
    rw [headStatement, shaped]
    rfl
  | node id shape below =>
    have found := (all.holds _ List.mem_cons_self).shape?_node
    by_cases listed : ∃ declarations, shape = .declarationList false declarations
    · obtain ⟨declarations, rfl⟩ := listed
      refine ⟨_, some store.nodes.size, [.node store.nodes.size (.declarationList true declarations) below],
        ?_, rfl, makeVariables_rebuilds all links (store.flags (some id)), ?_, .declarations⟩
      · rw [headStatement, shaped]
        simp only [Tree.root_node, found]
        rfl
      · rw [Tree.unmetAll_cons, Tree.unmetAll_nil, List.append_nil, Tree.unmet_of_isClear rfl,
          Tree.unmet_of_isClear rfl]
        exact List.Subset.refl _
    · obtain ⟨later, made, makes, work, needs, -, -⟩ :=
        (Rebuilds.refl all).andNode (.expressionStatement (some id)) [.node id shape below] rest (.refl _)
          rfl rfl (List.forall_mem_singleton.mpr quiet) rfl
      refine ⟨later, some made, [.node made (.expressionStatement (some id)) [.node id shape below]],
        ?_, rfl, work, ?_, .expression fun declarations same => listed ⟨declarations, same⟩⟩
      · rw [headStatement, shaped]
        simp only [Tree.root_node, found]
        split
        · rename_i none
          cases none
        · rename_i declarations same
          cases same
          exact absurd ⟨declarations, rfl⟩ listed
        · rw [makeExpressionStatement, makes]
      · rw [Tree.unmetAll_cons, Tree.unmetAll_nil, List.append_nil, needs, Tree.unmetAll_cons,
          Tree.unmetAll_nil, List.append_nil]
        exact List.Subset.refl _

end Head

section Unrolling
variable {store : Store} {root : NodeId} {key : DispatchKey} {tree : Tree} {statements : List Slot}

/-- Makes the statements that take the place of a loop. -/
def replacement (store : Store) (key : DispatchKey) (statements : List Slot) : Store × List Slot :=
  let (store, stripped) := stripExits store.depthBound store statements
  let (store, head) := headStatement store key.loop
  (store, head.toList.map some ++ key.prelude.toList.map some ++ stripped)

/-- Puts the statements of its case in the place of a loop. -/
def unroll (store : Store) (key : DispatchKey) (statements : List Slot) : Store × Bool :=
  let (store, statements) := replacement store key statements
  store.replaceStatement (some key.loop) statements

/-- What is left of a loop: its head as a statement, the prelude, and the statements of the case
without the breaks. -/
structure Unrolls (store : Store) (key : DispatchKey) (loop head test step selector label : Tree)
    (heads preludes trees stripped : List Tree) : Prop where
  form : ∃ kind dispatcher, IsDispatchLoop kind loop head test step preludes dispatcher ∧
    IsDispatcher dispatcher selector label trees
  selects : store.discriminant? (key.dispatcher? store) = some selector.root
  starts : (store.number? label.root).any (· == Float.ofInt key.start) = true
  prelude : preludes.map Tree.root = key.prelude.toList.map some
  head : HeadBecomes head heads
  strips : StripsTo (LeavesLoop store key) trees stripped
  needs : Tree.NeedsNoLoop stripped

/-- The breaks of a case are all that leaves it. -/
theorem RunsOnce.onlyLeave {breaks : List Slot} {trees : List Tree}
    (runs : RunsOnce store key statements breaks) (all : store.HoldsAll trees)
    (roots : trees.map Tree.root = statements) : OnlyLeave breaks trees := by
  intro tree member jump escapes
  refine runs.only jump ?_
  have holds := all.holds tree member
  have deep : tree.height ≤ store.depthBound := Nat.le_succ_of_le
    (holds.height_le (Tree.nodup_of_mem_namesAll all.nodup member))
  obtain ⟨id, rooted⟩ : ∃ id, tree.root = some id := by
    cases escapes <;> exact ⟨_, rfl⟩
  rw [escapingJumps, List.mem_flatMap]
  refine ⟨id, List.mem_filterMap.mpr ⟨some id, ?_, rfl⟩, escapes.mem_jumpsBelow holds rooted deep⟩
  rw [List.mem_reverse, ← roots, ← rooted]
  exact List.mem_map_of_mem member

/-- Expressions and declarations need no loop. -/
theorem needsNoLoop_of_quiet {trees : List Tree} (held : ∀ tree ∈ trees, store.Holds tree)
    (tidy : store.IsTidy) (quiet : ∀ tree ∈ trees, store.IsQuietAt tree.root) :
    Tree.NeedsNoLoop trees := by
  induction trees with
  | nil => exact ⟨List.not_mem_nil, List.not_mem_nil⟩
  | cons tree rest ih =>
    have first := Tree.needsNoLoop_of_isQuietAt (held tree List.mem_cons_self) tidy
      (quiet tree List.mem_cons_self)
    exact first.append (ih (fun other member => held other (List.mem_cons_of_mem _ member))
      fun other member => quiet other (List.mem_cons_of_mem _ member))

/-- What is kept of a loop needs nothing but what the loop needs. -/
theorem Opened.unmetAll_subset {below preludes trees heads stripped : List Tree} {loop head : Tree}
    (opened : Opened store key statements below loop head preludes trees) (tidy : store.IsTidy)
    (quietHead : store.IsQuietAt head.root) (headNeeds : Tree.unmetAll heads ⊆ head.unmet)
    (fewer : Tree.unmetAll stripped ⊆ Tree.unmetAll trees) (needs : Tree.NeedsNoLoop stripped) :
    Tree.unmetAll (heads ++ preludes ++ stripped) ⊆ loop.unmet := by
  have held : ∀ tree ∈ preludes ++ [head], store.Holds tree :=
    (holdsAll_append.mp opened.opening.all).2.1.holds
  have quiet : ∀ tree ∈ preludes ++ [head], store.IsQuietAt tree.root := by
    intro tree member
    rcases List.mem_append.mp member with ofPrelude | last
    · exact opened.quiet tree ofPrelude
    · rw [List.mem_singleton.mp last]
      exact quietHead
  have calm : Tree.NeedsNoLoop (stripped ++ (preludes ++ [head])) :=
    needs.append (needsNoLoop_of_quiet held tidy quiet)
  intro target needed
  have kept : target ∈ Tree.unmetAll (stripped ++ (preludes ++ [head])) := by
    simp only [Tree.unmetAll_append, List.mem_append, Tree.unmetAll_cons, Tree.unmetAll_nil,
      List.append_nil] at needed ⊢
    rcases needed with (ofHead | ofPrelude) | ofCase
    · exact .inr (.inr (headNeeds ofHead))
    · exact .inr (.inl ofPrelude)
    · exact .inl ofCase
  refine opened.handsOn target ?_ (fun same => calm.1 (same ▸ kept)) fun same => calm.2 (same ▸ kept)
  rw [Tree.unmetAll_append, List.mem_append] at kept ⊢
  exact kept.imp_left (@fewer target)

/-- What is kept of an opened loop is made ready to stand in its place. -/
theorem Opened.unrolls {breaks : List Slot} {below preludes trees : List Tree} {loop head : Tree}
    (opened : Opened store key statements below loop head preludes trees)
    (holds : store.Holds loop) (nodup : loop.names.Nodup)
    (runs : RunsOnce store key statements breaks) (links : store.HasTrueLinks)
    (tidy : store.IsTidy) :
    ∃ middle slot heads stripped,
      (headStatement (stripExits store.depthBound store statements).1 key.loop = (middle, slot) ∧
        heads.map Tree.root = slot.toList.map some ∧
        (stripExits store.depthBound store statements).2 = stripped.map Tree.root) ∧
      Rebuilds store middle [loop] (heads ++ preludes ++ stripped) ∧
      middle.parent (some key.loop) = store.parent (some key.loop) ∧
      Tree.unmetAll (heads ++ preludes ++ stripped) ⊆ loop.unmet ∧
      ∃ test step selector label,
        Unrolls store key loop head test step selector label heads preludes trees stripped := by
  obtain ⟨kind, condition, incrementor, body, rfl⟩ := opened.shape
  have shaped : store.shape? (some key.loop) =
      some (.loop kind head.root condition incrementor body) := holds.shape?_node
  have bound := lt_size_of_shape? shaped
  have outside : key.loop ∉ Tree.namesAll (trees ++ (preludes ++ [head])) := fun inside =>
    (List.nodup_cons.mp nodup).1 (opened.opening.mem_of_lt inside bound)
  have pieces := opened.opening.all
  have treesAll := (holdsAll_append.mp pieces).1
  -- the breaks are stripped off
  have ends := ends_of_exitBreaks? treesAll.holds (opened.statements ▸ runs.exits)
  obtain ⟨stripStore, stripped, strips, strip, fewer, needs, left⟩ :=
    ends.strips treesAll (runs.onlyLeave treesAll opened.statements)
  rw [opened.statements] at strips
  have moved : (stripped ++ (preludes ++ [head])).Perm (head :: (preludes ++ stripped)) :=
    List.perm_append_comm.trans
      (((List.perm_append_singleton head preludes).append_right stripped))
  have stripBeside := (strip.beside pieces).perm moved
  have shapedMiddle : stripStore.shape? (some key.loop) =
      some (.loop kind head.root condition incrementor body) := by
    rw [stripBeside.touches.shape key.loop bound outside, shaped]
  -- the head becomes a statement
  obtain ⟨middle, slot, heads, headed, headRoots, headWork, headNeeds, becomes⟩ :=
    headStatement_rebuilds stripBeside.all (stripBeside.links links) (stripBeside.tidy tidy) shapedMiddle
  have work := stripBeside.trans headWork
  have still : middle.shape? (some key.loop) =
      some (.loop kind head.root condition incrementor body) := by
    rw [work.touches.shape key.loop bound outside, shaped]
  have whole : Rebuilds store middle (below ++ []) (heads ++ (preludes ++ stripped)) := by
    rw [List.append_nil]
    exact opened.opening.trans work
  have leaving : Rebuilds store middle [.node key.loop
      (.loop kind head.root condition incrementor body) below] (heads ++ (preludes ++ stripped)) := by
    refine .leaving (holds.alone nodup) whole (fun _ => ?_) fun _ _ _ _ isStatement declarations found => ?_
    · exact opened.spent.carry work.kinds work.touches.size bound outside
        (fun id old gone => work.touches.shape id old gone) work.names
    · rw [still] at found
      cases found
  rw [← List.append_assoc] at leaving
  obtain ⟨formed, test, step, dispatcher, selector, label, isLoop, dispatched, selects, starts⟩ :=
    opened.form
  refine ⟨middle, slot, heads, stripped, ⟨?_, headRoots, by rw [strips]⟩, leaving,
    work.touches.parent key.loop bound outside, ?_, test, step, selector, label,
    ⟨formed, dispatcher, isLoop, dispatched⟩, selects, starts, opened.prelude, becomes, left, needs⟩
  · rw [strips]
    exact headed
  · exact opened.unmetAll_subset tidy (tidy.quietAt shaped (List.mem_singleton_self _)) headNeeds
      fewer needs

/-- A loop that runs exactly once gives way to its case. -/
theorem unroll_remade (stands : store.Stands root tree) (inside : key.loop ∈ tree.names)
    (framed : ∀ prelude, key.prelude = none ∨ key.prelude = some prelude →
      store.IsFramed key.loop prelude)
    (place : key.place = key.prelude.toList.length) (run : onlyRun? store key = some statements) :
    ∃ later remade, unroll store key statements = (later, true) ∧
      Remakes store later tree remade [] ∧
      (∀ prelude, key.prelude = some prelude → prelude ∈ remade.names) ∧
      ∃ loop head test step selector label heads preludes trees stripped,
        (Tree.Within loop tree ∧ loop.root = some key.loop) ∧
        Unrolls store key loop head test step selector label heads preludes trees stripped ∧
        (heads ++ preludes ++ stripped).map Tree.root = (replacement store key statements).2 ∧
        later.HoldsAll (heads ++ preludes ++ stripped) := by
  obtain ⟨breaks, runs⟩ := runsOnce_of_onlyRun? run
  obtain ⟨container, shape, lead, front, part, back, linked, rooted, within, leading, listed⟩ :=
    stands.listed inside runs.position
  have holds := stands.holds.within within
  have nodup := within.nodup stands.nodup
  have deeper : Tree.Within part (.node container shape (lead ++ (front ++ part :: back))) :=
    .deeper (by simp) .whole
  obtain ⟨below, head, preludes, trees, opened⟩ := opens_loop (holds.within deeper)
    (deeper.nodup nodup) rooted framed place runs
  obtain ⟨middle, slot, heads, stripped, ⟨headed, headRoots, strips⟩, work, link, needs, test, step,
      selector, label, unrolls⟩ :=
    opened.unrolls (holds.within deeper) (deeper.nodup nodup) runs stands.links stands.tidy
  obtain ⟨kind, condition, incrementor, body, rfl⟩ := opened.shape
  have loud : store.satisfies (some key.loop) Shape.isSteady = false := by
    cases holds.within deeper with
    | node found =>
      rw [satisfies, found]
      rfl
  have notFramed : ∀ prelude, ¬ store.IsFramedBody container prelude := by
    rintro prelude ⟨slots, block, steady, -⟩
    cases holds with
    | node found =>
      rw [found] at block
      cases block
      cases listed
      have passes := steady (some key.loop) 
        (List.mem_map.mpr ⟨_, List.mem_append_right _ List.mem_cons_self, rfl⟩)
      rw [loud] at passes
      cases passes
  rw [← List.append_nil (heads ++ preludes ++ stripped)] at work
  obtain ⟨later, changed, replaced, -, remakes⟩ := Remakes.replacingStatement holds nodup
    leading listed rooted (link.trans linked) work
    (fun _ prelude _ _ framed => (notFramed prelude framed).elim) (.inr needs)
  obtain ⟨remade, whole, -, comes⟩ := remakes.within within stands.holds stands.nodup
  have replaces : replacement store key statements =
      (middle, (heads ++ preludes ++ stripped).map Tree.root) := by
    rw [List.map_append, List.map_append, headRoots, opened.prelude, ← strips, replacement]
    simp only [headed]
  have all : later.HoldsAll (heads ++ preludes ++ stripped) := by
    have below := (remakes.rebuilds.all.holds _ List.mem_cons_self).holdsAll_below
      (Tree.nodup_of_mem_namesAll remakes.rebuilds.all.nodup List.mem_cons_self)
    have parts := (holdsAll_append.mp below).2.1
    exact (holdsAll_append.mp (holdsAll_append.mp parts).1).2.1
  refine ⟨later, remade, ?_, whole, fun prelude given => comes ?_, _, head, test, step, selector, label,
    heads, preludes, trees, stripped, ⟨deeper.trans within, rooted⟩, unrolls, ?_, all⟩
  · rw [unroll, replaces]
    exact replaced
  · have among : some prelude ∈ preludes.map Tree.root := by
      rw [opened.prelude, given]
      exact List.mem_singleton_self _
    obtain ⟨preludeTree, member, same⟩ := List.mem_map.mp among
    refine List.mem_cons_of_mem _ (Tree.mem_namesAll.mpr ⟨preludeTree, ?_, Tree.mem_names_root same⟩)
    simp [member]
  · rw [replaces]

end Unrolling

end Collapse

end Unflatten
