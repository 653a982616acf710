import Unflatten.Proofs.Canonical.Blocks
import Unflatten.Proofs.Dispatch.ChainSwitch
import Unflatten.Proofs.Dispatch.Refusals

/-! # Flattened chains leave programs standing

A plan takes a chain apart: what stands below its links and is no link is a branch of the plan, and
no two branches overlap.  The `switch` is made around the branches, and meets each `break` in
them. -/

set_option autoImplicit false

namespace Unflatten

open Store

/-- A `break` is made. -/
theorem Store.Rebuilds.andBreak {store middle : Store} {trees built : List Tree}
    (work : Rebuilds store middle trees built) :
    Rebuilds store middle.makeBreak.1 trees (Expansion.plainBreak middle.nodes.size :: built) :=
  @Rebuilds.andAdd store middle trees [.nothing] built (.jump .breaks none) _ _ _ work.addNothing rfl
    (.refl _) (List.forall_mem_nil _) (List.forall_mem_nil _) rfl

namespace Chain

variable {store middle later : Store} {name : String} {trees kept rest : List Tree} {tree : Tree}
  {plan after : Plan} {branch label : Slot} {link : NodeId} {values : List Int}

/-- The branches of a plan are the roots of some trees. -/
def Gathers (plan : Plan) (kept : List Tree) : Prop :=
  kept.map Tree.root = plan.cases.toList.map Prod.snd ++ plan.default?.toList

/-- The statements of a branch as trees. -/
theorem opensBranch (all : store.HoldsAll (tree :: rest)) :
    ∃ parts, Rebuilds store store (tree :: rest) (parts ++ rest) ∧
      parts.map Tree.root = store.blockStatements tree.root ∧ Tree.unmetAll parts = tree.unmet := by
  have holds := all.holds tree List.mem_cons_self
  have whole : tree.root.isSome = true → store.blockStatements tree.root = [tree.root] →
      ∃ parts, Rebuilds store store (tree :: rest) (parts ++ rest) ∧
        parts.map Tree.root = store.blockStatements tree.root ∧
        Tree.unmetAll parts = tree.unmet := by
    intro present single
    exact ⟨[tree], .refl all, single.symm, by rw [Tree.unmetAll_cons, Tree.unmetAll_nil, List.append_nil]⟩
  cases tree with
  | nothing => exact ⟨[], .dropping all, rfl, rfl⟩
  | node id shape below =>
    obtain ⟨found, roots⟩ : store.shape? (some id) = some shape ∧ shape.slots = below.map Tree.root := by
      cases holds with
      | node found _ roots => exact ⟨found, roots⟩
    cases shape
    case block statements =>
      refine ⟨below, .opening all rfl, ?_, (Tree.unmet_of_isClear rfl).symm⟩
      rw [← roots, Tree.root_node, blockStatements, found]
      rfl
    all_goals exact whole rfl (by rw [Tree.root_node, blockStatements, found]; rfl)

/-- A branch that a plan takes up. -/
theorem assign_gathers (all : store.HoldsAll (tree :: kept)) (gathers : Gathers plan kept)
    (done : plan.assign tree.root values = (after, none)) :
    ∃ gathered, Rebuilds store store (tree :: kept) gathered ∧ Gathers after gathered ∧
      gathered ⊆ tree :: kept := by
  match values, done with
  | [], done =>
    cases done
    exact ⟨kept, .dropping all, gathers, List.subset_cons_self _ _⟩
  | [value], done =>
    cases done
    -- a branch that was there for the value before is overwritten
    let others := plan.cases.toList.filter fun pair => decide ¬(value == pair.1) = true
    let same := plan.cases.toList.filter fun pair => !decide ¬(value == pair.1) = true
    have split : (others ++ same).Perm plan.cases.toList := List.filter_append_perm _ _
    have inserted : (plan.cases.insert value tree.root).toList.Perm ((value, tree.root) :: others) :=
      Std.TreeMap.toList_insert_perm
    have images : ((tree :: kept).map Tree.root).Perm
        (((plan.cases.insert value tree.root).toList.map Prod.snd ++ plan.default?.toList) ++
          same.map Prod.snd) := by
      calc (tree :: kept).map Tree.root
        _ = tree.root :: (plan.cases.toList.map Prod.snd ++ plan.default?.toList) := by
            rw [List.map_cons, gathers]
        _ |>.Perm (tree.root :: ((others ++ same).map Prod.snd ++ plan.default?.toList)) :=
            ((split.symm.map Prod.snd).append_right _).cons _
        _ |>.Perm (((tree.root :: others.map Prod.snd) ++ plan.default?.toList) ++
              same.map Prod.snd) := by
            rw [List.map_append, List.append_assoc, List.cons_append, List.cons_append,
              List.append_assoc]
            exact (List.perm_append_comm.append_left _).cons _
        _ |>.Perm _ := ((inserted.symm.map Prod.snd).append_right _).append_right _
    obtain ⟨permuted, perm, roots⟩ := exists_perm_map_eq images
    obtain ⟨gathered, overwritten, rfl, first, -⟩ := List.map_eq_append_iff.mp roots
    have moved := (perm.trans List.perm_append_comm)
    have parted := holdsAll_append.mp (all.perm moved)
    refine ⟨gathered, ?_, first, fun other member => perm.mem_iff.mpr (List.mem_append_left _ member)⟩
    exact ((Rebuilds.droppingAll parted.1).beside (all.perm moved)).permBefore moved.symm
  | _ :: _ :: _, done =>
    unfold Plan.assign at done
    cases set : plan.default? with
    | some other =>
      rw [set] at done
      cases done
    | none =>
      rw [set] at done
      cases done
      refine ⟨kept ++ [tree], (Rebuilds.refl all).perm (List.perm_append_singleton tree kept).symm,
        ?_, fun other member => ?_⟩
      · rw [Gathers, set, Option.toList_none, List.append_nil] at gathers
        rw [Gathers, List.map_append, gathers]
        rfl
      · exact (List.perm_append_singleton tree kept).mem_iff.mp member

/-- What is left of a chain that a plan takes apart. -/
def Takes (store : Store) (before : List Tree) (after : Plan) : Prop :=
  ∃ gathered, Rebuilds store store before gathered ∧ Gathers after gathered ∧
    Tree.unmetAll gathered ⊆ Tree.unmetAll before

theorem Takes.onward {others : List Tree} (work : Rebuilds store store trees others)
    (fewer : Tree.unmetAll others ⊆ Tree.unmetAll trees) (takes : Takes store others plan) :
    Takes store trees plan := by
  obtain ⟨gathered, further, gathers, less⟩ := takes
  exact ⟨gathered, work.trans further, gathers, List.Subset.trans less fewer⟩

theorem unmetAll_tail_subset (tree : Tree) (rest : List Tree) :
    Tree.unmetAll rest ⊆ Tree.unmetAll (tree :: rest) := List.subset_append_right _ _

/-- What a plan keeps when a tree is given up. -/
theorem takes_dropping (all : store.HoldsAll (tree :: kept)) (gathers : Gathers plan kept) :
    Takes store (tree :: kept) plan :=
  ⟨kept, .dropping all, gathers, unmetAll_tail_subset tree kept⟩

/-- The `if` that a branch holds and nothing else. -/
theorem opens_nextLink {next : NodeId} (all : store.HoldsAll (tree :: rest))
    (further : nextLink? store name tree.root = some next) :
    ∃ test thenTree elseTree, Rebuilds store store (tree :: rest)
        ([test, thenTree, elseTree] ++ rest) ∧
      store.shape? (some next) =
        some (.conditionalStatement test.root thenTree.root elseTree.root) ∧
      Tree.unmetAll [test, thenTree, elseTree] = tree.unmet := by
  obtain ⟨parts, opens, roots, needs⟩ := opensBranch all
  unfold nextLink? at further
  rw [← roots] at further
  split at further
  swap
  · cases further
  rename_i only listed
  split at further
  swap
  · cases further
  rename_i tested
  cases further
  obtain ⟨link, rfl, rooted⟩ := List.map_eq_singleton_iff.mp listed
  -- a statement that is tested is an `if`
  unfold testedName? at tested
  split at tested
  swap
  · cases tested
  rename_i testSlot thenSlot elseSlot found
  have held := opens.all.holds link (List.mem_append_left _ (List.mem_singleton_self _))
  obtain ⟨below, rfl, slots⟩ := held.eq_node rooted found
  obtain ⟨test, thenTree, elseTree, rfl, rfl, rfl, rfl⟩ := Tree.three_of_roots slots
  refine ⟨test, thenTree, elseTree, opens.trans (.opening opens.all rfl), found, ?_⟩
  have whole : (Tree.node next (.conditionalStatement test.root thenTree.root elseTree.root)
      [test, thenTree, elseTree]).unmet = Tree.unmetAll [test, thenTree, elseTree] :=
    Tree.unmet_of_isClear rfl
  rw [← needs, ← whole]
  exact (List.append_nil _).symm

/-- The parts of a link are taken apart further, or they are kept. -/
theorem planLink_takes (depth : Nat) {test thenTree elseTree : Tree}
    (all : store.HoldsAll ([test, thenTree, elseTree] ++ kept))
    (found : store.shape? (some link) =
      some (.conditionalStatement test.root thenTree.root elseTree.root))
    (gathers : Gathers plan kept)
    (done : planLink store name depth link values plan = (after, none)) :
    Takes store ([test, thenTree, elseTree] ++ kept) after := by
  induction depth generalizing link values plan after test thenTree elseTree kept with
  | zero =>
    cases done
    refine ⟨kept, ?_, gathers, ?_⟩
    · have parted := (holdsAll_append.mp all).1
      exact (Rebuilds.droppingAll parted).beside all
    · rw [Tree.unmetAll_append]
      exact List.subset_append_right _ _
  | succ depth ih =>
    -- a branch is followed if it is a link itself, and assigned otherwise
    have branch : ∀ {tree : Tree} {kept : List Tree} {values : List Int} {plan after : Plan},
        store.HoldsAll (tree :: kept) → Gathers plan kept →
        (∀ next, nextLink? store name tree.root = some next →
          planLink store name depth next values plan = (after, none)) →
        (nextLink? store name tree.root = none → plan.assign tree.root values = (after, none)) →
        Takes store (tree :: kept) after := by
      intro tree kept values plan after all gathers followed assigned
      cases further : nextLink? store name tree.root with
      | some next =>
        obtain ⟨test, thenTree, elseTree, opens, shaped, needs⟩ := opens_nextLink all further
        refine Takes.onward opens ?_ (ih opens.all shaped gathers (followed next further))
        rw [Tree.unmetAll_append, needs]
        exact List.Subset.refl _
      | none =>
        obtain ⟨gathered, work, gathers', among⟩ := assign_gathers all gathers (assigned further)
        exact ⟨gathered, work, gathers', Tree.unmetAll_subset_of_subset among⟩
    have listed : Gathers { plan with links := plan.links ++ [link] } kept := gathers
    simp only [planLink, parts?, found] at done
    split at done
    · cases done
    rename_i taken others _
    have dropped : Rebuilds store store ([test, thenTree, elseTree] ++ kept)
        (thenTree :: elseTree :: kept) := .dropping all
    have swapped : Rebuilds store store (thenTree :: elseTree :: kept)
        (elseTree :: thenTree :: kept) := (Rebuilds.refl dropped.all).perm (.swap _ _ _)
    refine Takes.onward (dropped.trans swapped) (List.Subset.trans ?_ (unmetAll_tail_subset test _)) ?_
    · exact Tree.unmetAll_subset_of_subset (List.Perm.swap thenTree elseTree kept).subset
    split at done
    · rename_i failure _
      cases done
    rename_i middle first
    have inner : store.HoldsAll (thenTree :: kept) := (Rebuilds.dropping swapped.all).all
    obtain ⟨gathered, work, gathers', fewer⟩ := branch inner listed
      (fun _ further => by simpa only [further] using first)
      (fun further => by simpa only [further] using first)
    -- the other branch stands beside what the first one leaves
    have apart : store.HoldsAll (thenTree :: kept ++ [elseTree]) :=
      swapped.all.perm (List.perm_append_singleton elseTree (thenTree :: kept)).symm
    have beside : Rebuilds store store (elseTree :: thenTree :: kept) (elseTree :: gathered) :=
      ((work.beside apart).permBefore (List.perm_append_singleton elseTree (thenTree :: kept))).perm
        (List.perm_append_singleton elseTree gathered)
    refine Takes.onward beside ?_ ?_
    · rw [Tree.unmetAll_cons, Tree.unmetAll_cons]
      exact List.append_subset.mpr ⟨List.subset_append_left _ _,
        List.Subset.trans fewer (List.subset_append_right _ _)⟩
    split at done
    · exact branch beside.all gathers' (fun _ further => by simpa only [further] using done)
        (fun further => by simpa only [further] using done)
    · cases done
      exact takes_dropping beside.all gathers'

/-! ## The `switch` is built -/

section Building
variable {origin : Store} {branchTree labelTree : Tree} {made : List Tree}

/-- The statements of a branch that end their list or are followed by a `break`. -/
theorem closes_branch (work : Rebuilds origin middle trees (branchTree :: rest)) :
    ∃ later parts, (if (middle.blockStatements branchTree.root).getLast?.any middle.isTerminator then
          (middle, middle.blockStatements branchTree.root)
        else (middle.makeBreak.1,
          middle.blockStatements branchTree.root ++ [some middle.makeBreak.2])) =
        (later, parts.map Tree.root) ∧
      Rebuilds origin later trees (parts ++ rest) ∧ Tree.AddsBreaks [branchTree] parts := by
  obtain ⟨parts, opens, roots, needs⟩ := opensBranch work.all
  have fewer : Tree.AddsBreaks [branchTree] parts := by
    refine .of_subset ?_
    rw [needs, Tree.unmetAll_cons]
    exact List.subset_append_left _ _
  rw [← roots]
  split
  · exact ⟨middle, parts, rfl, work.trans opens, fewer⟩
  · have broken := (work.trans opens).andBreak
    refine ⟨_, parts ++ [Expansion.plainBreak middle.nodes.size], ?_, broken.perm ?_, ?_⟩
    · rw [List.map_append]
      rfl
    · rw [List.append_assoc]
      exact List.perm_middle.symm
    · intro target needed
      rw [Tree.unmetAll_append, List.mem_append] at needed
      rcases needed with there | new
      · exact fewer there
      · exact List.mem_cons.mpr (.inl (List.mem_singleton.mp new))

theorem makeBranchClause_rebuilds (work : Rebuilds origin middle trees (branchTree :: labelTree :: rest))
    (bare : labelTree.unmet = []) :
    ∃ later clause new, makeBranchClause middle labelTree.root branchTree.root = (later, clause) ∧
      new.root = some clause ∧ Rebuilds origin later trees (new :: rest) ∧
      Tree.AddsBreaks [branchTree] [new] := by
  obtain ⟨closed, parts, closes, work', adds⟩ := closes_branch work
  obtain ⟨wrapped, block, blockTree, madeBlock, blockRoot, blockWork, blockNeeds, -, -⟩ :=
    work'.andNew (.block (parts.map Tree.root)) parts (labelTree :: rest) (.refl _) rfl rfl
      (List.forall_mem_nil _) rfl
  obtain ⟨later, clause, new, madeClause, clauseRoot, clauseWork, clauseNeeds, -, -⟩ :=
    blockWork.andNew (.clause labelTree.root.isNone labelTree.root [some block])
      [labelTree, blockTree] rest (.swap _ _ _) (by rw [← blockRoot]; rfl) rfl
      (List.forall_mem_nil _) rfl
  refine ⟨later, clause, new, ?_, clauseRoot, clauseWork, ?_⟩
  · unfold makeBranchClause
    simp only [closes]
    rw [makeBlock, madeBlock]
    exact madeClause
  · intro target needed
    rw [Tree.unmetAll_cons, Tree.unmetAll_nil, List.append_nil, clauseNeeds, Tree.unmetAll_cons, bare,
      List.nil_append, Tree.unmetAll_cons, Tree.unmetAll_nil, List.append_nil, blockNeeds] at needed
    exact adds needed

/-- The cases take up their branches one after the other. -/
theorem makeCases_rebuilds (pairs : List (Int × Slot)) {branches : List Tree} {clauses : Array Slot}
    (work : Rebuilds origin middle trees (branches ++ (kept ++ made)))
    (roots : branches.map Tree.root = pairs.map Prod.snd)
    (listed : made.map Tree.root = clauses.toList) :
    ∃ more, (made ++ more).map Tree.root = (makeCases pairs (middle, clauses)).2.toList ∧
      Rebuilds origin (makeCases pairs (middle, clauses)).1 trees (kept ++ (made ++ more)) ∧
      Tree.AddsBreaks branches more := by
  induction pairs generalizing middle branches made clauses with
  | nil =>
    cases List.map_eq_nil_iff.mp roots
    refine ⟨[], ?_, ?_, .of_subset (List.Subset.refl _)⟩
    · rw [List.append_nil]
      exact listed
    · rw [List.append_nil]
      exact work
  | cons pair pairs ih =>
    obtain ⟨value, branch⟩ := pair
    obtain ⟨branchTree, branches, rfl, rooted, others⟩ := List.map_eq_cons_iff.mp roots
    change branchTree.root = branch at rooted
    obtain ⟨numbered, label, labelTree, madeLabel, labelRoot, labelWork, labelNeeds, -, -⟩ :=
      work.andNew (.literal .number (Number.format (Float.ofInt value)) (some (Float.ofInt value))) []
        _ (.refl _) rfl rfl (List.forall_mem_nil _) rfl
    obtain ⟨next, clause, new, madeClause, clauseRoot, clauseWork, adds⟩ :=
      makeBranchClause_rebuilds (labelWork.perm (.swap _ _ _)) labelNeeds
    have moved : (new :: (branches ++ (kept ++ made))).Perm (branches ++ (kept ++ (made ++ [new]))) := by
      simp only [← List.append_assoc]
      exact (List.perm_append_singleton new _).symm
    have case : makeCase middle value branch = (next, clause) := by
      simp only [makeCase, makeNumber, madeLabel]
      rw [← labelRoot, ← rooted]
      exact madeClause
    obtain ⟨more, listed', further, adds'⟩ := @ih next (made ++ [new]) branches
      (clauses.push (some clause)) (clauseWork.perm moved) others (by
        rw [List.map_append, listed, Array.toList_push, List.map_singleton, clauseRoot])
    have step : makeCases ((value, branch) :: pairs) (middle, clauses) =
        makeCases pairs (next, clauses.push (some clause)) := by
      rw [makeCases, List.foldl_cons]
      simp only [case]
      rfl
    rw [step]
    refine ⟨new :: more, ?_, ?_, adds.append adds'⟩
    · rw [← listed', List.append_assoc]
      rfl
    · rw [List.append_assoc] at further
      exact further

theorem makeDefault_rebuilds {default? : Option Slot} {clauses : Array Slot}
    (work : Rebuilds origin middle trees (kept ++ made))
    (roots : kept.map Tree.root = default?.toList)
    (listed : made.map Tree.root = clauses.toList) :
    ∃ more, (made ++ more).map Tree.root = (makeDefault default? (middle, clauses)).2.toList ∧
      Rebuilds origin (makeDefault default? (middle, clauses)).1 trees (made ++ more) ∧
      Tree.AddsBreaks kept more := by
  cases default? with
  | none =>
    cases List.map_eq_nil_iff.mp roots
    refine ⟨[], ?_, ?_, .of_subset (List.Subset.refl _)⟩
    · rw [List.append_nil]
      exact listed
    · rw [List.append_nil]
      exact work
  | some branch =>
    obtain ⟨branchTree, rfl, rooted⟩ := List.map_eq_singleton_iff.mp roots
    have bare : Rebuilds origin middle trees (branchTree :: .nothing :: made) :=
      work.addNothing.perm (.swap _ _ _)
    obtain ⟨later, clause, new, madeClause, clauseRoot, clauseWork, adds⟩ :=
      makeBranchClause_rebuilds bare rfl
    have case : makeBranchClause middle none branch = (later, clause) := by
      rw [← rooted]
      exact madeClause
    simp only [makeDefault, case]
    refine ⟨[new], ?_, clauseWork.perm (List.perm_append_singleton new made).symm, adds⟩
    rw [List.map_append, listed, Array.toList_push, List.map_singleton, clauseRoot]

/-- The `switch` of a plan is made of its branches. -/
theorem makeSwitch_rebuilds (all : store.HoldsAll kept) (gathers : Gathers plan kept) :
    ∃ later switch new, plan.makeSwitch store name = (later, switch) ∧ new.root = some switch ∧
      Rebuilds store later kept [new] ∧ new.unmet ⊆ Tree.unmetAll kept ∧ later.IsBodyAt new.root := by
  obtain ⟨branches, default, rfl, branchRoots, defaultRoots⟩ := List.map_eq_append_iff.mp gathers
  have begun : Rebuilds store store (branches ++ default) (branches ++ (default ++ [])) := by
    rw [List.append_nil]
    exact .refl all
  obtain ⟨cases, listed, work, adds⟩ := @makeCases_rebuilds store _ default store [] plan.cases.toList
    branches #[] begun branchRoots rfl
  obtain ⟨defaults, listed', work', adds'⟩ := makeDefault_rebuilds work defaultRoots listed
  have switched := makeSwitch_eq plan store name
  rw [List.nil_append] at listed' work'
  generalize makeDefault plan.default? (makeCases plan.cases.toList (store, #[])) = state
    at switched listed' work'
  obtain ⟨middle, clauses⟩ := state
  obtain ⟨named, discriminant, nameTree, madeName, nameRoot, nameWork, nameNeeds, -, -⟩ :=
    work'.andNew (.identifier name) [] _ (.refl _) rfl rfl (List.forall_mem_nil _) rfl
  have whole : Rebuilds store named (branches ++ default) ((nameTree :: (cases ++ defaults)) ++ []) := by
    rw [List.append_nil]
    exact nameWork
  have slots : (Shape.switch (some discriminant) clauses.toList).slots =
      (nameTree :: (cases ++ defaults)).map Tree.root := by
    rw [List.map_cons, nameRoot, listed']
    rfl
  refine ⟨(named.make (.switch (some discriminant) clauses.toList)).1, named.nodes.size,
    .node named.nodes.size (.switch (some discriminant) clauses.toList)
      (nameTree :: (cases ++ defaults)), ?_, rfl,
    whole.andAdd slots (.refl _) (List.forall_mem_nil _) (List.forall_mem_nil _) rfl, ?_, ?_⟩
  · simp only [switched, makeIdentifier, madeName]
    rfl
  · refine Tree.AddsBreaks.switch fun target needed => (adds.append adds') ?_
    rwa [Tree.unmetAll_cons, nameNeeds, Tree.unmetAll_nil, List.nil_append] at needed
  · exact isBodyAt_of_shape? (shape?_make_id named _) rfl

end Building

/-! ## Chains are replaced -/

section Replaced
variable {work : Work} {root : NodeId}

theorem flatten_remade (work : Work) (link : NodeId) (tree : Tree)
    (stands : work.store.Stands root tree) (inside : link ∈ tree.names) :
    work.store.Remade (flatten work link).1.store tree := by
  cases replaced : (flatten work link).2 with
  | false =>
    obtain ⟨journal, links, same⟩ := flatten_refused replaced
    rw [same]
    exact stands.unchanged
  | true =>
    obtain ⟨tested, plan, found, -, planned, stored⟩ := flatten_eq (Prod.ext rfl replaced)
    rw [stored]
    obtain ⟨test, thenBody, elseBody, shaped⟩ : ∃ test thenBody elseBody,
        work.store.shape? (some link) = some (.conditionalStatement test thenBody elseBody) := by
      have tested := tested_of_variable found
      unfold testedName? at tested
      split at tested
      · rename_i shaped
        exact ⟨_, _, _, shaped⟩
      · cases tested
    obtain ⟨below, within, holds, nodup, roots⟩ := stands.opened inside shaped
    obtain ⟨first, second, third, rfl, rfl, rfl, rfl⟩ := Tree.three_of_roots roots
    have parts := holds.holdsAll_below nodup
    obtain ⟨gathered, taken, gathers, fewer⟩ := @planLink_takes work.store tested.name [] Plan.empty
      plan link _ work.store.depthBound first second third (by rwa [List.append_nil]) shaped rfl planned
    rw [List.append_nil] at taken fewer
    obtain ⟨later, switch, new, made, rooted, built, needs, body⟩ :=
      @makeSwitch_rebuilds work.store tested.name _ _ taken.all gathers
    rw [made, ← rooted]
    refine (stands.replacingOpened within rfl rfl rfl (taken.trans built) (.inr ?_)
      (body.fits rfl)).1
    rw [Tree.unmet_of_isClear rfl]
    exact List.Subset.trans needs fewer

/-- Each step of a fold remakes the program, so the fold does. -/
theorem foldl_remade {α β : Type} {root : NodeId} {step : α → β → α} (program : α → Store)
    (each : ∀ state item tree, (program state).Stands root tree →
      (program state).Remade (program (step state item)) tree)
    (items : List β) (state : α) (tree : Tree) (stands : (program state).Stands root tree) :
    (program state).Remade (program (items.foldl step state)) tree := by
  induction items generalizing state tree with
  | nil => exact stands.unchanged
  | cons item rest ih =>
    obtain ⟨remade, first⟩ := each state item tree stands
    obtain ⟨final, second⟩ := ih (step state item) remade (stands.remade first)
    exact ⟨final, first.trans second⟩

theorem sweep_remade (work : Work) (tree : Tree) (stands : work.store.Stands root tree) :
    work.store.Remade (sweep root work).1.store tree := by
  unfold sweep
  refine foldl_remade (fun state : Work × Bool => state.1.store) ?_ _ (work, false) tree stands
  rintro ⟨work, progress⟩ link tree stands
  simp only
  split
  · exact stands.unchanged
  · rename_i goes
    simp only [Bool.or_eq_true, Bool.not_eq_true', not_or, Bool.not_eq_false] at goes
    exact flatten_remade work link tree stands (stands.mem_of_isAttached goes.2)

theorem sweepAll_remade (limit : Nat) (work : Work) (tree : Tree)
    (stands : work.store.Stands root tree) :
    work.store.Remade (sweepAll root limit work).store tree := by
  induction limit generalizing work tree with
  | zero => exact stands.unchanged
  | succ limit ih =>
    obtain ⟨remade, swept⟩ := sweep_remade work tree stands
    rw [sweepAll]
    simp only
    split
    · obtain ⟨final, further⟩ := ih _ remade (stands.remade swept)
      exact ⟨final, swept.trans further⟩
    · exact ⟨remade, swept⟩

end Replaced

end Chain

theorem flattenChains_remade {store : Store} {root : NodeId} {tree : Tree} (findings : Findings)
    (stands : store.Stands root tree) :
    store.Remade (flattenChains store root findings).1 tree := by
  unfold flattenChains
  split
  · exact stands.unchanged
  · exact Chain.sweepAll_remade store.depthBound ⟨store, findings, [], 0⟩ tree stands

end Unflatten
