import Unflatten.Dispatch.Collapse
import Unflatten.Proofs.Syntax.Escaping
import Unflatten.Proofs.Syntax.Standing

/-! # Breaks that leave the loop

A loop collapses only if all jumps that leave its case are breaks at the ends of its paths.  Those
breaks are stripped off, so that the statements that are left need nothing to break from and no
loop to continue. -/

set_option autoImplicit false

namespace Unflatten

open Store

namespace Collapse

/-- An arm of an `if` that is a list of statements. -/
def IsList (arm : Tree) (lead trees : List Tree) : Prop :=
  ∃ id shape, arm = .node id shape (lead ++ trees) ∧ shape.leading = lead.map Tree.root ∧
    shape.statements? = some (trees.map Tree.root)

/-- Every path through some statements ends in `return` or `throw`, or in one of some breaks with a
statement before it that leaves the loop. -/
inductive Ends (leaving : Tree → Prop) : (depth : Nat) → List Tree → List Slot → Prop
  | exit {depth : Nat} {front below : List Tree} {id : NodeId} {kind : ExitKind} {slot : Slot} :
      Ends leaving (depth + 1) (front ++ [.node id (.exit kind slot) below]) []
  | breaks {depth : Nat} {front below : List Tree} {before : Tree} {id : NodeId}
      (leaves : leaving before) :
      Ends leaving (depth + 1) (front ++ [before, .node id (.jump .breaks none) below]) [some id]
  | branches {depth : Nat} {front thenLead thenTrees elseLead elseTrees : List Tree}
      {test thenArm elseArm : Tree} {id : NodeId} {first second : List Slot}
      (thenList : IsList thenArm thenLead thenTrees) (thenEnds : Ends leaving depth thenTrees first)
      (elseList : IsList elseArm elseLead elseTrees) (elseEnds : Ends leaving depth elseTrees second) :
      Ends leaving (depth + 1) (front ++
        [.node id (.conditionalStatement test.root thenArm.root elseArm.root)
          [test, thenArm, elseArm]]) (first ++ second)

/-- An arm with other statements. -/
def Refilled (arm : Tree) (trees : List Tree) (new : Tree) (others : List Tree) : Prop :=
  ∃ id shape changed lead, arm = .node id shape (lead ++ trees) ∧ new = .node id changed (lead ++ others) ∧
    shape.leading = lead.map Tree.root ∧ shape.statements? = some (trees.map Tree.root) ∧
    shape.withStatements? (others.map Tree.root) = some changed

/-- What is left of some statements without the breaks and the statements before them. -/
inductive StripsTo (leaving : Tree → Prop) : List Tree → List Tree → Prop
  | exit {front below : List Tree} {id : NodeId} {kind : ExitKind} {slot : Slot} :
      StripsTo leaving (front ++ [.node id (.exit kind slot) below])
        (front ++ [.node id (.exit kind slot) below])
  | breaks {front below : List Tree} {before : Tree} {id : NodeId} (leaves : leaving before) :
      StripsTo leaving (front ++ [before, .node id (.jump .breaks none) below]) front
  | branches {front thenTrees thenLeft elseTrees elseLeft : List Tree}
      {test thenArm thenNew elseArm elseNew : Tree} {id : NodeId} {condition yes no : Slot}
      (thenArms : Refilled thenArm thenTrees thenNew thenLeft)
      (thenStrips : StripsTo leaving thenTrees thenLeft)
      (elseArms : Refilled elseArm elseTrees elseNew elseLeft)
      (elseStrips : StripsTo leaving elseTrees elseLeft) :
      StripsTo leaving
        (front ++ [.node id (.conditionalStatement condition yes no) [test, thenArm, elseArm]])
        (front ++ [.node id (.conditionalStatement condition yes no) [test, thenNew, elseNew]])

section Ends
variable {store later : Store} {key : DispatchKey} {depth : Nat} {breaks : List Slot}
  {trees lead : List Tree} {arm : Tree} {leaving : Tree → Prop}

theorem exists_isList {slots : List Slot} (holds : store.Holds arm)
    (has : store.statements? arm.root = some slots) :
    ∃ lead trees, IsList arm lead trees ∧ slots = trees.map Tree.root := by
  obtain ⟨shape, found, listed⟩ := Option.bind_eq_some_iff.mp has
  obtain ⟨id, below, rfl, -⟩ := holds.exists_node found
  obtain ⟨lead, trees, rfl, leading, rfl⟩ := holds.split_statements listed
  exact ⟨lead, trees, ⟨id, shape, rfl, leading, listed⟩, rfl⟩

/-- A statement in a store that leaves the loop of a key. -/
def LeavesLoop (store : Store) (key : DispatchKey) (tree : Tree) : Prop :=
  store.Holds tree ∧ isExitAssignment store key tree.root = true

theorem ends_of_exitBreaks? (held : ∀ tree ∈ trees, store.Holds tree)
    (exits : exitBreaks? store key depth (trees.map Tree.root) = some breaks) :
    Ends (LeavesLoop store key) depth trees breaks := by
  induction depth generalizing trees breaks with
  | zero => cases exits
  | succ depth ih =>
    rcases trees.eq_nil_or_concat' with rfl | ⟨front, last, rfl⟩
    · cases exits
    have holds := held last (List.mem_append_right _ (List.mem_singleton_self _))
    rw [exitBreaks?, List.map_append, List.reverse_append, List.map_singleton,
      List.reverse_singleton, List.singleton_append] at exits
    simp only at exits
    split at exits
    · rename_i exit
      cases exits
      obtain ⟨shape, found, passes⟩ := (Option.any_eq_true _ _).mp exit
      obtain ⟨id, below, rfl, -⟩ := holds.exists_node found
      cases shape
      case exit => exact .exit
      all_goals cases passes
    split at exits
    · rename_i broken
      split at exits
      · rename_i assigned
        cases exits
        obtain ⟨shape, found, passes⟩ := (Option.any_eq_true _ _).mp broken
        obtain ⟨id, below, rfl, -⟩ := holds.exists_node found
        obtain rfl : shape = .jump .breaks none := by
          unfold Shape.isPlainBreak at passes
          split at passes
          · rfl
          · cases passes
        -- an assignment comes before the break
        rcases front.eq_nil_or_concat' with rfl | ⟨before, assignment, rfl⟩
        · cases assigned
        · rw [List.append_assoc]
          refine .breaks ⟨held assignment (by simp), ?_⟩
          simpa using assigned
      · cases exits
    split at exits
    · rename_i test thenBody elseBody found
      obtain ⟨id, below, rfl, slots⟩ := holds.exists_node found
      obtain ⟨testTree, thenArm, elseArm, rfl, rfl, rfl, rfl⟩ := Tree.three_of_roots slots
      obtain ⟨thenSlots, thenStatements, exits⟩ := Option.bind_eq_some_iff.mp exits
      obtain ⟨elseSlots, elseStatements, exits⟩ := Option.bind_eq_some_iff.mp exits
      obtain ⟨first, thenExits, exits⟩ := Option.bind_eq_some_iff.mp exits
      obtain ⟨second, elseExits, exits⟩ := Option.bind_eq_some_iff.mp exits
      cases exits
      cases holds with
      | node _ _ _ _ inner =>
      have arm : ∀ {arm : Tree} {slots ends : List Slot}, store.Holds arm →
          store.statements? arm.root = some slots → exitBreaks? store key depth slots = some ends →
          ∃ lead trees, IsList arm lead trees ∧ Ends (LeavesLoop store key) depth trees ends := by
        intro arm slots ends held has exits
        obtain ⟨lead, trees, isList, rfl⟩ := exists_isList held has
        refine ⟨lead, trees, isList, ih (fun tree member => ?_) exits⟩
        obtain ⟨name, shape, rfl, -, -⟩ := isList
        cases held with
        | node _ _ _ _ inner => exact inner tree (List.mem_append_right _ member)
      obtain ⟨thenLead, thenTrees, thenList, thenEnds⟩ :=
        arm (inner thenArm (by simp)) thenStatements thenExits
      obtain ⟨elseLead, elseTrees, elseList, elseEnds⟩ :=
        arm (inner elseArm (by simp)) elseStatements elseExits
      exact .branches thenList thenEnds elseList elseEnds
    · cases exits

/-- The breaks stand among the statements. -/
theorem Ends.mem_names (ends : Ends leaving depth trees breaks) {jump : NodeId}
    (listed : some jump ∈ breaks) : jump ∈ Tree.namesAll trees := by
  induction ends with
  | exit => cases listed
  | breaks leaves =>
    cases List.mem_singleton.mp listed
    rw [Tree.namesAll_append]
    exact List.mem_append_right _ (by simp [Tree.namesAll, Tree.names])
  | branches thenList thenEnds elseList elseEnds thenInside elseInside =>
    obtain ⟨_, _, rfl, -, -⟩ := thenList
    obtain ⟨_, _, rfl, -, -⟩ := elseList
    rw [Tree.namesAll_append]
    refine List.mem_append_right _ ?_
    simp only [Tree.namesAll, Tree.names, Tree.namesAll_append, List.append_nil, List.mem_cons,
      List.mem_append]
    rcases List.mem_append.mp listed with first | second
    · exact .inr (.inr (.inl (.inr (.inr (thenInside first)))))
    · exact .inr (.inr (.inr (.inr (.inr (elseInside second)))))

theorem IsList.mem_names (isList : IsList arm lead trees) (ends : Ends leaving depth trees breaks)
    {jump : NodeId} (listed : some jump ∈ breaks) : jump ∈ Tree.namesAll [arm] := by
  have inside := ends.mem_names listed
  obtain ⟨id, shape, rfl, -, -⟩ := isList
  rw [Tree.namesAll, Tree.names, Tree.namesAll_append, Tree.namesAll, List.append_nil]
  exact List.mem_cons_of_mem _ (List.mem_append_right _ inside)

/-- Such statements are no framed body. -/
theorem Ends.not_framed (ends : Ends leaving depth trees breaks) (held : ∀ tree ∈ trees, store.Holds tree)
    {body prelude : NodeId} {shape : Shape} (found : store.shape? (some body) = some shape)
    (statements : shape.statements? = some (trees.map Tree.root)) :
    ¬ store.IsFramedBody body prelude := by
  rintro ⟨slots, block, steady, -⟩
  rw [found] at block
  cases block
  cases statements
  have last : ∀ {id : NodeId} {shape : Shape} {below : List Tree},
      .node id shape below ∈ trees → shape.isSteady = true := by
    intro id shape below member
    have passes := steady _ (List.mem_map_of_mem member)
    cases held _ member with
    | node found =>
      rw [Tree.root_node, satisfies, found] at passes
      exact passes
  cases ends with
  | exit => cases last (List.mem_append_right _ (List.mem_singleton_self _))
  | breaks => cases last (List.mem_append_right _ (List.mem_cons_of_mem _ List.mem_cons_self))
  | branches => cases last (List.mem_append_right _ (List.mem_singleton_self _))

/-! ## The breaks are stripped off -/

/-- What is left of some statements when their breaks are gone. -/
def Strips (leaving : Tree → Prop) (depth : Nat) (store : Store) (trees : List Tree) : Prop :=
  ∃ later stripped, stripExits depth store (trees.map Tree.root) = (later, stripped.map Tree.root) ∧
    Rebuilds store later trees stripped ∧ Tree.unmetAll stripped ⊆ Tree.unmetAll trees ∧
    Tree.NeedsNoLoop stripped ∧ StripsTo leaving trees stripped

/-- Strips an arm of an `if`. -/
def stripArm (depth : Nat) (store : Store) (arm : Slot) : Store :=
  match store.statements? arm with
  | none => store
  | some inner =>
    let (store, stripped) := stripExits depth store inner
    (store.setStatements arm stripped).1

theorem stripExits_succ (depth : Nat) (store : Store) (statements : List Slot) :
    stripExits (depth + 1) store statements =
      let last : Slot := statements.getLast?.join
      if store.isPlainBreak last then (store, statements.take (statements.length - 2))
      else
        match store.shape? last with
        | some (.conditionalStatement _ thenBody elseBody) =>
          (stripArm depth (stripArm depth store thenBody) elseBody, statements)
        | _ => (store, statements) := rfl

/-- Only the breaks leave some statements. -/
def OnlyLeave (breaks : List Slot) (trees : List Tree) : Prop :=
  ∀ tree ∈ trees, ∀ jump, Tree.Escapes jump false false tree → some jump ∈ breaks

/-- Where none of the breaks stands, no jump leaves. -/
theorem OnlyLeave.needsNoLoop (only : OnlyLeave breaks trees)
    (held : ∀ tree ∈ trees, store.Holds tree)
    (apart : ∀ jump ∈ Tree.namesAll trees, some jump ∉ breaks) : Tree.NeedsNoLoop trees :=
  Tree.needsNoLoop_of_escapes held fun tree member jump escapes =>
    apart jump (Tree.mem_namesAll.mpr ⟨tree, member, escapes.mem_names⟩)
      (only tree member jump escapes)

theorem OnlyLeave.append {others : List Tree} (only : OnlyLeave breaks (trees ++ others)) :
    OnlyLeave breaks trees ∧ OnlyLeave breaks others :=
  ⟨fun tree member => only tree (List.mem_append_left _ member),
    fun tree member => only tree (List.mem_append_right _ member)⟩

/-- What leaves the parts of a node leaves the node. -/
theorem OnlyLeave.below {id : NodeId} {shape : Shape} (only : OnlyLeave breaks [.node id shape trees])
    (searched : shape.isSearched = true) (noLoop : shape.isLoop = false)
    (noSwitch : shape.selects = false) : OnlyLeave breaks trees := by
  intro tree member jump escapes
  refine only _ (List.mem_singleton_self _) jump (.deeper searched member ?_)
  rw [noLoop, noSwitch]
  exact escapes

/-- Breaks that stand elsewhere can be left out. -/
theorem OnlyLeave.narrow {first second : List Slot} (only : OnlyLeave (first ++ second) trees)
    (apart : ∀ jump ∈ Tree.namesAll trees, some jump ∉ second) : OnlyLeave first trees := by
  intro tree member jump escapes
  refine (List.mem_append.mp (only tree member jump escapes)).resolve_right (apart jump ?_)
  exact Tree.mem_namesAll.mpr ⟨tree, member, escapes.mem_names⟩

/-- An arm is given what is left of its statements. -/
theorem IsList.strips (isList : IsList arm lead trees) (ends : Ends leaving depth trees breaks)
    (strips : store.HoldsAll trees → OnlyLeave breaks trees → Strips leaving depth store trees)
    (holds : store.Holds arm) (nodup : arm.names.Nodup) (only : OnlyLeave breaks [arm]) :
    ∃ stripped left, Remakes store (stripArm depth store arm.root) arm stripped [] ∧
      stripped.unmet ⊆ arm.unmet ∧ Tree.NeedsNoLoop [stripped] ∧
      Refilled arm trees stripped left ∧ StripsTo leaving trees left := by
  obtain ⟨id, shape, rfl, leading, statements⟩ := isList
  have container : shape.isContainer = true := by rw [Shape.isContainer, statements]; rfl
  have all := holds.holdsAll_below nodup
  obtain ⟨leadAll, treesAll, apart⟩ := holdsAll_append.mp all
  obtain ⟨onlyLead, onlyTrees⟩ := (only.below (by cases shape <;> first | rfl | cases container)
    (by cases shape <;> first | rfl | cases container)
    (by cases shape <;> first | rfl | cases container)).append
  have needsLead := onlyLead.needsNoLoop leadAll.holds fun jump inside listed =>
    apart jump inside (ends.mem_names listed)
  obtain ⟨middle, stripped, strip, work, fewer, needs, left⟩ := strips treesAll onlyTrees
  have found := holds.shape?_node
  rw [← List.append_nil stripped] at work
  obtain ⟨later, changed, set, changes, remakes⟩ := Remakes.setting holds nodup leading
    statements work (fun prelude => ends.not_framed treesAll.holds found statements)
    (.inr fewer)
  have still : changed.isContainer = true := by
    rw [Shape.isContainer, (Shape.slots_of_withStatements? changes).2]
    rfl
  refine ⟨.node id changed (lead ++ stripped), stripped, ?_, ?_, ?_,
    ⟨id, shape, changed, lead, rfl, rfl, leading, statements, changes⟩, left⟩
  · have result : stripArm depth store (some id) = later := by
      rw [stripArm, statements?, found, Option.bind_some, statements]
      simp only [strip, set]
    rw [Tree.root_node, result]
    exact remakes
  · rw [Tree.unmet_of_isContainer container, Tree.unmet_of_isContainer still, Tree.unmetAll_append,
      Tree.unmetAll_append]
    exact List.append_subset.mpr ⟨List.subset_append_left _ _,
      List.Subset.trans fewer (List.subset_append_right _ _)⟩
  · rw [Tree.NeedsNoLoop, Tree.unmetAll_cons, Tree.unmetAll_nil, List.append_nil,
      Tree.unmet_of_isContainer still]
    exact needsLead.append needs

/-- Both arms of an `if` are stripped, one after the other. -/
theorem strips_branches {thenLead thenTrees elseLead elseTrees : List Tree}
    {test thenArm elseArm : Tree} {id : NodeId} {first second : List Slot}
    (thenList : IsList thenArm thenLead thenTrees) (thenEnds : Ends leaving depth thenTrees first)
    (elseList : IsList elseArm elseLead elseTrees) (elseEnds : Ends leaving depth elseTrees second)
    (stripsThen : ∀ {store : Store}, store.HoldsAll thenTrees → OnlyLeave first thenTrees →
      Strips leaving depth store thenTrees)
    (stripsElse : ∀ {store : Store}, store.HoldsAll elseTrees → OnlyLeave second elseTrees →
      Strips leaving depth store elseTrees)
    (all : store.HoldsAll [.node id (.conditionalStatement test.root thenArm.root elseArm.root)
      [test, thenArm, elseArm]])
    (only : OnlyLeave (first ++ second) [test, thenArm, elseArm]) :
    ∃ thenStripped elseStripped thenLeft elseLeft, Rebuilds store
        (stripArm depth (stripArm depth store thenArm.root) elseArm.root)
        [.node id (.conditionalStatement test.root thenArm.root elseArm.root)
          [test, thenArm, elseArm]]
        [.node id (.conditionalStatement test.root thenArm.root elseArm.root)
          [test, thenStripped, elseStripped]] ∧
      Tree.unmetAll [test, thenStripped, elseStripped] ⊆ Tree.unmetAll [test, thenArm, elseArm] ∧
      Tree.NeedsNoLoop [test, thenStripped, elseStripped] ∧
      (Refilled thenArm thenTrees thenStripped thenLeft ∧ StripsTo leaving thenTrees thenLeft) ∧
      Refilled elseArm elseTrees elseStripped elseLeft ∧ StripsTo leaving elseTrees elseLeft := by
  have whole : store.Holds (.node id
      (.conditionalStatement test.root thenArm.root elseArm.root) ([test] ++ thenArm :: [elseArm])) :=
    all.holds _ (List.mem_singleton_self _)
  have nodup := Tree.nodup_of_mem_namesAll all.nodup (List.mem_singleton_self _)
  have parts : store.HoldsAll ([test] ++ ([thenArm] ++ [elseArm])) := whole.holdsAll_below nodup
  obtain ⟨testAll, armsAll, testApart⟩ := holdsAll_append.mp parts
  obtain ⟨thenAll, elseAll, armsApart⟩ := holdsAll_append.mp armsAll
  have only : OnlyLeave (first ++ second) ([test] ++ ([thenArm] ++ [elseArm])) := only
  obtain ⟨onlyTest, onlyArms⟩ := only.append
  obtain ⟨onlyThen, onlyElse⟩ := onlyArms.append
  -- each break stands in one of the arms
  have needsTest := onlyTest.needsNoLoop testAll.holds fun jump inside listed => by
    refine testApart jump inside ?_
    rw [Tree.namesAll_append]
    exact List.mem_append.mpr
      ((List.mem_append.mp listed).imp (thenList.mem_names thenEnds) (elseList.mem_names elseEnds))
  have onlyThen : OnlyLeave first [thenArm] := onlyThen.narrow fun jump inside listed =>
    armsApart jump inside (elseList.mem_names elseEnds listed)
  have onlyElse : OnlyLeave second [elseArm] := by
    intro tree member jump escapes
    refine (List.mem_append.mp (onlyElse tree member jump escapes)).resolve_left fun listed => ?_
    exact armsApart jump (thenList.mem_names thenEnds listed)
      (Tree.mem_namesAll.mpr ⟨tree, member, escapes.mem_names⟩)
  -- the second arm is stripped in the store that the first one leaves
  obtain ⟨thenStripped, thenLeft, remakesThen, fewerThen, needsThen, thenStrips⟩ :=
    thenList.strips thenEnds stripsThen
    (thenAll.holds _ (List.mem_singleton_self _))
    (Tree.nodup_of_mem_namesAll thenAll.nodup (List.mem_singleton_self _)) onlyThen
  have around := remakesThen.below whole nodup
  have middle : (stripArm depth store thenArm.root).Holds (.node id
      (.conditionalStatement test.root thenArm.root elseArm.root)
      ([test, thenStripped] ++ elseArm :: [])) := around.rebuilds.all.holds _ (List.mem_singleton_self _)
  have middleNodup := Tree.nodup_of_mem_namesAll around.rebuilds.all.nodup (List.mem_singleton_self _)
  have middleParts := middle.holdsAll_below middleNodup
  have there : elseArm ∈ [test] ++ thenStripped :: [elseArm] := by simp
  obtain ⟨elseStripped, elseLeft, remakesElse, fewerElse, needsElse, elseStrips⟩ :=
    elseList.strips elseEnds stripsElse
    (middleParts.holds elseArm there) (Tree.nodup_of_mem_namesAll middleParts.nodup there) onlyElse
  have around' := remakesElse.below middle middleNodup
  refine ⟨thenStripped, elseStripped, thenLeft, elseLeft, (around.trans around').rebuilds, ?_,
    needsTest.append (needsThen.append needsElse), thenStrips, elseStrips⟩
  simp only [Tree.unmetAll_cons, Tree.unmetAll_nil, List.append_nil]
  refine List.append_subset.mpr ⟨List.subset_append_left _ _, List.append_subset.mpr ⟨?_, ?_⟩⟩
  · exact List.Subset.trans fewerThen
      (List.Subset.trans (List.subset_append_left _ _) (List.subset_append_right _ _))
  · exact List.Subset.trans fewerElse
      (List.Subset.trans (List.subset_append_right _ _) (List.subset_append_right _ _))

/-- Nothing that leaves the loop is left. -/
theorem Ends.strips (ends : Ends leaving depth trees breaks) (all : store.HoldsAll trees)
    (only : OnlyLeave breaks trees) : Strips leaving depth store trees := by
  induction ends generalizing store with
  | @exit depth front below id kind slot =>
    have found := (all.holds _ (List.mem_append_right _ (List.mem_singleton_self _))).shape?_node
    refine ⟨store, _, ?_, .refl all, List.Subset.refl _,
      only.needsNoLoop all.holds fun _ _ => List.not_mem_nil, .exit⟩
    rw [stripExits_succ, List.map_append, List.map_singleton, List.getLast?_concat]
    simp only [Tree.root_node, Option.join_some, isPlainBreak, satisfies, found]
    rfl
  | @breaks depth front below before id leaves =>
    obtain ⟨frontAll, pairAll, apart⟩ := holdsAll_append.mp all
    have found := (pairAll.holds _ (List.mem_cons_of_mem _ (List.mem_singleton_self _))).shape?_node
    refine ⟨store, front, ?_, (Rebuilds.keeping (all.perm List.perm_append_comm)).permBefore
      List.perm_append_comm, ?_,
      only.append.1.needsNoLoop frontAll.holds fun jump inside listed => ?_, .breaks leaves⟩
    · rw [stripExits_succ]
      simp [isPlainBreak, satisfies, found, Shape.isPlainBreak]
    · rw [Tree.unmetAll_append]
      exact List.subset_append_left _ _
    · cases List.mem_singleton.mp listed
      exact apart id inside (by simp [Tree.namesAll, Tree.names])
  | @branches depth front thenLead thenTrees elseLead elseTrees test thenArm elseArm id first second
      thenList thenEnds elseList elseEnds stripsThen stripsElse =>
    obtain ⟨frontAll, condAll, apart⟩ := holdsAll_append.mp all
    obtain ⟨onlyFront, onlyCond⟩ := only.append
    have ends : Ends leaving (depth + 1) ([] ++ [.node id (.conditionalStatement test.root thenArm.root
        elseArm.root) [test, thenArm, elseArm]]) (first ++ second) :=
      .branches thenList thenEnds elseList elseEnds
    have needsFront := onlyFront.needsNoLoop frontAll.holds fun jump inside listed =>
      apart jump inside (ends.mem_names listed)
    obtain ⟨thenStripped, elseStripped, thenLeft, elseLeft, work, fewer, needs,
      ⟨thenArms, thenStrips⟩, elseArms, elseStrips⟩ := strips_branches thenList thenEnds
      elseList elseEnds stripsThen stripsElse condAll (onlyCond.below rfl rfl rfl)
    have found : store.shape? (some id) =
        some (.conditionalStatement test.root thenArm.root elseArm.root) :=
      (condAll.holds _ (List.mem_singleton_self _)).shape?_node
    have beside := ((work.beside (all.perm List.perm_append_comm)).permBefore
      List.perm_append_comm).perm List.perm_append_comm
    refine ⟨_, _, ?_, beside, ?_, ?_, .branches thenArms thenStrips elseArms elseStrips⟩
    · rw [stripExits_succ, List.map_append, List.map_singleton, List.getLast?_concat]
      simp only [Tree.root_node, Option.join_some, isPlainBreak, satisfies, found, List.map_append,
        List.map_singleton]
      rfl
    · rw [Tree.unmetAll_append, Tree.unmetAll_append]
      refine List.append_subset.mpr ⟨List.subset_append_left _ _,
        List.Subset.trans ?_ (List.subset_append_right _ _)⟩
      rw [Tree.unmetAll_cons, Tree.unmetAll_cons, Tree.unmetAll_nil, List.append_nil, List.append_nil,
        Tree.unmet_of_isClear rfl, Tree.unmet_of_isClear rfl]
      exact fewer
    · refine needsFront.append ?_
      rw [Tree.NeedsNoLoop, Tree.unmetAll_cons, Tree.unmetAll_nil, List.append_nil,
        Tree.unmet_of_isClear rfl]
      exact needs

end Ends

end Collapse

end Unflatten
