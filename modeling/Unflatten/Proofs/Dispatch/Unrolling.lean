import Unflatten.Proofs.Dispatch.FoundKeys
import Unflatten.Proofs.Dispatch.KeyStatements
import Unflatten.Proofs.Dispatch.LoopTest
import Unflatten.Proofs.Execution.Completing
import Unflatten.Proofs.Execution.Viewing
import Unflatten.Proofs.Parser.Grammar
import Unflatten.Proofs.Syntax.Landing

/-! # The case runs as the loop does

A loop that collapses is entered with the start value of its key, runs the case of that value, and is
left: each path through the case returns, throws, or gives the key a value for which the test fails.
So in a world that takes the key for what it is (`Follows`), nobody but the key can tell the loop
from the statements that take its place (`unroll_runs`).

A world goes by the text of what is done.  So it is taken for granted that a name means the same in
the case and in the list around the loop; a case that declares a name for its block only breaks
this. -/

set_option autoImplicit false

namespace Unflatten

open Store Execution

/-- The arms of every `if` are statements. -/
def Store.HasStatementArms (store : Store) : Prop :=
  ∀ {id : NodeId} {condition yes no : Slot},
    store.shape? (some id) = some (.conditionalStatement condition yes no) →
    store.IsBodyAt yes ∧ store.IsBodyAt no

namespace Collapse

/-- What stands in the head of a loop. -/
def loopHead (store : Store) (loop : NodeId) : Slot :=
  match store.shape? (some loop) with
  | some (.loop _ head _ _ _) => head
  | _ => none

/-- A world that takes a key of a program for what it is: assignments give it their value, the test of
its loop has the outcome that the evaluator finds, and its start value is known to be the same as
the label. -/
structure Follows (world : World) (view : View) (store : Store) (key : DispatchKey) : Prop where
  blind : view.IsBlind world
  assigns : ∀ {tree : Tree} {value : Value}, store.Holds tree →
    Tracking.assignedValue? store key tree.root = some value →
    view.IsIdle world tree.bare ∧ view.gives tree.bare = some value
  tests : ∀ {tree : Tree} {holds : Bool} {state : State}, store.Holds tree →
    tree.root = Tracking.loopTest store key →
    Tracking.testFor store key (view.value state.log) = .ok holds →
    ∃ after, view.Agrees after state ∧ ∀ next, test world tree next state = next holds after
  prelude : ∀ {tree : Tree} {prelude : NodeId}, store.Holds tree → key.prelude = some prelude →
    tree.root = some prelude → view.gives tree.bare = none
  selects : ∀ {tree : Tree} {log : List Tree}, store.Holds tree →
    store.identifier? tree.root = some key.name → view.value log = .ofInt key.start →
    world.known? log tree.bare = some key.start
  labels : ∀ {tree : Tree} (log : List Tree), store.Holds tree →
    (store.number? tree.root).any (· == Float.ofInt key.start) = true →
    world.known? log tree.bare = some key.start
  head : ∀ {head statement : Tree}, store.Holds head → head.root = loopHead store key.loop →
    HeadBecomes head [statement] → view.DoesAlike world head.bare statement.bare

/-- What comes of a case, and of what is left of it: the first ends in one way, the second normally,
and the test fails then; or both end in the same way and do not go on. -/
structure LeavesAlike (view : View) (store : Store) (key : DispatchKey) (way : Completion)
    (first second : Completion × State) : Prop where
  looks : view.LooksLike first.2 second.2
  ends : (first.1 = way ∧ second.1 = .normal ∧
      Tracking.Leaves store key (view.value first.2.log)) ∨
    (first.1 = second.1 ∧ first.1 ≠ .normal ∧ first.1 ≠ .breaks none ∧ first.1 ≠ .continues none)

section Case
variable {store : Store} {key : DispatchKey} {world : World} {view : View} {limit : Nat}
  {first second front : Behaviour} {state other : State} {trees stripped others : List Tree}
  {tree arm new : Tree} {way : Completion}

/-- Two behaviours that end alike, and never go on. -/
theorem leavesAlike_of_alike (alike : view.Alike first second) (leaves : Leaves first)
    (needs : Needs [] first) (agrees : view.Agrees state other) :
    LeavesAlike view store key way (first state) (second other) := by
  obtain ⟨same, after⟩ := alike agrees
  refine ⟨after.toLooksLike, .inr ⟨same, leaves state, fun breaks => ?_, fun continues => ?_⟩⟩
  · exact List.not_mem_nil ((needs state).1 breaks)
  · exact List.not_mem_nil ((needs state).2 continues)

/-- The same goes before both. -/
theorem LeavesAlike.behind (alike : view.Alike front front) (needs : Needs [] front)
    (agrees : view.Agrees state other)
    (each : ∀ {after after'}, front state = (.normal, after) → view.Agrees after after' →
      LeavesAlike view store key way (first after) (second after')) :
    LeavesAlike view store key way (seq front first state) (seq front second other) := by
  obtain ⟨same, after⟩ := alike agrees
  cases ended : front state with
  | mk completion rest =>
    cases also : front other with
    | mk completion' rest' =>
      rw [ended, also] at same after
      cases same
      by_cases normal : completion = .normal
      · subst normal
        rw [seq_of_normal ended, seq_of_normal also]
        exact each ended after
      · rw [seq_of_other ended normal, seq_of_other also normal]
        have needed := needs state
        rw [ended] at needed
        exact ⟨after.toLooksLike, .inr ⟨rfl, normal, fun breaks => List.not_mem_nil (needed.1 breaks),
          fun continues => List.not_mem_nil (needed.2 continues)⟩⟩

/-- Both go on from the outcome of a test. -/
theorem leavesAlike_test (blind : view.IsBlind world) (tree : Tree) {next next' : Bool → Behaviour}
    (each : ∀ holds {state other}, view.Agrees state other →
      LeavesAlike view store key way (next holds state) (next' holds other))
    (agrees : view.Agrees state other) :
    LeavesAlike view store key way (test world tree next state) (test world tree next' other) := by
  obtain ⟨after, after', same, throws | ⟨holds, goes⟩⟩ := blind.test_cases tree agrees
  · rw [(throws next).1, (throws next').2]
    exact ⟨same.toLooksLike,
      .inr ⟨rfl, Completion.noConfusion, Completion.noConfusion, Completion.noConfusion⟩⟩
  · rw [(goes next).1, (goes next').2]
    exact each holds same

/-- Statements that need no loop end with no jump. -/
theorem needs_front (held : ∀ tree ∈ trees, store.Holds tree) (calm : Tree.NeedsNoLoop trees) :
    Needs [] (runAll world limit trees) := by
  refine needs_runAll fun tree member state => ?_
  have needed : (run world limit tree [] state).1.IsNeeded tree.unmet :=
    (run_needs (held tree member)).1 [] state
  exact ⟨fun breaks => absurd (Tree.mem_unmetAll.mpr ⟨tree, member, needed.1 breaks⟩) calm.1,
    fun continues => absurd (Tree.mem_unmetAll.mpr ⟨tree, member, needed.2 continues⟩) calm.2⟩

/-- The statement before a `break` gives the key a value for which the test fails. -/
theorem LeavesLoop.assigned
    (leaves : ∀ value, value = .undefined ∨ (∃ exit ∈ key.exits, value = .ofInt exit) →
      Tracking.Leaves store key value) (isExit : LeavesLoop store key tree) :
    ∃ value, Tracking.assignedValue? store key tree.root = some value ∧
      Tracking.Leaves store key value := by
  obtain ⟨-, isExit⟩ := isExit
  unfold Tracking.assignedValue?
  split
  · exact ⟨.undefined, rfl, leaves _ (.inl rfl)⟩
  · rename_i defined
    rw [isExitAssignment, Bool.or_eq_true] at isExit
    obtain ⟨value, given, listed⟩ := (Option.any_eq_true _ _).mp (isExit.resolve_left defined)
    refine ⟨.ofInt value, by rw [given]; rfl, leaves _ (.inr ⟨value, ?_, rfl⟩)⟩
    exact List.contains_iff_mem.mp listed

/-- A statement that gives the key a value is done as one thing. -/
theorem run_assigned {value : Value} (holds : store.Holds tree)
    (assigned : Tracking.assignedValue? store key tree.root = some value) (labels : List String) :
    run world limit tree labels = world.note tree := by
  obtain ⟨assignment, assigns⟩ : ∃ assignment, store.assignment? tree.root = some assignment := by
    unfold Tracking.assignedValue? at assigned
    split at assigned
    · rename_i isExit
      obtain ⟨pair, given, -⟩ := (Option.any_eq_true _ _).mp isExit
      exact ⟨pair, given⟩
    · obtain ⟨number, given, -⟩ := Option.map_eq_some_iff.mp assigned
      obtain ⟨pair, found, -⟩ := Option.bind_eq_some_iff.mp given
      exact ⟨pair, found⟩
  unfold assignment? at assigns
  split at assigns
  swap
  · cases assigns
  rename_i shaped
  obtain ⟨expression, has, -⟩ := Option.bind_eq_some_iff.mp shaped
  unfold expression? at has
  split at has
  swap
  · cases has
  rename_i found
  obtain ⟨id, below, rfl, -⟩ := holds.exists_node found
  rfl

/-- An arm of an `if` is the block of its statements. -/
theorem Refilled.blocks (refilled : Refilled arm trees new others) (holds : store.Holds arm)
    (body : store.IsBodyAt arm.root) :
    ∃ id slots slots', arm = .node id (.block slots) trees ∧ new = .node id (.block slots') others := by
  obtain ⟨id, shape, changed, lead, rfl, rfl, leading, statements, changes⟩ := refilled
  have isBody := body id rfl
  rw [satisfies, holds.shape?_node, Option.any_some] at isBody
  have isBlock := Shape.isBlock_of_isBody isBody (by rw [Shape.isContainer, statements]; rfl)
  cases shape
  case block =>
    obtain rfl : lead = [] := List.map_eq_nil_iff.mp leading.symm
    cases changes
    exact ⟨id, _, _, rfl, rfl⟩
  all_goals cases isBlock

/-- The key is given a value, and the `break` after that leaves the loop. -/
theorem breaks_leave (follows : Follows world view store key)
    (leaves : ∀ value, value = .undefined ∨ (∃ exit ∈ key.exits, value = .ofInt exit) →
      Tracking.Leaves store key value) {id : NodeId} {below : List Tree}
    (isExit : LeavesLoop store key tree) (holds : store.Holds (.node id (.jump .breaks none) below))
    (agrees : view.Agrees state other) :
    LeavesAlike view store key (.breaks none)
      (runAll world limit [tree, .node id (.jump .breaks none) below] state)
      (runAll world limit [] other) := by
  obtain ⟨value, assigned, leave⟩ := isExit.assigned leaves
  obtain ⟨idle, gives⟩ := follows.assigns isExit.1 assigned
  obtain rfl : below = [.nothing] := by
    obtain ⟨label, rfl, rooted⟩ := Tree.one_of_roots (holds.slots rfl)
    cases label with
    | nothing => rfl
    | node => cases rooted
  have ended : runAll world limit [tree, .node id (.jump .breaks none) [.nothing]] state =
      (.breaks none, { state with log := tree.bare :: state.log }) := by
    rw [runAll, run_assigned isExit.1 assigned, seq_of_normal (idle.note state), runAll_singleton]
    rfl
  rw [ended]
  refine ⟨(View.LooksLike.aside state idle.seen).trans agrees.toLooksLike, .inl ⟨rfl, rfl, ?_⟩⟩
  rw [View.value_cons, gives]
  exact leave

/-- The statements of a case do what is left of them does, and then leave the loop. -/
theorem StripsTo.runs (follows : Follows world view store key) (arms : store.HasStatementArms)
    (leaves : ∀ value, value = .undefined ∨ (∃ exit ∈ key.exits, value = .ofInt exit) →
      Tracking.Leaves store key value)
    (strips : StripsTo (LeavesLoop store key) trees stripped) (held : ∀ tree ∈ trees, store.Holds tree)
    (calm : Tree.NeedsNoLoop stripped) (agrees : view.Agrees state other) :
    LeavesAlike view store key (.breaks none) (runAll world limit trees state)
      (runAll world limit stripped other) := by
  have goesBefore : ∀ {front rest left : List Tree}, (∀ tree ∈ front ++ rest, store.Holds tree) →
      Tree.NeedsNoLoop (front ++ left) → (∀ {state other}, view.Agrees state other →
        LeavesAlike view store key (.breaks none) (runAll world limit rest state)
          (runAll world limit left other)) →
      ∀ {state other}, view.Agrees state other →
        LeavesAlike view store key (.breaks none) (runAll world limit (front ++ rest) state)
          (runAll world limit (front ++ left) other) := by
    intro front rest left held calm each state other agrees
    rw [runAll_append, runAll_append]
    refine LeavesAlike.behind (follows.blind.runAll_alike front) (needs_front (fun tree member =>
      held tree (List.mem_append_left _ member)) (calm.of_subset ?_)) agrees fun _ => each
    rw [Tree.unmetAll_append]
    exact List.subset_append_left _ _
  induction strips generalizing state other with
  | @exit front below id kind slot =>
    refine goesBefore held calm (fun agrees => ?_) agrees
    rw [runAll_singleton]
    have alone : view.Alike (run world limit (.node id (.exit kind slot) below) [])
        (run world limit (.node id (.exit kind slot) below) []) := by
      rw [← runAll_singleton]
      exact follows.blind.runAll_alike _
    refine leavesAlike_of_alike alone ?_ ?_ agrees
    · exact leaves_seq (leaves_done (by cases kind <;> exact Completion.noConfusion))
    · exact (needs_note _).seq (needs_done (by
        cases kind <;> exact Completion.isNeeded_of_plain Completion.noConfusion Completion.noConfusion))
  | @breaks front below before id isExit =>
    rw [← List.append_nil front] at calm ⊢
    rw [List.append_assoc, List.nil_append]
    refine goesBefore held calm (fun {state other} agrees => ?_) agrees
    exact breaks_leave follows leaves isExit (held _ (by simp)) agrees
  | @branches front thenTrees thenLeft elseTrees elseLeft test thenArm thenNew elseArm elseNew id
      condition yes no thenArms thenStrips elseArms elseStrips thenRuns elseRuns =>
    refine goesBefore held calm (fun {state other} agrees => ?_) agrees
    have holds : store.Holds (.node id (.conditionalStatement condition yes no)
        [test, thenArm, elseArm]) := held _ (by simp)
    have roots : [condition, yes, no] = [test, thenArm, elseArm].map Tree.root := holds.slots rfl
    obtain ⟨yesBody, noBody⟩ := arms holds.shape?_node
    have thenHeld : store.Holds thenArm := holds.part (by simp [Tree.parts])
    have elseHeld : store.Holds elseArm := holds.part (by simp [Tree.parts])
    cases roots
    obtain ⟨thenId, thenSlots, thenSlots', rfl, rfl⟩ := thenArms.blocks thenHeld yesBody
    obtain ⟨elseId, elseSlots, elseSlots', rfl, rfl⟩ := elseArms.blocks elseHeld noBody
    have inside : Tree.NeedsNoLoop thenLeft ∧ Tree.NeedsNoLoop elseLeft := by
      have below : Tree.NeedsNoLoop [.node id
          (.conditionalStatement test.root (some thenId) (some elseId))
          [test, .node thenId (.block thenSlots') thenLeft, .node elseId (.block elseSlots') elseLeft]] :=
        calm.of_subset (by
          rw [Tree.unmetAll_append]
          exact List.subset_append_right _ _)
      rw [Tree.NeedsNoLoop, Tree.unmetAll_cons, Tree.unmetAll_nil, List.append_nil,
        Tree.unmet_of_isClear rfl, Tree.unmetAll_cons, Tree.unmetAll_cons, Tree.unmetAll_cons,
        Tree.unmetAll_nil, List.append_nil, Tree.unmet_of_isClear rfl, Tree.unmet_of_isClear rfl] at below
      simp only [List.mem_append, not_or] at below
      exact ⟨⟨below.1.2.1, below.2.2.1⟩, ⟨below.1.2.2, below.2.2.2⟩⟩
    rw [runAll_singleton, runAll_singleton]
    refine leavesAlike_test follows.blind test (fun outcome {state other} agrees => ?_) agrees
    cases outcome with
    | true => exact thenRuns (fun tree member => thenHeld.part member) inside.1 agrees
    | false => exact elseRuns (fun tree member => elseHeld.part member) inside.2 agrees

/-- A dispatcher is left by the `break` of its case. -/
theorem LeavesAlike.inSwitch (alike : LeavesAlike view store key (.breaks none) (first state) (second other))
    (rest : Behaviour) :
    LeavesAlike view store key .normal (inSwitch (seq first rest) state) (second other) := by
  obtain ⟨looks, ends⟩ := alike
  cases ended : first state with
  | mk completion after =>
    rw [ended] at looks ends
    rcases ends with ⟨breaks, normal, leaves⟩ | ⟨same, notNormal, noBreak, noContinue⟩
    · cases breaks
      rw [inSwitch_of_ended (seq_of_other ended Completion.noConfusion rest)]
      exact ⟨looks, .inl ⟨rfl, normal, leaves⟩⟩
    · rw [inSwitch_of_ended (seq_of_other ended notNormal rest)]
      have kept : completion.leave = completion := by
        rcases completion with _ | (_ | label) | label | _ | _ | _
        case breaks.none => exact absurd rfl noBreak
        all_goals rfl
      rw [kept]
      exact ⟨looks, .inr ⟨same, notNormal, noBreak, noContinue⟩⟩

end Case

section Loop
variable {store : Store} {key : DispatchKey} {world : World} {view : View} {limit : Nat}
  {state other after : State} {trees preludes heads stripped : List Tree} {completion : Completion}
  {tree loop head test step dispatcher selector label : Tree} {first : Behaviour}

/-- With its start value in the key, a dispatcher runs the block of its case. -/
theorem run_dispatcher (follows : Follows world view store key)
    (dispatched : IsDispatcher dispatcher selector label trees) (holds : store.Holds dispatcher)
    (named : store.identifier? selector.root = some key.name)
    (starts : (store.number? label.root).any (· == Float.ofInt key.start) = true)
    (value : view.value state.log = .ofInt key.start) :
    ∃ rest, run world limit dispatcher [] state =
      inSwitch (seq (runAll world limit trees) rest) state := by
  cases dispatched with
  | @only id clause block slot labelSlot slots clauseSlots statements isDefault _ _ _ more =>
  have knownSelector := follows.selects (holds.part List.mem_cons_self) named value
  have clauseHeld := holds.part (List.mem_cons_of_mem _ (List.mem_singleton_self _))
  have knownLabel := follows.labels state.log (clauseHeld.part List.mem_cons_self) starts
  refine ⟨seq (runAll world limit more) (done .normal), inSwitch_congr ?_⟩
  have selected : ∀ next : Nat → Behaviour, select world selector
      [.node clause (.clause isDefault labelSlot clauseSlots)
        (label :: .node block (.block statements) trees :: more)] next state = next 0 state := by
    intro next
    rw [select, knownSelector, selectWith]
    cases isDefault with
    | true => rfl
    | false =>
      rw [findLabel, matchLabel, knownLabel, compareLabel, beq_self_eq_true]
      rfl
  rw [selected, runFrom_zero, ← seq_assoc]
  rfl

/-- What gives the key no value leaves its value as it is. -/
theorem value_note (gives : view.gives tree.bare = none) (state : State) :
    view.value (world.note tree state).2.log = view.value state.log := by
  unfold World.note
  split
  · rfl
  · exact (View.value_cons view _ _).trans (by rw [gives]; rfl)

/-- A prelude is done as one thing that gives the key no value. -/
theorem runAll_preludes (follows : Follows world view store key)
    (listed : preludes.map Tree.root = key.prelude.toList.map some)
    (held : ∀ tree ∈ preludes, store.Holds tree)
    (declares : ∀ prelude, key.prelude = some prelude →
      store.kind? (some prelude) = some .variableStatement) :
    runAll world limit preludes = done .normal ∨
      ∃ tree, runAll world limit preludes = world.note tree ∧ view.gives tree.bare = none := by
  cases given : key.prelude with
  | none =>
    rw [given] at listed
    rw [List.map_eq_nil_iff.mp listed]
    exact .inl rfl
  | some prelude =>
    rw [given] at listed
    obtain ⟨only, rfl, rooted⟩ := Tree.one_of_roots listed.symm
    have holds := held only (List.mem_singleton_self _)
    obtain ⟨shape, found, isStatement⟩ := Option.map_eq_some_iff.mp (declares prelude given)
    obtain ⟨below, rfl, -⟩ := holds.eq_node rooted found
    refine .inr ⟨.node prelude shape below, ?_, follows.prelude holds given rooted⟩
    rw [runAll_singleton]
    have steady := (isSteady_iff shape).mpr (.inl isStatement)
    cases shape
    case declarationList => rfl
    case switch => cases isStatement
    all_goals cases steady

/-- The body of the loop does what takes its place, and then leaves the loop. -/
theorem body_runs (follows : Follows world view store key) (arms : store.HasStatementArms)
    (leaves : ∀ value, value = .undefined ∨ (∃ exit ∈ key.exits, value = .ofInt exit) →
      Tracking.Leaves store key value)
    (dispatched : IsDispatcher dispatcher selector label trees)
    (held : ∀ tree ∈ preludes ++ [dispatcher], store.Holds tree)
    (named : store.identifier? selector.root = some key.name)
    (starts : (store.number? label.root).any (· == Float.ofInt key.start) = true)
    (listed : preludes.map Tree.root = key.prelude.toList.map some)
    (declares : ∀ prelude, key.prelude = some prelude →
      store.kind? (some prelude) = some .variableStatement)
    (strips : StripsTo (LeavesLoop store key) trees stripped) (calm : Tree.NeedsNoLoop stripped)
    (agrees : view.Agrees state other) (value : view.value state.log = .ofInt key.start) :
    LeavesAlike view store key .normal (runAll world limit (preludes ++ [dispatcher]) state)
      (runAll world limit (preludes ++ stripped) other) := by
  rw [runAll_append, runAll_append, runAll_singleton]
  have prelude : runAll world limit preludes = done .normal ∨
      ∃ tree, runAll world limit preludes = world.note tree ∧ view.gives tree.bare = none :=
    runAll_preludes follows listed (fun tree member => held tree (List.mem_append_left _ member)) declares
  have needs : Needs [] (runAll world limit preludes) := by
    rcases prelude with same | ⟨tree, same, -⟩
    · rw [same]
      exact needs_normal
    · rw [same]
      exact needs_note tree
  refine LeavesAlike.behind (follows.blind.runAll_alike preludes) needs agrees
    fun {after after'} ended agrees => ?_
  have still : view.value after.log = .ofInt key.start := by
    rcases prelude with same | ⟨tree, same, gives⟩
    · rw [same] at ended
      cases ended
      exact value
    · rw [← value, ← value_note gives state, ← same, ended]
  have holds := held dispatcher (List.mem_append_right _ (List.mem_singleton_self _))
  obtain ⟨rest, runs⟩ : ∃ rest, run world limit dispatcher [] after =
      inSwitch (seq (runAll world limit trees) rest) after :=
    run_dispatcher follows dispatched holds named starts still
  rw [runs]
  refine LeavesAlike.inSwitch (strips.runs follows arms leaves (fun tree member => ?_) calm agrees) rest
  cases dispatched with
  | only =>
    have clause := holds.part (List.mem_cons_of_mem _ (List.mem_singleton_self _))
    have block := clause.part (List.mem_cons_of_mem _ List.mem_cons_self)
    exact block.part member

/-- The head of a loop does the same as a statement. -/
theorem heads_alike (follows : Follows world view store key) (becomes : HeadBecomes head heads)
    (holds : store.Holds head) (headed : head.root = loopHead store key.loop) :
    view.Alike (noteIfAny world head) (runAll world limit heads) := by
  cases becomes with
  | nothing => exact fun _ _ agrees => ⟨rfl, agrees⟩
  | declarations =>
    rw [runAll_singleton]
    exact follows.blind.note (follows.head holds headed .declarations)
  | expression noList =>
    rw [runAll_singleton]
    exact follows.blind.note (follows.head holds headed (.expression noList))

/-- A loop whose test holds once runs its body once. -/
theorem cycle_once {body : Behaviour} (tests : ∀ {holds : Bool} {state : State},
      Tracking.testFor store key (view.value state.log) = .ok holds →
      ∃ after, view.Agrees after state ∧
        ∀ next, Execution.test world test next state = next holds after)
    (entered : Tracking.testFor store key (view.value state.log) = .ok true)
    (once : ∀ {after}, view.Agrees after other → view.value after.log = view.value state.log →
      LeavesAlike view store key .normal (body after) (first other))
    (agrees : view.Agrees state other) :
    view.EndsLike (cycle (Execution.test world test) [] body (done .normal) (limit + 2) state)
      (first other) := by
  obtain ⟨after, same, goes⟩ := tests entered
  obtain ⟨looks, ends⟩ := once (same.trans agrees) same.value
  rw [cycle, goes, if_pos rfl]
  cases ended : body after with
  | mk completion rest =>
    rw [ended] at looks ends
    rcases ends with ⟨normal, also, leaves⟩ | ⟨like, notNormal, noBreak, noContinue⟩
    · cases normal
      obtain ⟨last, unseen, stops⟩ := tests leaves
      -- the loop goes on to its test, which fails now
      have left : cycle (Execution.test world test) [] body (done .normal) (limit + 1) rest =
          (.normal, last) := by
        rw [cycle, stops]
        rfl
      have goesOn : Completion.goesOn [] .normal = true := rfl
      have update : done .normal rest = (.normal, rest) := rfl
      rw [andThen_of_ended ended Completion.noConfusion, if_pos goesOn, seq_of_normal update, left]
      exact ⟨also.symm, unseen.toLooksLike.trans looks⟩
    · rcases completion with _ | (_ | label) | (_ | label) | _ | _ | _
      case normal => exact absurd rfl notNormal
      case breaks.none => exact absurd rfl noBreak
      case continues.none => exact absurd rfl noContinue
      case pending =>
        rw [andThen_of_pending ended]
        exact ⟨like, looks⟩
      all_goals
        rw [andThen_of_ended ended Completion.noConfusion]
        exact ⟨like, looks⟩

/-- What is left of a loop does what the loop does. -/
theorem Unrolls.runs (follows : Follows world view store key) (arms : store.HasStatementArms)
    (leaves : ∀ value, value = .undefined ∨ (∃ exit ∈ key.exits, value = .ofInt exit) →
      Tracking.Leaves store key value)
    (unrolls : Unrolls store key loop head test step selector label heads preludes trees stripped)
    (holds : store.Holds loop) (rooted : loop.root = some key.loop)
    (isFor : store.kind? (some key.loop) = some .forStatement)
    (headed : head.root = loopHead store key.loop) (tested : test.root = Tracking.loopTest store key)
    (noUpdate : step = .nothing)
    (named : store.identifier? selector.root = some key.name)
    (declares : ∀ prelude, key.prelude = some prelude →
      store.kind? (some prelude) = some .variableStatement)
    (entered : Tracking.testFor store key (.ofInt key.start) = .ok true)
    (starts : ∀ after, noteIfAny world head state = (.normal, after) →
      view.value after.log = .ofInt key.start) :
    view.EndsLike (run world (limit + 2) loop [] state)
      (runAll world (limit + 2) (heads ++ preludes ++ stripped) state) := by
  obtain ⟨kind, dispatcher, isLoop, dispatched⟩ := unrolls.form
  cases isLoop with
  | @loop id body initializer condition incrementor inside slots _ _ _ _ _ =>
  have held : ∀ {part : Tree}, part ∈ [head, test, step, .node body (.block slots)
      (preludes ++ [dispatcher])] → store.Holds part := fun member => holds.part member
  have isFor : kind = .forLoop := by
    cases rooted
    have found := holds.shape?_node
    rw [kind?, found] at isFor
    cases kind <;> first | rfl | cases isFor
  subst isFor noUpdate
  rw [List.append_assoc, runAll_append]
  have heads_ : view.Alike (noteIfAny world head) (runAll world (limit + 2) heads) :=
    heads_alike follows unrolls.head (held List.mem_cons_self) headed
  obtain ⟨same, agrees⟩ := heads_ (.refl view state)
  show view.EndsLike (seq (noteIfAny world head) (cycle (Execution.test world test) []
    (run world (limit + 2) (.node body (.block slots) (preludes ++ [dispatcher])) []) (done .normal)
    (limit + 2)) state) _
  cases ended : noteIfAny world head state with
  | mk completion after =>
  cases also : runAll world (limit + 2) heads state with
  | mk completion' after' =>
  rw [ended, also] at same agrees
  cases same
  by_cases normal : completion = .normal
  swap
  · rw [seq_of_other ended normal, seq_of_other also normal]
    exact ⟨rfl, agrees.toLooksLike⟩
  subst normal
  have started := starts after ended
  rw [seq_of_normal ended, seq_of_normal also]
  refine cycle_once (fun decided => follows.tests (held (by simp)) tested decided)
    (started.symm ▸ entered) (fun {after} agrees still => ?_) agrees
  have inside : ∀ tree ∈ preludes ++ [dispatcher], store.Holds tree := fun tree member =>
    (held (by simp) : store.Holds (.node body (.block slots) (preludes ++ [dispatcher]))).part member
  exact body_runs follows arms leaves dispatched inside named unrolls.starts unrolls.prelude declares
    unrolls.strips unrolls.needs agrees (still.trans started)

end Loop

section Program
variable {store : Store} {root : NodeId} {tree : Tree} {key : DispatchKey} {statements : List Slot}

end Program

/-! ## A loop around one call -/

end Collapse

end Unflatten
