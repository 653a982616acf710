import Unflatten.Proofs.Canonical.Blocks
import Unflatten.Proofs.Execution.Calling
import Unflatten.Proofs.Parser.Grammar

/-! # Bodies in the place of calls

A function that is called on the spot for its effects gives way to its body unless the body takes
more than variables from the call (`isFrameless_of_bodyReason?`).  If the body declares nothing
either, the program does the same as before in every frame; a variable of the body would be fresh in
each call, and is not so any longer when the body runs several times. -/

set_option autoImplicit false

namespace Unflatten

namespace Canonical

open Execution Store

section Frameless
variable {store : Store} {tree : Tree} {id : NodeId} {depth : Nat}

theorem isFrameless_of_frameReason? (holds : store.Holds tree) (rooted : tree.root = some id)
    (deep : tree.height ≤ depth) (free : frameReason? store depth id = none) :
    tree.isFrameless = true := by
  induction holds generalizing depth id with
  | nothing => rfl
  | @node name shape below found regular roots links held ih =>
    cases rooted
    cases depth with
    | zero => exact absurd deep (Nat.not_succ_le_zero _)
    | succ depth =>
      have parts (each : ∀ child ∈ shape.children, frameReason? store depth child = none) :
          ∀ part ∈ below, part.isFrameless = true := by
        intro part member
        cases there : part.root with
        | none =>
          cases part with
          | nothing => rfl
          | node => cases there
        | some child =>
          have listed : child ∈ shape.children := by
            rw [regular.mem_iff, roots, List.filterMap_map]
            exact List.mem_filterMap.mpr ⟨part, member, there⟩
          exact ih part member there
            (Nat.le_of_lt_succ (Nat.lt_of_lt_of_le (Tree.height_lt_node member) deep)) (each child listed)
      rw [Tree.isFrameless, Tree.fold_node, Bool.or_eq_true, Bool.and_eq_true, Bool.not_eq_true',
        List.all_map, List.all_eq_true]
      rw [frameReason?, found] at free
      split at free
      case h_1 same => cases same
      case h_2 same =>
        cases same
        exact .inl rfl
      case h_6 noFunction noReturn noThis noArguments same =>
        cases same
        refine .inr ⟨?_, parts fun child member => ?_⟩
        · rw [Shape.isFramed_withSlots]
          unfold Shape.isFramed
          split
          · exact (noReturn _ rfl).elim
          · exact (noThis rfl).elim
          · exact (noArguments rfl).elim
          · rfl
        · exact List.findSome?_eq_none_iff.mp free child (List.mem_reverse.mpr member)
      all_goals cases free

/-- What may run in the frame around it takes nothing from the call but variables. -/
theorem isFrameless_of_bodyReason? (holds : store.Holds tree) (nodup : tree.names.Nodup)
    (block : store.satisfies tree.root Shape.isBlock = true)
    (free : bodyReason? store tree.root = none) : tree.isFrameless = true := by
  cases tree with
  | nothing => rfl
  | node id shape below =>
    have deep := Nat.le_succ_of_le (Nat.le_succ_of_le (holds.height_le nodup))
    refine isFrameless_of_frameReason? holds rfl deep ?_
    cases holds with
    | node found =>
      rw [satisfies, Tree.root_node, found] at block
      cases shape
      case block =>
        rw [bodyReason?, Tree.root_node, Option.elim_some, Store.children, found] at free
        rw [frameReason?, found]
        exact free
      all_goals cases block

end Frameless

end Canonical

namespace Execution.Caller

section Sense
variable {m : Type → Type} {σ ν : Type} [Monad m] [MonadCont m] [LawfulMonadCont m]
  (caller : Caller m σ ν)

/-- A call on the spot does what the block of the function does. -/
theorem sense_calledOnTheSpot {statement operator call function name : NodeId} {isAfter : Bool}
    {statements : List Slot} {below : List Tree}
    (frameless : (Tree.node name (.block statements) below).isFrameless = true)
    (free : (Tree.node name (.block statements) below).declaresNothing = true) :
    caller.sense (.calledOnTheSpot statement operator call function isAfter
      (.node name (.block statements) below)) = caller.sense (.node name (.block statements) below) := by
  have nothing := @declared_eq_nil m σ ν _ _ caller _ free
  have invoked (frame : Frame m σ ν) := @invoke_eq m σ ν _ _ caller _ _ frameless free frame
  have block : caller.sense (.node name (.block statements) below) = ⟨none, [], none, fun frame =>
      caller.effect frame.scope
        (runAll ((below.map caller.sense).map fun part => part.run frame))⟩ := by
    rw [← nothing, sense_node]
    rfl
  -- but for what it declares and what a call of it does, the body does not matter
  generalize Tree.node name (.block statements) below = body at *
  have whole : caller.sense (.calledOnTheSpot statement operator call function isAfter body) =
      ⟨none, [], none, fun frame => caller.effect frame.scope (runAll [⟨do
        let value ← caller.invoke frame.scope [] (caller.sense body) caller.undefined []
        pure (caller.negate value), (caller.machine frame.scope).nowhere, none⟩])⟩ := by
    rw [Tree.calledOnTheSpot, sense_node]
    simp only [List.map_cons, List.map_nil, sense_node]
    rfl
  rw [whole]
  simp only [invoked]
  rw [block]
  congr 1
  funext frame
  simp [effect, runAll]

end Sense

end Execution.Caller

namespace Canonical

open Execution Store

section Inlining
variable {store : Store} {root id : NodeId} {tree : Tree} {m : Type → Type} {σ ν : Type} [Monad m]
  [MonadCont m] [LawfulMonadCont m]

/-- A program in which a called body that is a block and declares nothing takes the place of the
call does the same in every frame. -/
theorem inlineCall_sense (stands : store.Stands root tree)
    (inside : id ∈ store.descendants (some root)) (caller : Caller m σ ν)
    (plain : ∀ body, calledBody? store (some id) = some body →
      store.satisfies body Shape.isBlock = true ∧
        (store.treeAt store.depthBound body).declaresNothing = true) :
    caller.senseAt (inlineCall store id).1 (some root) = caller.senseAt store (some root) := by
  have among := stands.mem_descendants.mp inside
  rcases inlineCall_placed stands among with
    ⟨outcome, -, same⟩ | ⟨later, remade, operator, call, function, isAfter, body, result, remakes, called,
      free, within, placed⟩
  · rw [same]
  · have part : Tree.Within body tree := by
      have below : Tree.Within body (.calledOnTheSpot id operator call function isAfter body) := by
        refine .deeper List.mem_cons_self (.deeper List.mem_cons_self (.deeper List.mem_cons_self
          (.deeper ?_ .whole)))
        exact List.mem_cons_of_mem _ List.mem_cons_self
      exact below.trans within
    have holds := stands.holds.within part
    have nodup := part.nodup stands.nodup
    have deep : body.height ≤ store.depthBound := Nat.le_succ_of_le (holds.height_le nodup)
    obtain ⟨block, nothing⟩ := plain body.root called
    rw [holds.treeAt_eq deep] at nothing
    have frameless := isFrameless_of_bodyReason? holds nodup block free
    rw [result]
    refine placed.fold_treeAt _ _ stands remakes ?_
    cases body with
    | nothing => cases block
    | node name shape below =>
      cases holds with
      | node found =>
        rw [satisfies, Tree.root_node, found] at block
        cases shape
        case block => exact (caller.sense_calledOnTheSpot frameless nothing).symm
        all_goals cases block

end Inlining

/-! ## A caller with cells -/

/-- Variables are cells, and calls of functions that are not known are counted. -/
structure Cells where
  values : List Nat
  calls : Nat

/-- A caller whose loops run twice.  Zero stands for `undefined`. -/
def cells : Caller (ContT Nat (StateM Cells)) (List (String × Nat)) Nat where
  machine scope := {
    read := fun place run state => match place with
      | .name text => run (((scope.lookup text).bind (state.values[·]?)).getD 0) state
      | .member _ _ => run 0 state
    write := fun place value run state => match place with
      | .name text => run () ((scope.lookup text).elim state fun cell =>
          { state with values := state.values.set cell value })
      | .member _ _ => run () state
    key := fun _ => 0
    holds := fun value => value != 0
    isNullish := fun _ => false
    operate := fun _ left right => pure (left + right)
    nowhere := pure (.name "")
    other := fun shape parts =>
      let value : ContT Nat (StateM Cells) Nat := match shape, parts with
        | .literal _ _ _, _ => pure 1
        | .call _ _ _, _ => fun run state => run 0 { state with calls := state.calls + 1 }
        | .conditionalStatement _ _ _, [test, yes, _] => do
          if (← test.value) = 0 then pure 0 else yes.value
        | .loop _ _ _ _ _, [_, _, _, body] => do
          let _ ← body.value
          body.value
        | _, parts => do
          Caller.runAll parts
          pure 0
      ⟨value, pure (.name ""), none⟩ }
  bind scope name := fun run state =>
    run ((name, state.values.length) :: scope) { state with values := state.values ++ [0] }
  undefined := 0
  negate value := if value = 0 then 1 else 0
  argumentsOf _ := pure 0
  closure _ _ _ := pure 0

/-- How often unknown functions are called when a program runs. -/
def callCount (store : Store) (root : NodeId) : Nat :=
  (((cells.senseAt store (some root)).run ⟨[], 0, [], ⟨pure⟩⟩).value.run
    (fun value state => (value, state)) ⟨[], 0⟩).2.calls

/-- A body without names of its own may take the place of its call, in a loop too. -/
theorem nameless_body_inlined :
    let program := parse "(function(){for(;;){!function(){g()}()}})()".toList
    (inlineCall program.store 7).2 = .changed ∧
      cells.senseAt (inlineCall program.store 7).1 (some program.root) =
        cells.senseAt program.store (some program.root) := by
  intro program
  obtain ⟨tree, stands⟩ := parse_stands "(function(){for(;;){!function(){g()}()}})()".toList
  obtain ⟨changed, inside, same, block, nothing⟩ : (inlineCall program.store 7).2 = .changed ∧
      7 ∈ program.store.descendants (some program.root) ∧
      calledBody? program.store (some 7) = some (some 3) ∧
      program.store.satisfies (some 3) Shape.isBlock = true ∧
      (program.store.treeAt program.store.depthBound (some 3)).declaresNothing = true := by
    decide +kernel
  refine ⟨changed, inlineCall_sense stands inside cells fun body called => ?_⟩
  cases same.symm.trans called
  exact ⟨block, nothing⟩

/-- A variable of the body is not fresh any longer when the loop comes round: in a call it is
`undefined` when it is tested, so the function in the branch is never called. -/
theorem fresh_variable_lost :
    let program := parse "(function(){for(;;){!function(){var x;if(x){g()}x=1}()}})()".toList
    (inlineCall program.store 17).2 = .changed ∧ callCount program.store program.root = 0 ∧
      callCount (inlineCall program.store 17).1 program.root = 1 := by
  decide +kernel

end Canonical

end Unflatten
