import Unflatten.Dispatch.Expansion
import Unflatten.Proofs.Dispatch.Endings
import Unflatten.Proofs.Dispatch.KeyStatements
import Unflatten.Proofs.Syntax.Reworking
import Unflatten.Proofs.Syntax.Targets

/-! # A `break` in both arms

Expansion moves a `break` behind an `if` into the ends of its arms.  The arms are reworked in
place; afterwards the `if` alone does what it did together with the `break`, and it gives the
key the same values. -/

set_option autoImplicit false

namespace Unflatten

open Execution

namespace Store

/-- An `if` with blocks on both sides. -/
theorem Holds.arms {store : Store} {tree : Tree} {arms : Arms} (holds : store.Holds tree)
    (found : store.arms? tree.root = some arms) :
    ∃ id test first second thenBody elseBody,
      tree = .node id (.conditionalStatement test.root (some first) (some second))
        [test, .node first (.block (thenBody.map Tree.root)) thenBody,
          .node second (.block (elseBody.map Tree.root)) elseBody] ∧
      arms = ⟨test.root, some first, some second⟩ := by
  have isBlock : ∀ part : Tree, store.Holds part →
      store.satisfies part.root Shape.isBlock = true →
      ∃ id body, part = .node id (.block (body.map Tree.root)) body := by
    intro part held block
    rw [satisfies, held.shape?] at block
    cases part with
    | nothing => cases block
    | node id shape below =>
      have slots := held.slots rfl
      cases shape
      case block statements =>
        have same : statements = below.map Tree.root := slots
        exact ⟨id, below, by rw [same]⟩
      all_goals cases block
  unfold Store.arms? at found
  rw [holds.shape?] at found
  cases tree with
  | nothing => cases found
  | node id shape below =>
    have slots := holds.slots rfl
    cases shape
    case conditionalStatement condition thenBody elseBody =>
      obtain ⟨test, first, second, rfl, rfl, rfl, rfl⟩ : ∃ test first second : Tree,
          below = [test, first, second] ∧ condition = test.root ∧ thenBody = first.root ∧
            elseBody = second.root := by
        have same : below.map Tree.root = [condition, thenBody, elseBody] := slots.symm
        simp only [List.map_eq_cons_iff, List.map_eq_nil_iff] at same
        obtain ⟨test, _, rfl, rfl, first, _, rfl, rfl, second, _, rfl, rfl, rfl⟩ := same
        exact ⟨test, first, second, rfl, rfl, rfl, rfl⟩
      simp only [Tree.shape?, Option.ite_none_right_eq_some, Bool.and_eq_true] at found
      obtain ⟨⟨thenBlock, elseBlock⟩, same⟩ := found
      obtain ⟨left, thenBody, rfl⟩ := isBlock first (holds.part (by simp [Tree.parts])) thenBlock
      obtain ⟨right, elseBody, rfl⟩ := isBlock second (holds.part (by simp [Tree.parts])) elseBlock
      exact ⟨id, test, left, right, thenBody, elseBody, rfl, (Option.some.inj same).symm⟩
    all_goals cases found

end Store

namespace Expansion

/-- One tree does what another does and then breaks, and gives a key the same values. -/
structure BreaksAfter (tree ended : Tree) : Prop where
  keys : ∀ key value, ended.keyStatements key value = tree.keyStatements key value
  run : ∀ world limit labels,
    run world limit ended labels = seq (run world limit tree labels) (done (.breaks none))
  needs : Tree.AddsBreaks [tree] [ended]

/-- Puts a `break` at the end of an arm, or at the ends of the arms of the `if` that stands
last in it. -/
def terminateArm (depth : Nat) (store : Store) (arm : Slot) : Store :=
  let statements := store.statementsOf arm
  let last : Slot := statements.getLast?.join
  if (store.arms? last).isSome then terminateArms depth store last
  else if store.isTerminator last then store
  else
    let (store, leave) := store.makeBreak
    (store.setStatements arm (statements ++ [some leave])).1

theorem terminateArms_succ {store : Store} {statement : Slot} {arms : Arms} (depth : Nat)
    (found : store.arms? statement = some arms) :
    terminateArms (depth + 1) store statement =
      terminateArm depth (terminateArm depth store arms.thenBlock) arms.elseBlock := by
  rw [terminateArms, found]
  rfl

/-- A `break` without a label. -/
def plainBreak (id : NodeId) : Tree := .node id (.jump .breaks none) [.nothing]

theorem exists_plainBreak {store : Store} {tree : Tree} (holds : store.Holds tree)
    (plain : store.isPlainBreak tree.root = true) : ∃ id, tree = plainBreak id := by
  rw [Store.isPlainBreak, Store.satisfies, holds.shape?] at plain
  cases tree with
  | nothing => cases plain
  | node id shape below =>
    have slots := holds.slots rfl
    cases shape
    case jump kind label =>
      cases kind
      case continues => cases plain
      case breaks =>
        cases label with
        | some label => cases plain
        | none =>
          obtain ⟨part, rfl, empty⟩ := List.map_eq_singleton_iff.mp slots.symm
          cases part with
          | nothing => exact ⟨id, rfl⟩
          | node => cases empty
    all_goals cases plain

theorem addsBreaks_plainBreak (trees : List Tree) (id : NodeId) :
    Tree.AddsBreaks trees (trees ++ [plainBreak id]) := by
  intro target needed
  rw [Tree.unmetAll_append, List.mem_append] at needed
  rcases needed with there | new
  · exact List.mem_cons_of_mem _ there
  · exact List.mem_cons.mpr (.inl (List.mem_singleton.mp new))

section Append
variable {store : Store} {id : NodeId} {body : List Tree}

theorem holds_makeBreak (store : Store) :
    store.makeBreak.1.Holds (plainBreak store.nodes.size) := by
  refine .node (Store.shape?_make_id store _) (.refl _) rfl ?_ ?_
  · intro tree member present
    rw [List.mem_singleton.mp member] at present
    cases present
  · intro tree member
    rw [List.mem_singleton.mp member]
    exact .nothing

/-- A block is reworked if a `break` is put behind its statements. -/
theorem appendBreak_reworks
    (holds : store.Holds (.node id (.block (body.map Tree.root)) body))
    (nodup : (Tree.node id (.block (body.map Tree.root)) body).names.Nodup) :
    Store.Reworks store
      (store.makeBreak.1.setStatements (some id)
        (body.map Tree.root ++ [some store.nodes.size])).1
      (.node id (.block (body.map Tree.root)) body)
      (.node id (.block ((body ++ [plainBreak store.nodes.size]).map Tree.root))
        (body ++ [plainBreak store.nodes.size])) := by
  have grown : Store.Grown store store.makeBreak.1 := by
    refine Store.grown_make fun id member => ?_
    cases List.mem_singleton.mp member
  have single : Tree.namesAll [plainBreak store.nodes.size] = [store.nodes.size] := rfl
  have whole := @Store.setStatements_reworks store store.makeBreak.1 id _ body
    (body ++ [plainBreak store.nodes.size]) holds nodup grown ?_ ?_ ?_
  · rw [List.map_append] at whole ⊢
    exact whole
  · intro tree member
    rcases List.mem_append.mp member with old | new
    · exact grown.holds (holds.part old)
    · rw [List.mem_singleton.mp new]
      exact holds_makeBreak store
  · rw [Tree.namesAll_append, single, List.nodup_append']
    refine ⟨(List.nodup_cons.mp nodup).2, List.nodup_singleton _, fun name old new => ?_⟩
    rw [List.mem_singleton.mp new] at old
    obtain ⟨tree, member, inside⟩ := Tree.mem_namesAll.mp old
    exact absurd ((holds.part member).lt_size inside) (Nat.lt_irrefl _)
  · intro name member
    rw [Tree.namesAll_append, single] at member
    rcases List.mem_append.mp member with old | new
    · exact .inl old
    · exact .inr (Nat.le_of_eq (List.mem_singleton.mp new).symm)

end Append

section Terminate
variable {store : Store} {depth : Nat} {tree : Tree} {id : NodeId} {body : List Tree}

/-- An arm is reworked if the `if` that stands last in it can be. -/
theorem terminateArm_reworks
    (deeper : ∀ {tree : Tree}, store.Holds tree → tree.names.Nodup → tree.height ≤ depth →
      (store.arms? tree.root).isSome → ∃ ended,
        Store.Reworks store (terminateArms depth store tree.root) tree ended ∧
        BreaksAfter tree ended)
    (holds : store.Holds (.node id (.block (body.map Tree.root)) body))
    (nodup : (Tree.node id (.block (body.map Tree.root)) body).names.Nodup)
    (deep : (Tree.node id (.block (body.map Tree.root)) body).height ≤ depth) :
    ∃ slots ended, Store.Reworks store (terminateArm depth store (some id))
        (.node id (.block (body.map Tree.root)) body) (.node id (.block slots) ended) ∧
      BreaksAfter (.node id (.block (body.map Tree.root)) body) (.node id (.block slots) ended) := by
  have listed : store.statementsOf (some id) = body.map Tree.root := holds.statementsOf
  unfold terminateArm
  rw [listed]
  simp only
  rcases List.eq_nil_or_concat body with rfl | ⟨before, last, rfl⟩
  · exact ⟨_, _, appendBreak_reworks holds nodup, fun _ _ => rfl, fun _ _ _ => rfl,
      (addsBreaks_plainBreak [] _).clear rfl rfl⟩
  · rw [List.concat_eq_append] at holds nodup deep ⊢
    have final : ((before ++ [last]).map Tree.root).getLast?.join = last.root := by simp
    have held : store.Holds last := holds.part (by simp [Tree.parts])
    rw [final]
    split
    · rename_i armed
      have member : last ∈ before ++ [last] := by simp
      obtain ⟨ended, reworks, breaks⟩ := deeper held
        (Tree.nodup_of_mem_namesAll (List.nodup_cons.mp nodup).2 member)
        (Nat.le_of_lt (Nat.lt_of_lt_of_le (Tree.height_lt_node member) deep)) armed
      refine ⟨_, before ++ [ended], reworks.below holds nodup, fun key value => ?_,
        fun world limit labels => ?_,
        ((Tree.AddsBreaks.refl before).append breaks.needs).clear rfl rfl⟩
      · have whole : ∀ final : Tree, (Tree.node id (.block ((before ++ [last]).map Tree.root))
            (before ++ [final])).keyStatements key value =
            Tree.keyStatementsAll key value before ++ final.keyStatements key value := by
          intro final
          rw [Tree.keyStatements, Tree.keyStatementsAll_append, Tree.keyStatementsAll,
            Tree.keyStatementsAll, List.append_nil]
          rfl
        rw [whole, whole, breaks.keys]
      · show runAll world limit _ = seq (runAll world limit _) _
        rw [runAll_append, runAll_append, runAll_singleton, runAll_singleton, breaks.run, seq_assoc]
    · split
      · rename_i ends
        refine ⟨_, _, .refl holds nodup, fun _ _ => rfl, fun world limit labels => ?_, .refl _⟩
        show runAll world limit _ = seq (runAll world limit _) _
        rw [runAll_append, runAll_singleton]
        exact (seq_of_leaves (leaves_seq (leaves_terminator held ends [])) _).symm
      · refine ⟨_, _, appendBreak_reworks holds nodup, fun key value => ?_,
          fun world limit labels => ?_, (addsBreaks_plainBreak _ _).clear rfl rfl⟩
        · rw [Tree.keyStatements, Tree.keyStatements, Tree.keyStatementsAll_append]
          exact List.append_nil _
        · show runAll world limit _ = seq (runAll world limit _) _
          rw [runAll_append, runAll_singleton]
          rfl

/-- An `if` with arms is reworked so that it breaks behind both. -/
theorem terminateArms_reworks (holds : store.Holds tree) (nodup : tree.names.Nodup)
    (deep : tree.height ≤ depth) (armed : (store.arms? tree.root).isSome) :
    ∃ ended, Store.Reworks store (terminateArms depth store tree.root) tree ended ∧
      BreaksAfter tree ended := by
  induction depth generalizing store tree with
  | zero =>
    cases tree with
    | nothing => cases armed
    | node => exact absurd deep (Nat.not_succ_le_zero _)
  | succ depth ih =>
    obtain ⟨arms, found⟩ := Option.isSome_iff_exists.mp armed
    rw [terminateArms_succ depth found]
    obtain ⟨id, test, first, second, thenBody, elseBody, rfl, rfl⟩ := holds.arms found
    have nodupBelow := (List.nodup_cons.mp nodup).2
    have bound : ∀ part ∈ [test, .node first (.block (thenBody.map Tree.root)) thenBody,
        .node second (.block (elseBody.map Tree.root)) elseBody], part.height ≤ depth :=
      fun part member => Nat.lt_succ_iff.mp (Nat.lt_of_lt_of_le (Tree.height_lt_node member) deep)
    obtain ⟨thenSlots, thenEnded, thenReworks, thenBreaks⟩ := @terminateArm_reworks _ _ first thenBody ih
      (holds.part (by simp [Tree.parts])) (Tree.nodup_of_mem_namesAll nodupBelow (by simp))
      (bound _ (by simp))
    have whole := @Store.Reworks.below _ _ [test] _ _ _ _ _ thenReworks holds nodup
    obtain ⟨elseSlots, elseEnded, elseReworks, elseBreaks⟩ := @terminateArm_reworks _ _ second elseBody ih
      (whole.holds.part (by simp [Tree.parts]))
      (Tree.nodup_of_mem_namesAll nodupBelow (by simp)) (bound _ (by simp))
    have again := @Store.Reworks.below _ _ [test, _] [] _ _ _ _ elseReworks whole.holds whole.nodup
    refine ⟨_, whole.trans again, fun key value => ?_, fun world limit labels => ?_,
      ((Tree.AddsBreaks.refl [test]).append (thenBreaks.needs.append elseBreaks.needs)).clear rfl rfl⟩
    · have parts : ∀ left right : Tree, (Tree.node id (.conditionalStatement test.root (some first)
          (some second)) [test, left, right]).keyStatements key value =
          test.keyStatements key value ++ (left.keyStatements key value ++
            (right.keyStatements key value ++ [])) := fun _ _ => rfl
      show (Tree.node id _ [test, _, _]).keyStatements key value = _
      rw [parts, parts, thenBreaks.keys, elseBreaks.keys]
    · show Execution.test world test _ = seq (Execution.test world test _) _
      rw [seq_test]
      congr 1
      funext taken
      cases taken with
      | true => exact thenBreaks.run world limit []
      | false => exact elseBreaks.run world limit []

end Terminate

end Expansion

end Unflatten
