import Unflatten.Proofs.Dispatch.Expanding
import Unflatten.Proofs.Syntax.Climbing

/-! # What the case of a value does

The case of a value does what its dispatcher does for the value, up to the first end: where a
clause holds nothing but a `switch`, the clauses behind it are spilled, and the dispatcher runs
them after a normal end.  So a case is faithful exactly if what is spilled does nothing then. -/

set_option autoImplicit false

namespace Unflatten

open Execution

namespace Execution

/-- A behaviour does nothing after a normal end of another. -/
def Idle (first second : Behaviour) (state : State) : Prop :=
  ∀ after, first state = (.normal, after) → second after = (.normal, after)

theorem seq_eq_iff_idle (first second : Behaviour) (state : State) :
    seq first second state = first state ↔ Idle first second state := by
  unfold seq andThen Idle
  cases result : first state with
  | mk completion after =>
    cases completion
    case normal =>
      constructor
      · rintro same _ ⟨⟩
        exact same
      · intro idle
        exact idle after rfl
    all_goals exact ⟨(fun _ _ impossible => nomatch impossible), fun _ => rfl⟩

end Execution

namespace Expansion

/-- The statements of the case of a value; a value without a case has none. -/
structure IsCase (work : Expansion) (value : Int) (entry : List Tree) : Prop where
  slots : (work.cases[value]?).getD [] = entry.map Tree.root
  holds : ∀ tree ∈ entry, work.store.Holds tree
  nodup : (Tree.namesAll entry).Nodup

/-- Some statements do what a `switch` does from a state on. -/
def Faithful (world : World) (limit : Nat) (state : State) (tree : Tree) (entry : List Tree) : Prop :=
  run world limit tree [] state = inSwitch (runAll world limit entry) state

section Table
variable {size : Nat} {own : List Tree} {work : Expansion} {table : Table}

theorem IsTable.isCase (isTable : IsTable size own work table) (value : Int) :
    IsCase work value ((table value).getD []) := by
  cases set : table value with
  | none =>
    refine ⟨?_, (fun _ impossible => nomatch impossible), .nil⟩
    rw [isTable.cases, set]
    rfl
  | some entry =>
    refine ⟨?_, isTable.holds set, isTable.nodup set⟩
    rw [isTable.cases, set]
    rfl

end Table

/-- After an expansion, the case of a value does what the dispatcher does in every world that
knows the value, and then the dispatcher does what is spilled.  Other values have no case. -/
theorem expand_runs {store : Store} {key : DispatchKey} {tree prelude : Tree} {work : Expansion}
    {values : List Int} (holds : store.Holds tree) (nodup : tree.names.Nodup)
    (held : store.Holds prelude) (same : prelude.root = key.prelude)
    (aside : ∀ id ∈ tree.names, id ∉ prelude.names) (distinct : values.Nodup)
    (expanded : expand store key tree.root values = (work, none)) (value : Int) :
    (value ∉ values → work.cases[value]? = none) ∧
    (value ∈ values → ∃ entry left, IsCase work value entry ∧ Spills tree left ∧
      ∀ world limit state, Knows world state.log key.name prelude values value tree →
        run world limit tree [] state =
          seq (inSwitch (runAll world limit entry)) (spill world limit left) state ∧
        (Faithful world limit state tree entry ↔
          Idle (inSwitch (runAll world limit entry)) (spill world limit left) state)) := by
  obtain ⟨table, reworked, expands⟩ := expand_expands holds nodup held same aside distinct expanded
  constructor
  · intro outside
    rw [expands.isTable.cases, expands.frame value outside]
    rfl
  · intro inside
    obtain ⟨left, spills, runs⟩ := expands.runs value inside
    refine ⟨_, left, expands.isTable.isCase value, spills, fun world limit state knows => ?_⟩
    have does := runs world limit state knows
    refine ⟨does, ?_⟩
    unfold Faithful
    rw [does]
    exact seq_eq_iff_idle _ _ state

/-! ## A clause that holds nothing but a `switch` -/

/-- Every `switch` of a tree is on the key, and its labels are numbers. -/
def SelectsBy (key : String) (tree : Tree) : Prop :=
  ∀ {id slot slots discriminant clauses},
    Tree.Within (.node id (.switch slot slots) (discriminant :: clauses)) tree →
    (∃ name, discriminant = .node name (.identifier key) []) ∧
    ∀ {name slot' slots' label body}, .node name (.clause false slot' slots') (label :: body) ∈ clauses →
      ∃ place text number, label = .node place (.literal .number text (some number)) []

/-- A world in which every name has one value.  Nothing throws and every test holds. -/
def nameWorld (value : Int) : World where
  throws _ _ := false
  holds _ _ := true
  known? _ tree :=
    match tree with
    | .node _ (.identifier _) _ => some value
    | .node _ (.literal .number _ (some number)) _ => Number.safeInteger? number
    | _ => none
  update? _ := none

theorem nameWorld_knows {key : String} {tree : Tree} {value : Int} (values : List Int)
    (log : List Tree) (plain : SelectsBy key tree) (safe : value.natAbs < 2 * Number.implicitBit) :
    Knows (nameWorld value) log key .nothing values value tree := by
  constructor
  · intro id slot slots discriminant clauses selector within selects
    obtain ⟨⟨name, rfl⟩, _⟩ := plain within
    obtain ⟨before, after, _, ⟨_, _, bound⟩, store, holds, evaluated⟩ := selects
    cases bound
    rw [evaluateKey_bind before (holds.shape?.trans rfl) safe] at evaluated
    cases evaluated
    rfl
  · intro id slot slots discriminant clauses within name slot' slots' label body member selector denotes
    obtain ⟨place, text, number, rfl⟩ := (plain within).2 member
    obtain ⟨store, holds, evaluated⟩ := denotes
    rw [evaluateKey_number [] (holds.shape?.trans rfl), Value.toKey] at evaluated
    show Number.safeInteger? number = some selector
    cases read : Number.safeInteger? number with
    | none =>
      simp only [read] at evaluated
      cases evaluated
    | some other =>
      simp only [read] at evaluated
      cases evaluated
      rfl

/-- `switch (s) { case 0: switch (s) { case 0: x; break; } break; case 1: y; break; }`, or the
same without the `break` behind the inner `switch`. -/
def nestedSwitch (broken : Bool) : Store := ⟨#[
  ⟨.switch (some 1) [some 2, some 12], .none, 0, 0, none⟩,
  ⟨.identifier "s", .none, 0, 0, some 0⟩,
  ⟨.clause false (some 3) (some 4 :: if broken then [some 11] else []), .none, 0, 0, some 0⟩,
  ⟨.literal .number "0" (some 0.0), .none, 0, 0, some 2⟩,
  ⟨.switch (some 5) [some 6], .none, 0, 0, some 2⟩,
  ⟨.identifier "s", .none, 0, 0, some 4⟩,
  ⟨.clause false (some 7) [some 8, some 10], .none, 0, 0, some 4⟩,
  ⟨.literal .number "0" (some 0.0), .none, 0, 0, some 6⟩,
  ⟨.expressionStatement (some 9), .none, 0, 0, some 6⟩,
  ⟨.identifier "x", .none, 0, 0, some 8⟩,
  ⟨.jump .breaks none, .none, 0, 0, some 6⟩,
  ⟨.jump .breaks none, .none, 0, 0, some 2⟩,
  ⟨.clause false (some 13) [some 14, some 16], .none, 0, 0, some 0⟩,
  ⟨.literal .number "1" (some 1.0), .none, 0, 0, some 12⟩,
  ⟨.expressionStatement (some 15), .none, 0, 0, some 12⟩,
  ⟨.identifier "y", .none, 0, 0, some 14⟩,
  ⟨.jump .breaks none, .none, 0, 0, some 12⟩]⟩

/-- The dispatcher as a tree. -/
def nestedTree (broken : Bool) : Tree :=
  .node 0 (.switch (some 1) [some 2, some 12]) [
    .node 1 (.identifier "s") [],
    .node 2 (.clause false (some 3) (some 4 :: if broken then [some 11] else [])) (
      .node 3 (.literal .number "0" (some 0.0)) [] ::
      .node 4 (.switch (some 5) [some 6]) [
        .node 5 (.identifier "s") [],
        .node 6 (.clause false (some 7) [some 8, some 10]) [
          .node 7 (.literal .number "0" (some 0.0)) [],
          .node 8 (.expressionStatement (some 9)) [.node 9 (.identifier "x") []],
          .node 10 (.jump .breaks none) [.nothing]]] ::
      if broken then [.node 11 (.jump .breaks none) [.nothing]] else []),
    .node 12 (.clause false (some 13) [some 14, some 16]) [
      .node 13 (.literal .number "1" (some 1.0)) [],
      .node 14 (.expressionStatement (some 15)) [.node 15 (.identifier "y") []],
      .node 16 (.jump .breaks none) [.nothing]]]

/-- The key of the dispatcher, with the values 0 and 1. -/
def nestedKey : DispatchKey := ⟨"s", 0, 0, none, 0, 0, [], ∅, [], none, false⟩

/-- The expansion of the dispatcher. -/
def nestedWork (broken : Bool) : Expansion :=
  (expand (nestedSwitch broken) nestedKey (nestedTree broken).root [0, 1]).1

theorem nestedTree_holds (broken : Bool) : (nestedSwitch broken).Holds (nestedTree broken) := by
  cases broken
  · exact (@Store.treeAt_isGrown _ 8 (some 0) (by decide)).1
  · exact (@Store.treeAt_isGrown _ 8 (some 0) (by decide)).1

theorem nestedTree_selectsBy (broken : Bool) : SelectsBy "s" (nestedTree broken) := by
  intro id slot slots discriminant clauses within
  have outerOrInner : discriminant = .node 1 (.identifier "s") [] ∧
        clauses = (nestedTree broken).parts.tail ∨
      discriminant = .node 5 (.identifier "s") [] ∧
        clauses = [.node 6 (.clause false (some 7) [some 8, some 10]) [
          .node 7 (.literal .number "0" (some 0.0)) [],
          .node 8 (.expressionStatement (some 9)) [.node 9 (.identifier "x") []],
          .node 10 (.jump .breaks none) [.nothing]]] := by
    cases broken
    · simp [nestedTree, Store.within_node_iff, Store.within_nothing_iff] at within
      grind [Tree.parts, nestedTree]
    · simp [nestedTree, Store.within_node_iff, Store.within_nothing_iff] at within
      grind [Tree.parts, nestedTree]
  rcases outerOrInner with ⟨rfl, rfl⟩ | ⟨rfl, rfl⟩
  · refine ⟨⟨1, rfl⟩, fun member => ?_⟩
    simp [Tree.parts, nestedTree] at member
    rcases member with ⟨-, -, rfl, -⟩ | ⟨-, -, rfl, -⟩
    · exact ⟨3, "0", 0.0, rfl⟩
    · exact ⟨13, "1", 1.0, rfl⟩
  · refine ⟨⟨5, rfl⟩, fun member => ?_⟩
    simp at member
    obtain ⟨-, -, rfl, -⟩ := member
    exact ⟨7, "0", 0.0, rfl⟩

theorem nested_expanded (broken : Bool) :
    expand (nestedSwitch broken) nestedKey (nestedTree broken).root [0, 1] =
      (nestedWork broken, none) := by
  refine Prod.ext (by rw [nestedWork]) ?_
  cases broken
  · decide +kernel
  · decide +kernel

/-- With a `break` behind the inner `switch`, the world that knows 0 decides the dispatcher. -/
theorem nested_switch_runs :
    (nestedSwitch true).Holds (nestedTree true) ∧ (nestedTree true).names.Nodup ∧
      expand (nestedSwitch true) nestedKey (nestedTree true).root [0, 1] = (nestedWork true, none) ∧
      Knows (nameWorld 0) [] "s" .nothing [0, 1] 0 (nestedTree true) ∧
      ∃ entry left, IsCase (nestedWork true) 0 entry ∧ Spills (nestedTree true) left ∧
        run (nameWorld 0) 0 (nestedTree true) [] ⟨[], []⟩ =
          seq (inSwitch (runAll (nameWorld 0) 0 entry)) (spill (nameWorld 0) 0 left) ⟨[], []⟩ ∧
        (Faithful (nameWorld 0) 0 ⟨[], []⟩ (nestedTree true) entry ↔
          Idle (inSwitch (runAll (nameWorld 0) 0 entry)) (spill (nameWorld 0) 0 left) ⟨[], []⟩) := by
  have holds := nestedTree_holds true
  have nodup : (nestedTree true).names.Nodup := by decide
  have knows : Knows (nameWorld 0) [] "s" .nothing [0, 1] 0 (nestedTree true) :=
    nameWorld_knows [0, 1] [] (nestedTree_selectsBy true) (by decide)
  have expanded := nested_expanded true
  obtain ⟨entry, left, isCase, spills, runs⟩ :=
    (expand_runs holds nodup .nothing rfl (fun _ _ => List.not_mem_nil) (by decide) expanded 0).2
      (by decide)
  exact ⟨holds, nodup, expanded, knows, entry, left, isCase, spills,
    runs (nameWorld 0) 0 ⟨[], []⟩ knows⟩

/-- Without it the dispatcher does `x` and then `y`, while the case does `x` only. -/
theorem nested_switch_falls_through :
    ∃ entry, expand (nestedSwitch false) nestedKey (nestedTree false).root [0, 1] =
        (nestedWork false, none) ∧
      Knows (nameWorld 0) [] "s" .nothing [0, 1] 0 (nestedTree false) ∧
      IsCase (nestedWork false) 0 entry ∧
      ¬ Faithful (nameWorld 0) 0 ⟨[], []⟩ (nestedTree false) entry := by
  have grown : ∀ slot : Slot, (nestedWork false).store.isGrown 4 slot = true →
      (nestedWork false).store.Holds ((nestedWork false).store.treeAt 4 slot) :=
    fun _ grown => (Store.treeAt_isGrown grown).1
  refine ⟨[some 8, some 10].map ((nestedWork false).store.treeAt 4), nested_expanded false,
    nameWorld_knows [0, 1] [] (nestedTree_selectsBy false) (by decide), ⟨?_, ?_, ?_⟩, ?_⟩
  · decide +kernel
  · intro tree member
    simp only [List.map_cons, List.map_nil, List.mem_cons, List.not_mem_nil, or_false] at member
    rcases member with same | same
    · rw [same]
      exact grown (some 8) (by decide +kernel)
    · rw [same]
      exact grown (some 10) (by decide +kernel)
  · decide +kernel
  · intro same
    have lengths := congrArg (fun outcome => outcome.2.log.length) same
    exact absurd lengths (by decide +kernel)

end Expansion

end Unflatten
