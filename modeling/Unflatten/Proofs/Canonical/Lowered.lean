import Unflatten.Proofs.Canonical.Normalizing
import Unflatten.Proofs.Canonical.Preserving
import Unflatten.Proofs.Parser.Grammar

/-! # Lowered programs do the same

The rules that lower statements leave every program with the same conduct, whatever engine runs it.
Two of them ask for something: no `void` may stand where more than its value is asked for, as behind
`delete`, and no block that is spliced may have functions of its own. -/

set_option autoImplicit false

namespace Unflatten

namespace Tree.Placed

/-- What holds between two parts, and between nodes of one shape over such parts, holds between the
trees around them. -/
theorem fold_carries {α : Type} {nothing : α} {node : Shape → List α → α} {related : α → α → Prop}
    (carries : ∀ shape front back new part, related new part →
      related (node shape (front ++ new :: back)) (node shape (front ++ part :: back)))
    {part new whole result : Tree} (placed : Placed part new whole result)
    (here : related (new.fold nothing node) (part.fold nothing node)) :
    related (result.fold nothing node) (whole.fold nothing node) := by
  induction placed with
  | here => exact here
  | deeper _ same ih =>
    rw [fold_node, fold_node, same, List.map_append, List.map_cons, List.map_append, List.map_cons]
    exact carries _ _ _ _ _ ih

end Tree.Placed

/-! ## Where the rules may go -/

namespace Canonical

/-- Whether a tree is a `void`, and whether no `void` in it stands where more than a value is asked
for. -/
structure Voids where
  isVoid : Bool
  fits : Bool

namespace Voids

/-- No `void` stands where more than a value is asked for. -/
def allFit (shape : Shape) : (before : Nat) → List Voids → Bool
  | _, [] => true
  | before, part :: rest =>
    part.fits && (!part.isVoid || shape.request before != .whole) && allFit shape (before + 1) rest

def node (shape : Shape) (parts : List Voids) : Voids where
  isVoid := match shape with
    | .unary false .voidKeyword _ => true
    | _ => false
  fits := allFit shape 0 parts

/-- What may take the place of a part: it fits if the part does, and is a `void` then if the part is. -/
def Follows (new part : Voids) : Prop :=
  part.fits = true → new.fits = true ∧ new.isVoid = part.isVoid

section Fitting
variable {shape : Shape} {new part : Voids} {front back : List Voids} {before : Nat}

theorem allFit_middle : allFit shape before (front ++ part :: back) = true ↔
    allFit shape before front = true ∧
      (part.fits = true ∧ (part.isVoid = true → shape.request (before + front.length) ≠ .whole)) ∧
      allFit shape (before + front.length + 1) back = true := by
  induction front generalizing before with
  | nil =>
    simp only [List.nil_append, allFit, Bool.and_eq_true, Bool.or_eq_true, Bool.not_eq_true', bne_iff_ne,
      List.length_nil, Nat.add_zero, true_and]
    cases part.isVoid <;> simp
  | cons first rest ih =>
    simp only [List.cons_append, allFit, Bool.and_eq_true, ih, List.length_cons]
    rw [Nat.add_right_comm before 1, Nat.add_assoc before rest.length 1]
    simp only [and_assoc]

/-- Something else may take the place of a part if it is no `void`, or if no more than a value is
asked for. -/
theorem follows_of_apart (fit : part.fits = true → new.fits = true)
    (apart : new.isVoid = true → shape.request front.length ≠ .whole) :
    Follows (node shape (front ++ new :: back)) (node shape (front ++ part :: back)) := by
  intro fits
  obtain ⟨before, ⟨here, -⟩, behind⟩ := allFit_middle.mp fits
  rw [← Nat.zero_add front.length] at apart
  exact ⟨allFit_middle.mpr ⟨before, ⟨fit here, apart⟩, behind⟩, rfl⟩

theorem Follows.node (follows : Follows new part) :
    Follows (node shape (front ++ new :: back)) (node shape (front ++ part :: back)) := by
  intro fits
  obtain ⟨before, ⟨here, asked⟩, behind⟩ := allFit_middle.mp fits
  obtain ⟨fit, same⟩ := follows here
  exact ⟨allFit_middle.mpr ⟨before, ⟨fit, fun isVoid => asked (same ▸ isVoid)⟩, behind⟩, rfl⟩

end Fitting

end Voids

/-- Whether a statement adds functions to the list it stands in, whether it is a block with functions
of its own, and whether no such block in it stands in a list. -/
structure Blocks where
  adds : Bool
  opens : Bool
  fits : Bool

namespace Blocks

def node (shape : Shape) (parts : List Blocks) : Blocks where
  adds := match shape with
    | .function false _ _ _ => true
    | .labeled _ _ | .clause _ _ _ => parts.any (·.adds)
    | _ => false
  opens := shape.isBlock && parts.any (·.adds)
  fits := parts.all fun part => part.fits && !(shape.isList && part.opens)

/-- What may take the place of a part: it fits if the part does, and then looks the same from around. -/
def Follows (new part : Blocks) : Prop :=
  part.fits = true → new.fits = true ∧ new.adds = part.adds ∧ new.opens = part.opens

theorem Follows.node {shape : Shape} {new part : Blocks} {front back : List Blocks}
    (follows : Follows new part) :
    Follows (node shape (front ++ new :: back)) (node shape (front ++ part :: back)) := by
  intro fits
  simp only [Blocks.node, List.all_append, List.all_cons, Bool.and_eq_true] at fits
  obtain ⟨before, ⟨here, apart⟩, behind⟩ := fits
  obtain ⟨fit, adds, opens⟩ := follows here
  refine ⟨?_, ?_, ?_⟩
  · simp only [Blocks.node, List.all_append, List.all_cons, Bool.and_eq_true, opens]
    exact ⟨before, ⟨fit, apart⟩, behind⟩
  · simp only [Blocks.node, List.any_append, List.any_cons, adds]
  · simp only [Blocks.node, List.any_append, List.any_cons, adds]

end Blocks

end Canonical

namespace Tree

/-- No `void` in the tree stands where more than a value is asked for. -/
def voids (tree : Tree) : Canonical.Voids := tree.fold ⟨false, true⟩ Canonical.Voids.node

/-- No block in a list of the tree has functions of its own. -/
def blocks (tree : Tree) : Canonical.Blocks := tree.fold ⟨false, false, true⟩ Canonical.Blocks.node

section Parts
variable {part new whole result : Tree}

theorem Placed.voids_fit (placed : Placed part new whole result) (fits : whole.voids.fits = true) :
    part.voids.fits = true := by
  induction placed with
  | here => exact fits
  | deeper _ _ ih =>
    rw [voids, fold_node, List.map_append, List.map_cons] at fits
    exact ih (Canonical.Voids.allFit_middle.mp fits).2.1.1

theorem Placed.blocks_fit (placed : Placed part new whole result) (fits : whole.blocks.fits = true) :
    part.blocks.fits = true := by
  induction placed with
  | here => exact fits
  | deeper _ _ ih =>
    rw [blocks, fold_node, List.map_append, List.map_cons] at fits
    simp only [Canonical.Blocks.node, List.all_append, List.all_cons, Bool.and_eq_true] at fits
    exact ih fits.2.1.1

end Parts

section Suits
variable (id : NodeId) (shape : Shape) (below : List Tree)

theorem voids_node : (node id shape below).voids = .node (shape.withSlots []) (below.map voids) :=
  fold_node _ _ id shape below

theorem blocks_node : (node id shape below).blocks = .node (shape.withSlots []) (below.map blocks) :=
  fold_node _ _ id shape below

end Suits

end Tree

namespace Execution.Engine

theorem functions_eq_nil {m : Type → Type} {ν : Type} [Monad m] {engine : Engine m ν} {tree : Tree}
    (none : tree.blocks.adds = false) : (engine.conduct tree).functions = [] := by
  induction tree with
  | nothing => rfl
  | node id shape below ih =>
    rw [Tree.blocks_node] at none
    rw [conduct_node]
    have parts (each : (below.map Tree.blocks).any (·.adds) = false) :
        ∀ tree ∈ below, (engine.conduct tree).functions = [] := by
      intro tree member
      refine ih tree member ?_
      rw [List.any_map, List.any_eq_false] at each
      exact Bool.eq_false_iff.mpr (each tree member)
    cases shape
    case function isExpression _ _ _ =>
      cases isExpression with
      | false => cases none
      | true => rfl
    case labeled =>
      refine List.flatMap_eq_nil_iff.mpr fun conduct member => ?_
      obtain ⟨tree, inside, rfl⟩ := List.mem_map.mp member
      exact parts none tree inside
    case clause =>
      refine List.flatMap_eq_nil_iff.mpr fun conduct member => ?_
      obtain ⟨tree, inside, rfl⟩ := List.mem_map.mp (List.mem_of_mem_tail member)
      exact parts none tree inside
    all_goals rfl

end Execution.Engine

namespace Rule

/-- The rules that lower statements. -/
def isLowering : Rule → Bool
  | .conditionalAssign | .switchCase | .inlineCall => false
  | _ => true

/-- What a rule asks of the trees that it changes. -/
def Suits : Rule → Tree → Prop
  | .removeVoid, tree => tree.voids.fits = true
  | .flattenBlock, tree => tree.blocks.fits = true
  | _, _ => True

end Rule

namespace Canonical

open Execution

section Steps
variable {store : Store} {rule : Rule} {part new : Tree} {m : Type → Type} {ν : Type} [Monad m]
  [LawfulMonad m] {engine : Engine m ν}

theorem Rewrites.conduct_eq (rewrites : Rewrites store rule part new) (lowers : rule.isLowering = true)
    (suits : rule.Suits part) (lawful : engine.IsLawful) : engine.conduct new = engine.conduct part := by
  cases rewrites with
  | undefined primitive _ same =>
    refine Engine.undefined_conduct lawful primitive same ?_
    rw [Rule.Suits, Tree.voids_node, List.map_append, List.map_cons] at suits
    have asked := (Voids.allFit_middle.mp suits).2.1.2 rfl
    rwa [Nat.zero_add, List.length_map] at asked
  | dropped wasted same => exact Engine.dropped_conduct wasted same
  | assigned => cases lowers
  | chosen => exact Engine.chosen_conduct lawful _ _ _
  | conjoined _ => exact Engine.conjoined_conduct lawful _ _
  | itemized _ each => exact Engine.itemized_conduct lawful each
  | wrapped isBody noBlock same => exact Engine.wrapped_conduct isBody noBlock same
  | emptied isBody same => exact Engine.emptied_conduct isBody same
  | led _ isLed leads inList split gathered same still =>
    subst split
    exact Engine.led_conduct isLed leads inList gathered same still
  | single _ isLed still => exact Engine.single_conduct isLed still
  | turned mirrors => exact Engine.turned_conduct lawful mirrors
  | gathered => cases lowers
  | called => cases lowers
  | @spliced id shape changed statements isList any blocks same =>
    refine Engine.spliced_conduct lawful isList blocks (fun name inner below member isBlock => ?_) same
    rw [Rule.Suits, Tree.blocks_node] at suits
    simp only [Blocks.node, List.all_map, List.all_eq_true, Function.comp_apply, Bool.and_eq_true,
      Shape.isList_withSlots, isList, Bool.true_and, Bool.not_eq_true'] at suits
    have closed := (suits _ member).2
    rw [Tree.blocks_node] at closed
    simp only [Blocks.node, Shape.isBlock_withSlots, isBlock, Bool.true_and, List.any_map,
      List.any_eq_false, Function.comp_apply, Bool.not_eq_true] at closed
    refine List.flatMap_eq_nil_iff.mpr fun conduct inside => ?_
    obtain ⟨tree, there, rfl⟩ := List.mem_map.mp inside
    exact Engine.functions_eq_nil (closed tree there)

theorem Rewrites.voids_follow (rewrites : Rewrites store .removeVoid part new) :
    Voids.Follows new.voids part.voids := by
  cases rewrites with
  | undefined _ _ same =>
    rw [Tree.voids_node, Tree.voids_node, same, List.map_append, List.map_append]
    exact Voids.follows_of_apart (fun _ => rfl) fun isVoid => by cases isVoid
  | @dropped above id outer changed front back operand wasted same =>
    rw [← outer.wastes_withSlots [], ← List.length_map Tree.voids] at wasted
    rw [Tree.voids_node, Tree.voids_node, same, List.map_append, List.map_append]
    refine Voids.follows_of_apart (fun fits => ?_) fun _ => ?_
    · rw [Tree.voided, Tree.voids_node] at fits
      exact (@Voids.allFit_middle _ operand.voids [] [] 0 |>.mp fits).2.1.1
    · rcases Engine.request_of_wastes wasted with asked | ⟨asked, -⟩
      · rw [asked]
        exact fun whole => by cases whole
      · rw [asked]
        exact fun whole => by cases whole
  | conjoined either | itemized either | led either | single either => rcases either with same | same <;> cases same

theorem Rewrites.blocks_follow (rewrites : Rewrites store .flattenBlock part new) :
    Blocks.Follows new.blocks part.blocks := by
  cases rewrites with
  | @spliced id shape changed statements isList any blocks same =>
    have isList' := (shape.isList_withSlots []).trans isList
    rw [Tree.blocks_node, Tree.blocks_node, same]
    intro fits
    simp only [Blocks.node, List.all_map, List.all_eq_true, Function.comp_apply, Bool.and_eq_true,
      isList', Bool.true_and, Bool.not_eq_true'] at fits
    -- what stands in the place of one statement
    have each : ∀ tree ∈ statements,
        (∀ part ∈ spread store tree, part.blocks.fits = true ∧ part.blocks.opens = false) ∧
          ((spread store tree).any fun part => part.blocks.adds) = tree.blocks.adds := by
      intro tree member
      have alone : (∀ part ∈ [tree], part.blocks.fits = true ∧ part.blocks.opens = false) ∧
          ([tree].any fun part => part.blocks.adds) = tree.blocks.adds :=
        ⟨fun part only => List.mem_singleton.mp only ▸ fits tree member, Bool.or_false _⟩
      cases tree with
      | nothing => exact alone
      | node name inner below =>
        rw [spread]
        split
        · rename_i splices
          have isBlock := blocks name inner below member splices
          obtain ⟨fit, closed⟩ := fits _ member
          cases inner
          case block slots =>
            rw [Tree.blocks_node] at fit closed ⊢
            simp only [Shape.withSlots, Blocks.node, Shape.isList, Shape.isBlock, Bool.true_and, List.all_map,
              List.all_eq_true, Function.comp_apply, Bool.and_eq_true, Bool.not_eq_true', List.any_map]
              at fit closed ⊢
            exact ⟨fit, closed⟩
          all_goals cases isBlock
        · exact alone
    have adds : ((statements.flatMap (spread store)).map Tree.blocks).any (·.adds) =
        (statements.map Tree.blocks).any (·.adds) := by
      rw [List.any_map, List.any_flatMap, List.any_map, Bool.eq_iff_iff, List.any_eq_true, List.any_eq_true]
      refine exists_congr fun tree => and_congr_right fun member => ?_
      exact iff_of_eq (congrArg (· = true) (each tree member).2)
    refine ⟨?_, ?_, ?_⟩
    · simp only [Blocks.node, List.all_map, List.all_eq_true, Function.comp_apply, Bool.and_eq_true,
        isList', Bool.true_and, Bool.not_eq_true', List.mem_flatMap]
      rintro part ⟨tree, member, inside⟩
      exact (each tree member).1 part inside
    · cases shape
      case file | block => rfl
      all_goals cases isList
    · exact congrArg ((shape.withSlots []).isBlock && ·) adds
  | conjoined either | itemized either | led either | single either => rcases either with same | same <;> cases same

end Steps

end Canonical

/-! ## Runs of a rule -/

open Execution

section Runs
variable {rule : Rule} {m : Type → Type} {ν : Type} [Monad m] [LawfulMonad m] {engine : Engine m ν}
  {tree remade : Tree}

theorem Rule.Turns.conduct_eq (turns : rule.Turns tree remade) (lowers : rule.isLowering = true)
    (suits : rule.Suits tree) (lawful : engine.IsLawful) :
    engine.conduct remade = engine.conduct tree ∧ rule.Suits remade := by
  obtain ⟨store, part, new, rewrites, placed⟩ := turns
  have inside : rule.Suits part := by
    cases rule with
    | removeVoid => exact placed.voids_fit suits
    | flattenBlock => exact placed.blocks_fit suits
    | _ => trivial
  have around : rule.Suits remade := by
    cases rule with
    | removeVoid =>
      have follows : Canonical.Voids.Follows remade.voids tree.voids :=
        placed.fold_carries (fun _ _ _ _ _ follows => follows.node) rewrites.voids_follow
      exact (follows suits).1
    | flattenBlock =>
      have follows : Canonical.Blocks.Follows remade.blocks tree.blocks :=
        placed.fold_carries (fun _ _ _ _ _ follows => follows.node) rewrites.blocks_follow
      exact (follows suits).1
    | _ => trivial
  exact ⟨placed.fold_eq _ _ (rewrites.conduct_eq lowers inside lawful), around⟩

theorem Rule.conduct_of_takes {before after : Store × Tree}
    (taken : Relation.ReflTransGen rule.Takes before after)
    (lowers : rule.isLowering = true) (suits : rule.Suits before.2) (lawful : engine.IsLawful) :
    engine.conduct after.2 = engine.conduct before.2 ∧ rule.Suits after.2 := by
  induction taken with
  | refl => exact ⟨rfl, suits⟩
  | tail _ step ih =>
    obtain ⟨same, suits⟩ := ih
    obtain ⟨also, suits⟩ := step.turns.conduct_eq lowers suits lawful
    exact ⟨also.trans same, suits⟩

end Runs

/-- A run of a rule that lowers statements leaves a program with the same conduct, whatever the
engine that runs it. -/
theorem Rule.run_conduct {rule : Rule} {m : Type → Type} {ν : Type} [Monad m] [LawfulMonad m]
    {store : Store} {root : NodeId} {tree : Tree} (stands : store.Stands root tree)
    (lowers : rule.isLowering = true) (suits : rule.Suits (store.treeAt store.depthBound (some root)))
    (journal : Journal) {engine : Engine m ν} (lawful : engine.IsLawful) :
    engine.conductAt (rule.run root (store, journal)).1.1 (some root) =
      engine.conductAt store (some root) := by
  obtain ⟨remade, remakes, taken, -⟩ := rule.run_turned (store, journal) tree stands
  rw [stands.treeAt_eq] at suits
  rw [Engine.conductAt, Engine.conductAt, stands.treeAt_eq, (stands.remade remakes).treeAt_eq]
  exact (Rule.conduct_of_takes taken lowers suits lawful).1

/-! ## An engine that counts calls -/

/-- The functions that are known by name, and how often one of them was called. -/
structure Record where
  known : List String
  calls : Nat

/-- An engine on which names are known where a function of that name is.  Zero stands for `undefined`
and `false`, and a call does nothing but count. -/
def recorder : Engine (StateM Record) Nat where
  machine := {
    read := fun place => match place with
      | .name "undefined" => pure 0
      | .name text => do
        let record ← get
        pure (if text ∈ record.known then 1 else 0)
      | .member _ _ => pure 0
    write := fun _ _ => pure ()
    key := fun _ => 0
    holds := fun value => value != 0
    isNullish := fun value => value == 0
    operate := fun _ left right => pure (left + right)
    nowhere := pure (.name "")
    other := fun _ _ => ⟨pure 0, pure (.name ""), none⟩ }
  undefined := 0
  literal _ := 1
  quiet _ := pure 0
  leave value := pure value
  enclose functions action := match functions with
    | [] => action
    | functions => do
      let before ← get
      set { before with known := functions.filterMap Prod.fst ++ before.known }
      action
      modify fun after => { after with known := before.known }
  other shape _ parts :=
    let value : StateM Record Nat := match shape, parts with
      | .call _ _ _, .callee function :: _ => do
        let (found, _) ← function
        if found ≠ 0 then modify fun record => { record with calls := record.calls + 1 }
        pure 0
      | .unary _ .deleteKeyword _, [.whole operand] =>
        if operand.refers then pure 0
        else do
          let _ ← operand.value
          pure 1
      | .file _ _, [.list functions action] => do
        modify fun record => { record with known := functions.filterMap Prod.fst ++ record.known }
        action
        pure 0
      | _, _ => pure 0
    ⟨⟨value, pure (.name ""), none⟩, false⟩

theorem recorder_isLawful : recorder.IsLawful where
  read_undefined := rfl
  quiet_undefined := rfl
  mirrors _ _ _ _ _ _ := congrArg pure (Nat.add_comm _ _)
  enclose_nil _ := rfl

/-- How often known functions are called when a program runs. -/
def recordedCalls (store : Store) (root : NodeId) : Nat :=
  ((recorder.conductAt store (some root)).value.run ⟨[], 0⟩).2.calls

/-- Each `void` of `f(void 0), void f();` may go. -/
theorem voids_go :
    let program := parse "f(void 0), void f(); f(); function f() { }".toList
    let later := Rule.removeVoid.run program.root (program.store, Journal.empty)
    Rule.removeVoid.Suits (program.store.treeAt program.store.depthBound (some program.root)) ∧
      later.2 = true ∧ recorder.conductAt later.1.1 (some program.root) =
        recorder.conductAt program.store (some program.root) := by
  intro program later
  obtain ⟨tree, stands⟩ := parse_stands "f(void 0), void f(); f(); function f() { }".toList
  obtain ⟨suits, changed⟩ :
      (program.store.treeAt program.store.depthBound (some program.root)).voids.fits = true ∧
        later.2 = true := by decide +kernel
  exact ⟨suits, changed, @Rule.run_conduct .removeVoid _ _ _ _ _ _ _ stands rfl suits Journal.empty _
    recorder_isLawful⟩

/-- Behind `delete` a `void` may not go: `delete undefined` is false. -/
theorem deleted_void_changes :
    let program := parse "if (delete void 0) { f(); } function f() { }".toList
    let later := Rule.removeVoid.run program.root (program.store, Journal.empty)
    later.2 = true ∧ recordedCalls program.store program.root = 1 ∧
      recordedCalls later.1.1 program.root = 0 := by
  decide +kernel

/-- A function of a block that is spliced is known before the block. -/
theorem spliced_function_changes :
    let program := parse "f(); { function f() { g(); } }".toList
    let later := Rule.flattenBlock.run program.root (program.store, Journal.empty)
    later.2 = true ∧ recordedCalls program.store program.root = 0 ∧
      recordedCalls later.1.1 program.root = 1 := by
  decide +kernel

end Unflatten
