import Unflatten.Proofs.Canonical.Blocks

/-! # The canonical form leaves programs standing

What each rule keeps for one node is kept by a walk over all nodes, by the repeated walks of a
rule and by the rounds of all rules. -/

set_option autoImplicit false

namespace Unflatten

open Store

/-! ## Runs of steps -/

open Relation

/-- A program has been remade by steps, by one at least if there is a change that was not there
before. -/
def Turned {α : Type} (steps : Store × Tree → Store × Tree → Prop) (program : α → Store) (state : α)
    (tree : Tree) (changed : Bool) (result : α × Bool) : Prop :=
  ∃ remade, Remakes (program state) (program result.1) tree remade [] ∧
    ReflTransGen steps (program state, tree) (program result.1, remade) ∧
    (result.2 = true → changed = true ∨ TransGen steps (program state, tree) (program result.1, remade))

section Turned
variable {α β : Type} {steps more : Store × Tree → Store × Tree → Prop} {program : α → Store}
  {root : NodeId} {state : α} {tree : Tree} {changed : Bool} {result : α × Bool}

theorem Turned.remade (turned : Turned steps program state tree changed result) :
    (program state).Remade (program result.1) tree := by
  obtain ⟨remade, remakes, -⟩ := turned
  exact ⟨remade, remakes⟩

theorem Turned.mono (turned : Turned steps program state tree changed result)
    (also : ∀ before after, steps before after → more before after) :
    Turned more program state tree changed result := by
  obtain ⟨remade, remakes, taken, flag⟩ := turned
  exact ⟨remade, remakes, ReflTransGen.mono also _ _ taken,
    fun changes => (flag changes).imp_right (TransGen.mono also _ _)⟩

theorem Turned.unchanged (stands : (program state).Stands root tree) :
    Turned steps program state tree changed (state, changed) :=
  ⟨tree, .refl stands.holds stands.nodup, .refl, .inl⟩

theorem foldl_turned {step : α × Bool → β → α × Bool}
    (each : ∀ state changed item tree, (program state).Stands root tree →
      Turned steps program state tree changed (step (state, changed) item))
    (items : List β) (state : α) (changed : Bool) (tree : Tree)
    (stands : (program state).Stands root tree) :
    Turned steps program state tree changed (items.foldl step (state, changed)) := by
  induction items generalizing state changed tree with
  | nil => exact .unchanged stands
  | cons item rest ih =>
    obtain ⟨remade, remakes, taken, first⟩ := each state changed item tree stands
    obtain ⟨final, others, later, flag⟩ := ih _ (step (state, changed) item).2 remade
      (stands.remade remakes)
    refine ⟨final, remakes.trans others, taken.trans later, fun changes => ?_⟩
    rcases flag changes with earlier | turns
    · exact (first earlier).imp_right (·.trans_left later)
    · exact .inr (turns.trans_right taken)

theorem untilStable_turned {step : α → α × Bool}
    (each : ∀ state tree, (program state).Stands root tree →
      Turned steps program state tree false (step state))
    (limit : Nat) (state : α) (tree : Tree) (stands : (program state).Stands root tree) :
    Turned steps program state tree false (untilStable step limit state) := by
  induction limit generalizing state tree with
  | zero => exact .unchanged stands
  | succ limit ih =>
    obtain ⟨remade, remakes, taken, first⟩ := each state tree stands
    rw [untilStable]
    simp only
    split
    · rename_i changes
      obtain ⟨final, others, later, -⟩ := ih (step state).1 remade (stands.remade remakes)
      exact ⟨final, remakes.trans others, taken.trans later,
        fun _ => (first changes).imp_right (·.trans_left later)⟩
    · exact ⟨remade, remakes, taken, fun impossible => by cases impossible⟩

end Turned

/-! ## Rules -/

namespace Rule

variable {store : Store} {root id : NodeId} {tree : Tree} {rule : Rule}

open Canonical in
/-- What is true of a node at which a rule has nothing to change. -/
def IsSettled (store : Store) (id : NodeId) : Rule → Prop
  | .conditionalIf => isExpressionStatement store (store.parent (some id)) = true →
      ∀ condition whenTrue whenFalse,
        store.shape? (some id) ≠ some (.conditional condition whenTrue whenFalse)
  | .logicalIf => isExpressionStatement store (store.parent (some id)) = true →
      ∀ left right, binary? store (some id) ≠ some (left, .ampersandAmpersand, right)
  | .sequence => isExpressionStatement store (store.parent (some id)) = true →
      sequenceItems? store (some id) = none
  | .ifBody => ∀ shape, store.shape? (some id) = some shape → ∀ body ∈ bodies shape,
      ∀ inner, store.shape? body = some inner → inner.isBlock = true
  | .ifTestSequence => (store.position? (some id)).isSome = true →
      ∀ test, test? store (some id) = some test → sequenceItems? store test = none
  | .returnSequence => (store.position? (some id)).isSome = true →
      ∀ value, store.shape? (some id) = some (.exit .returns value) →
        sequenceItems? store value = none
  | .switchCase => ∀ isDefault label statements,
      store.shape? (some id) = some (.clause isDefault label statements) →
      ∃ block, statements = [block] ∧ store.satisfies block Shape.isBlock = true
  | .flattenBlock => ∀ shape statements, store.shape? (some id) = some shape →
      shape.isList = true → shape.statements? = some statements →
      ∀ statement ∈ statements, isSpliceable store statement = false
  | .removeVoid | .conditionalAssign | .ifTestBinary | .inlineCall => True

theorem rewrite_taken (rule : Rule) (stands : store.Stands root tree) (inside : id ∈ tree.names) :
    store.Taken (rule.rewrite store id) tree rule (rule.IsSettled store id) := by
  have descends := rule.descends_rewrite store id
  cases rule with
  | removeVoid => exact (Canonical.removeVoid_reworked stands inside).taken descends
  | conditionalAssign => exact (Canonical.conditionalAssign_reworked stands inside).taken descends
  | conditionalIf => exact (Canonical.conditionalIf_reworked stands inside).taken descends
  | logicalIf => exact (Canonical.logicalIf_reworked stands inside).taken descends
  | ifBody => exact Canonical.ifBody_taken stands inside
  | ifTestSequence => exact (Canonical.ifTestSequence_reworked stands inside).taken descends
  | ifTestBinary => exact (Canonical.ifTestBinary_reworked stands inside).taken descends
  | switchCase => exact (Canonical.switchCase_reworked stands inside).taken descends
  | returnSequence => exact (Canonical.returnSequence_reworked stands inside).taken descends
  | sequence => exact (Canonical.sequence_reworked stands inside).taken descends
  | inlineCall => exact (Canonical.inlineCall_reworked stands inside).taken descends
  | flattenBlock => exact (Canonical.flattenBlock_reworked stands inside).taken descends

theorem remakes_of_takes {before after : Store × Tree} (taken : TransGen rule.Takes before after) :
    Remakes before.1 after.1 before.2 after.2 [] := by
  induction taken with
  | single step => exact step.remakes
  | tail _ step ih => exact ih.trans step.remakes

/-- A node that a rule has cut off in the meantime is not looked at. -/
theorem visit_turned (rule : Rule) (state : Store × Journal) (changed : Bool) (id : NodeId) (tree : Tree)
    (stands : state.1.Stands root tree) :
    Turned rule.Takes Prod.fst state tree changed (rule.visit root (state, changed) id) := by
  obtain ⟨store, journal⟩ := state
  unfold visit
  simp only
  split
  · rename_i attached
    rcases rule.rewrite_taken stands (stands.mem_of_isAttached attached) with
      ⟨remade, taken, outcome⟩ | ⟨same, outcome, -⟩
    · rw [outcome]
      exact ⟨remade, remakes_of_takes taken, taken.to_reflTransGen, fun _ => .inr taken⟩
    · have still (journal : Journal) : Turned rule.Takes Prod.fst (store, journal) tree changed
          (((rule.rewrite store id).1, journal), changed) := by
        rw [same]
        exact .unchanged stands
      split
      · exact still _
      · rename_i changes
        exact absurd changes outcome
      · exact still _
  · exact .unchanged stands

theorem walk_turned (rule : Rule) (state : Store × Journal) (tree : Tree)
    (stands : state.1.Stands root tree) : Turned rule.Takes Prod.fst state tree false (rule.walk root state) :=
  foldl_turned rule.visit_turned _ state false tree stands

theorem run_turned (rule : Rule) (state : Store × Journal) (tree : Tree)
    (stands : state.1.Stands root tree) : Turned rule.Takes Prod.fst state tree false (rule.run root state) :=
  untilStable_turned rule.walk_turned _ state tree stands

theorem run_remade (rule : Rule) (state : Store × Journal) (tree : Tree)
    (stands : state.1.Stands root tree) : state.1.Remade (rule.run root state).1.1 tree :=
  (rule.run_turned state tree stands).remade

end Rule

/-- A step of some rule has taken a program from one store to another. -/
def Canonical.Takes (before after : Store × Tree) : Prop :=
  ∃ rule : Rule, rule.Takes before after

theorem normalizeRound_turned {root : NodeId} (state : Store × Journal) (tree : Tree)
    (stands : state.1.Stands root tree) :
    Turned Canonical.Takes Prod.fst state tree false (normalizeRound root state) := by
  refine foldl_turned (fun state changed rule tree stands => ?_) Rule.all state false tree stands
  have turned : Turned Canonical.Takes Prod.fst state tree false (rule.run root state) :=
    (rule.run_turned state tree stands).mono fun _ _ step => ⟨rule, step⟩
  obtain ⟨remade, remakes, taken, flag⟩ := turned
  refine ⟨remade, remakes, taken, fun changes => ?_⟩
  rcases (Bool.or_eq_true _ _).mp changes with before | now
  · exact .inl before
  · exact .inr ((flag now).resolve_left Bool.false_ne_true)

theorem normalize_turned {root : NodeId} (state : Store × Journal) (tree : Tree)
    (stands : state.1.Stands root tree) :
    Turned Canonical.Takes Prod.fst state tree false (normalize root state) :=
  untilStable_turned normalizeRound_turned _ state tree stands

end Unflatten
