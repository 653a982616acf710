import Unflatten.Evaluation.Evaluator
import Unflatten.Proofs.Dispatch.Endings
import Unflatten.Proofs.Dispatch.KeyStatements
import Unflatten.Proofs.Number.SafeInteger

/-! # The value of a tree

The evaluator looks at nothing but the tree below the expression, so an expression has the
same value in every store that holds the tree. -/

set_option autoImplicit false

namespace Unflatten

namespace Store

section Evaluate
variable {store later : Store} {tree : Tree}

/-- A slot of a held node stands for one of the trees below it. -/
theorem Holds.exists_part {shape : Shape} {slot : Slot} (holds : store.Holds tree)
    (found : tree.shape? = some shape) (member : slot ∈ shape.slots) :
    ∃ part ∈ tree.parts, part.root = slot := by
  rw [holds.slots found] at member
  exact List.mem_map.mp member

theorem foldlM_eq {α β ε : Type} {step step' : α → β → Except ε α} {items : List β}
    (each : ∀ item ∈ items, ∀ start, step start item = step' start item) (start : α) :
    items.foldlM step start = items.foldlM step' start := by
  induction items generalizing start with
  | nil => rfl
  | cons first rest ih =>
    rw [List.foldlM_cons, List.foldlM_cons, each first List.mem_cons_self start]
    congr 1
    funext next
    exact ih (fun item member => each item (List.mem_cons_of_mem first member)) next

theorem evaluateWithin_eq (holds : store.Holds tree) (also : later.Holds tree)
    (environment : Environment) (depth : Nat) :
    evaluateWithin store environment depth tree.root =
      evaluateWithin later environment depth tree.root := by
  induction depth generalizing tree environment with
  | zero => rfl
  | succ depth ih =>
    rw [evaluateWithin, evaluateWithin, holds.shape?, also.shape?]
    cases found : tree.shape? with
    | none => rfl
    | some shape =>
      have each : ∀ slot ∈ shape.slots, evaluateWithin store environment depth slot =
          evaluateWithin later environment depth slot := by
        intro slot member
        obtain ⟨part, there, rfl⟩ := holds.exists_part found member
        exact ih (holds.part there) (also.part there) environment
      have named : ∀ slot ∈ shape.slots, store.identifier? slot = later.identifier? slot := by
        intro slot member
        obtain ⟨part, there, rfl⟩ := holds.exists_part found member
        rw [(holds.part there).identifier?, (also.part there).identifier?]
      cases shape
      case unary after operator operand =>
        have inside : operand ∈ (Shape.unary after operator operand).slots := List.mem_cons_self
        cases after with
        | true => rfl
        | false => simp only [each operand inside, named operand inside]
      case binary left operator right =>
        have first := each left List.mem_cons_self
        have second := each right (List.mem_cons_of_mem _ List.mem_cons_self)
        simp only [first, second]
      case conditional condition whenTrue whenFalse =>
        simp only [each condition (by simp [Shape.slots]), each whenTrue (by simp [Shape.slots]),
          each whenFalse (by simp [Shape.slots])]
      case elements kind items =>
        cases kind
        case sequence => exact foldlM_eq (fun item member _ => each item member) .undefined
        all_goals rfl
      case literal kind text value? => cases kind <;> cases value? <;> rfl
      case token kind => cases kind <;> rfl
      all_goals rfl

theorem evaluateKey_eq (holds : store.Holds tree) (also : later.Holds tree)
    (environment : Environment) :
    evaluateKey store environment tree.root = evaluateKey later environment tree.root := by
  unfold evaluateKey evaluate
  rw [evaluateWithin_eq holds also]

theorem bindDeclarations_eq {declarations : List Tree}
    (holds : ∀ declaration ∈ declarations, store.Holds declaration)
    (also : ∀ declaration ∈ declarations, later.Holds declaration) (environment : Environment) :
    bindDeclarations store (declarations.map Tree.root) environment =
      bindDeclarations later (declarations.map Tree.root) environment := by
  induction declarations generalizing environment with
  | nil => rfl
  | cons first rest ih =>
    have here := holds first List.mem_cons_self
    have there := also first List.mem_cons_self
    have others := ih (fun declaration member => holds declaration (List.mem_cons_of_mem first member))
      fun declaration member => also declaration (List.mem_cons_of_mem first member)
    rw [List.map_cons, bindDeclarations, bindDeclarations, here.shape?, there.shape?]
    cases found : first.shape? with
    | none => rfl
    | some shape =>
      cases shape
      case declaration name initializer =>
        obtain ⟨left, nameBelow, rfl⟩ := here.exists_part found List.mem_cons_self
        obtain ⟨right, valueBelow, rfl⟩ :=
          here.exists_part found (List.mem_cons_of_mem _ List.mem_cons_self)
        have values : evaluate store environment right.root = evaluate later environment right.root :=
          evaluateWithin_eq (here.part valueBelow) (there.part valueBelow) _ _
        simp only [(here.part nameBelow).identifier?, (there.part nameBelow).identifier?, values,
          others]
      all_goals rfl

theorem evaluateDeclarations_eq (holds : store.Holds tree) (also : later.Holds tree)
    (environment : Environment) :
    evaluateDeclarations store environment tree.root =
      evaluateDeclarations later environment tree.root := by
  unfold evaluateDeclarations declarations?
  rw [holds.shape?, also.shape?]
  cases found : tree.shape? with
  | none => rfl
  | some shape =>
    cases shape
    case declarationList isStatement declarations =>
      have slots : declarations = tree.parts.map Tree.root := holds.slots found
      subst slots
      exact bindDeclarations_eq (fun part member => holds.part member)
        (fun part member => also.part member) environment
    all_goals rfl

end Evaluate

end Store

/-- A name has the value that it was bound to last. -/
theorem evaluateKey_bind {store : Store} {expression : Slot} {name : String} {value : Int}
    (environment : Environment) (named : store.shape? expression = some (.identifier name))
    (safe : value.natAbs < 2 * Number.implicitBit) :
    evaluateKey store (environment.bind name (Value.ofInt value)) expression = .ok value := by
  have evaluated : evaluate store (environment.bind name (Value.ofInt value)) expression =
      .ok (.number (Float.ofInt value)) := by
    simp [evaluate, maxEvaluationDepth, evaluateWithin, named, Environment.evaluateName,
      Environment.value?, Environment.bind, Value.ofInt]
  simp only [evaluateKey, evaluated, Except.bind, Value.toKey, Number.safeInteger?_ofInt value safe]

/-- A number is its own value. -/
theorem evaluateKey_number {store : Store} {expression : Slot} {text : String} {number : Float}
    (environment : Environment)
    (written : store.shape? expression = some (.literal .number text (some number))) :
    evaluateKey store environment expression = (Value.number number).toKey := by
  have evaluated : evaluate store environment expression = .ok (.number number) := by
    simp only [evaluate, maxEvaluationDepth, evaluateWithin, written]
  simp only [evaluateKey, evaluated, Except.bind]

end Unflatten
