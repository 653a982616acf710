import Unflatten.Proofs.Evaluation.Denotation
import Unflatten.Proofs.Execution.Meaning

/-! # Evaluation in general

An `Interpreter` says how a result is given, how a name is found, and how one evaluation goes on
with the value of another.  `Tree.interpret` is one recursive definition of the value of an
expression for all of them.  It has no bound on the depth of its own; what an interpreter does when
an expression is entered is up to it.

A relation that two interpreters keep holds between what they make of an expression
(`Interpreter.Relates.node`), so what is said of all expressions is said with one look at the
operators. -/

set_option autoImplicit false

namespace Unflatten

/-- What it takes to evaluate expressions, where an evaluation is of a type `α`. -/
structure Interpreter (α : Type) where
  give : Except EvalError Value → α
  find : String → α
  /-- An evaluation that is done only if a name has a value; if not, its type is `undefined`. -/
  ifBound : String → α → α
  next : α → (Value → α) → α
  enter : α → α

/-- An expression as a part of another: its text if it is a name, and its evaluation. -/
structure Operand (α : Type) where
  name? : Option String
  run : α

namespace Interpreter

section Node
variable {α : Type} (interpreter : Interpreter α)

def refuse (what : String) : α := interpreter.give (.error (.unsupported what))

/-- Evaluates some expressions one after the other; the value is that of the last one. -/
def sequence : List (Operand α) → Value → α
  | [], last => interpreter.give (.ok last)
  | item :: rest, _ => interpreter.next item.run (sequence rest)

/-- Goes on with the value of the left operand. -/
def operate (operator : TokenKind) (right : α) (first : Value) : α :=
  match operator with
  | .ampersandAmpersand => if first.truthy then right else interpreter.give (.ok first)
  | .barBar => if first.truthy then interpreter.give (.ok first) else right
  | .questionQuestion =>
    match first with
    | .undefined | .null => right
    | _ => interpreter.give (.ok first)
  | .comma => right
  | _ => interpreter.next right fun second => interpreter.give (first.applyBinary operator second)

/-- Evaluates an expression by its parts. -/
def node (shape : Shape) (parts : List (Operand α)) : α :=
  match shape, parts with
  | .literal .number _ (some value), _ => interpreter.give (.ok (.number value))
  | .literal .number _ none, _ => interpreter.refuse "numeric literal"
  | .literal .string text _, _ => interpreter.give (.ok (.string text))
  | .token .trueKeyword, _ => interpreter.give (.ok (.boolean true))
  | .token .falseKeyword, _ => interpreter.give (.ok (.boolean false))
  | .token .nullKeyword, _ => interpreter.give (.ok .null)
  | .identifier name, _ => interpreter.find name
  | .unary false operator _, [operand] =>
    let applied := interpreter.next operand.run fun value =>
      interpreter.give (value.applyUnary operator)
    match operator, operand.name? with
    | .typeOfKeyword, some name => interpreter.ifBound name applied
    | _, _ => applied
  | .binary _ operator _, [left, right] =>
    if operator.isAssignment then interpreter.refuse "assignment"
    else interpreter.next left.run (interpreter.operate operator right.run)
  | .conditional _ _ _, [condition, yes, no] =>
    interpreter.next condition.run fun value => if value.truthy then yes.run else no.run
  | .elements .sequence _, items => interpreter.sequence items .undefined
  | .call _ _ _, _ => interpreter.refuse "call"
  | .access _ _ _, _ => interpreter.refuse "member access"
  | _, _ => interpreter.refuse "expression"

def expression (shape : Shape) (parts : List (Operand α)) : Operand α where
  name? := match shape with
    | .identifier text => some text
    | _ => none
  run := interpreter.enter (interpreter.node shape parts)

/-- Where there is no expression, there is nothing to evaluate. -/
def nothing : Operand α where
  name? := none
  run := interpreter.enter (interpreter.refuse "missing expression")

end Node

end Interpreter

/-- The evaluation of an expression. -/
def Tree.interpret {α : Type} (interpreter : Interpreter α) (tree : Tree) : α :=
  (tree.fold interpreter.nothing interpreter.expression).run

/-- Some expressions as parts of another, evaluated in some way. -/
def Tree.operands {α : Type} (run : Tree → α) (below : List Tree) : List (Operand α) :=
  below.map fun part => ⟨part.name?, run part⟩

section Interpret
variable {α : Type} (interpreter : Interpreter α)

theorem Interpreter.node_withSlots (shape : Shape) (slots : List Slot) (parts : List (Operand α)) :
    interpreter.node (shape.withSlots slots) parts = interpreter.node shape parts := by
  cases shape
  case literal kind text value => cases kind <;> cases value <;> rfl
  case token kind => cases kind <;> rfl
  case unary isUpdateAfter operator operand =>
    cases isUpdateAfter with
    | true => rfl
    | false => rcases parts with _ | ⟨first, _ | ⟨second, rest⟩⟩ <;> rfl
  case binary => rcases parts with _ | ⟨first, _ | ⟨second, _ | ⟨third, rest⟩⟩⟩ <;> rfl
  case conditional =>
    rcases parts with _ | ⟨first, _ | ⟨second, _ | ⟨third, _ | ⟨fourth, rest⟩⟩⟩⟩ <;> rfl
  case elements kind items => cases kind <;> rfl
  all_goals rfl

theorem Tree.fold_expression (tree : Tree) :
    tree.fold interpreter.nothing interpreter.expression = ⟨tree.name?, tree.interpret interpreter⟩ := by
  cases tree with
  | nothing => rfl
  | node id shape below =>
    rw [interpret, fold_node]
    cases shape <;> rfl

theorem Tree.interpret_node (id : NodeId) (shape : Shape) (below : List Tree) :
    (Tree.node id shape below).interpret interpreter =
      interpreter.enter (interpreter.node shape (operands (interpret interpreter) below)) := by
  rw [interpret, fold_node, operands]
  change interpreter.enter (interpreter.node (shape.withSlots []) _) = _
  rw [interpreter.node_withSlots, List.map_congr_left fun part _ => part.fold_expression interpreter]

end Interpret

/-! ## Results of operators -/

/-- A result that does not come of a bound on the depth. -/
def IsUnlimited (result : Except EvalError Value) : Prop :=
  ∀ limit, result ≠ .error (.depthExceeded limit)

theorem isUnlimited_ok (value : Value) : IsUnlimited (.ok value) := fun _ => nofun

theorem isUnlimited_unsupported (what : String) : IsUnlimited (.error (.unsupported what)) :=
  fun _ => nofun

theorem Environment.isUnlimited_evaluateName (environment : Environment) (name : String) :
    IsUnlimited (environment.evaluateName name) := by
  unfold evaluateName
  split
  · exact isUnlimited_ok _
  · split <;> exact fun _ => nofun

theorem Value.isUnlimited_applyUnary (operator : TokenKind) (value : Value) :
    IsUnlimited (value.applyUnary operator) := by
  unfold applyUnary
  split <;> exact fun _ => nofun

theorem Value.isUnlimited_applyBinary (operator : TokenKind) (left right : Value) :
    IsUnlimited (left.applyBinary operator right) := by
  unfold applyBinary
  split <;> exact fun _ => nofun

/-! ## Interpreters that agree -/

namespace Interpreter

/-- Two interpreters that keep a relation, where only some names are looked up and no result comes of
a bound on the depth. -/
structure Relates {α β : Type} (relation : α → β → Prop) (known : String → Prop)
    (one : Interpreter α) (other : Interpreter β) : Prop where
  give : ∀ result, IsUnlimited result → relation (one.give result) (other.give result)
  find : ∀ name, known name → relation (one.find name) (other.find name)
  ifBound : ∀ name first second, known name → relation first second →
    relation (one.ifBound name first) (other.ifBound name second)
  next : ∀ first second goOn goOn', relation first second →
    (∀ value, relation (goOn value) (goOn' value)) →
      relation (one.next first goOn) (other.next second goOn')

section Relates
variable {α β : Type} {relation : α → β → Prop} {known : String → Prop} {one : Interpreter α}
  {other : Interpreter β}

theorem Relates.refuse (relates : Relates relation known one other) (what : String) :
    relation (one.refuse what) (other.refuse what) := relates.give _ (isUnlimited_unsupported what)

theorem Relates.answer (relates : Relates relation known one other) (value : Value) :
    relation (one.give (.ok value)) (other.give (.ok value)) := relates.give _ (isUnlimited_ok value)

theorem Relates.sequence (relates : Relates relation known one other) {run : Tree → α}
    {run' : Tree → β} (items : List Tree) (each : ∀ item ∈ items, relation (run item) (run' item))
    (last : Value) : relation (one.sequence (Tree.operands run items) last)
      (other.sequence (Tree.operands run' items) last) := by
  induction items generalizing last with
  | nil => exact relates.answer last
  | cons item rest ih =>
    exact relates.next _ _ _ _ (each item List.mem_cons_self) fun value =>
      ih (fun part member => each part (List.mem_cons_of_mem item member)) value

theorem Relates.operate (relates : Relates relation known one other) {right : α} {right' : β}
    (same : relation right right') (operator : TokenKind) (first : Value) :
    relation (one.operate operator right first) (other.operate operator right' first) := by
  unfold Interpreter.operate
  split
  · split
    · exact same
    · exact relates.answer first
  · split
    · exact relates.answer first
    · exact same
  · split
    · exact same
    · exact same
    · exact relates.answer first
  · exact same
  · exact relates.next _ _ _ _ same fun second =>
      relates.give _ (first.isUnlimited_applyBinary operator second)

/-- What is made of an expression is related if what is made of its parts is. -/
theorem Relates.node (relates : Relates relation known one other) {run : Tree → α} {run' : Tree → β}
    {shape : Shape} {below : List Tree} (each : ∀ part ∈ below, relation (run part) (run' part))
    (names : ∀ name, shape = .identifier name → known name)
    (partNames : ∀ part ∈ below, ∀ name, part.name? = some name → known name) :
    relation (one.node shape (Tree.operands run below)) (other.node shape (Tree.operands run' below)) := by
  have refused := relates.refuse "expression"
  cases shape
  case literal kind text value =>
    cases kind <;> cases value <;> first | exact relates.answer _ | exact relates.refuse _
  case token kind => cases kind <;> first | exact refused | exact relates.answer _
  case identifier name => exact relates.find name (names name rfl)
  case unary isUpdateAfter operator operand =>
    cases isUpdateAfter with
    | true => exact refused
    | false =>
      rcases below with _ | ⟨part, _ | ⟨second, rest⟩⟩
      · exact refused
      · have applied := relates.next _ _ _ _ (each part List.mem_cons_self) fun value =>
          relates.give _ (value.isUnlimited_applyUnary operator)
        cases operator
        case typeOfKeyword =>
          cases named : part.name? with
          | none => simpa only [Tree.operands, List.map_cons, List.map_nil, Interpreter.node, named]
              using applied
          | some name =>
            have asked := relates.ifBound name _ _ (partNames part List.mem_cons_self name named) applied
            simpa only [Tree.operands, List.map_cons, List.map_nil, Interpreter.node, named] using asked
        all_goals exact applied
      · exact refused
  case binary left operator right =>
    rcases below with _ | ⟨first, _ | ⟨second, _ | ⟨third, rest⟩⟩⟩
    · exact refused
    · exact refused
    · simp only [Tree.operands, List.map_cons, List.map_nil, Interpreter.node]
      split
      · exact relates.refuse _
      · exact relates.next _ _ _ _ (each first List.mem_cons_self) fun value =>
          relates.operate (each second (List.mem_cons_of_mem _ List.mem_cons_self)) operator value
    · exact refused
  case conditional =>
    rcases below with _ | ⟨first, _ | ⟨second, _ | ⟨third, _ | ⟨fourth, rest⟩⟩⟩⟩
    · exact refused
    · exact refused
    · exact refused
    · refine relates.next _ _ _ _ (each first List.mem_cons_self) fun value => ?_
      split
      · exact each second (by simp)
      · exact each third (by simp)
    · exact refused
  case elements kind items =>
    cases kind
    case sequence => exact relates.sequence below each .undefined
    all_goals exact refused
  case call | access => exact relates.refuse _
  all_goals exact refused

end Relates

end Interpreter

/-! ## Names in an expression -/

/-- A name stands somewhere in a tree. -/
def Tree.Mentions (tree : Tree) (name : String) : Prop :=
  ∃ part, Tree.Within part tree ∧ part.name? = some name

section Mentions
variable {α β : Type} {relation : Nat → α → β → Prop} {known : String → Prop} {one : Interpreter α}
  {other : Interpreter β}

/-- Two interpreters make related things of an expression if they are related in every depth and
entering an expression leads one level down. -/
theorem Tree.interpret_relates (relates : ∀ depth, Interpreter.Relates (relation depth) known one other)
    (enter : ∀ depth first second, relation (depth + 1) first second →
      relation depth (one.enter first) (other.enter second))
    (tree : Tree) (names : ∀ name, tree.Mentions name → known name) (depth : Nat) :
    relation depth (tree.interpret one) (tree.interpret other) := by
  induction tree generalizing depth with
  | nothing => exact enter depth _ _ ((relates (depth + 1)).refuse _)
  | node id shape below ih =>
    rw [interpret_node, interpret_node]
    refine enter depth _ _ ((relates (depth + 1)).node (fun part member => ?_) (fun name same => ?_)
      fun part member name named => ?_)
    · refine ih part member (fun name mentioned => names name ?_) (depth + 1)
      obtain ⟨inner, within, named⟩ := mentioned
      exact ⟨inner, .deeper member within, named⟩
    · subst same
      exact names name ⟨_, .whole, rfl⟩
    · exact names name ⟨part, .deeper member .whole, named⟩

end Mentions

end Unflatten
