import Unflatten.Proofs.Canonical.Descending
import Unflatten.Proofs.Syntax.Standing

/-! # What gives way to what

`Canonical.Rewrites` says of each rule which trees it takes out of a program and which it puts in
their place.  A rule that changes a program does so by such steps (`Store.Reworked`), so what every
step keeps or lowers is kept or lowered by the rules. -/

set_option autoImplicit false

namespace Unflatten

namespace Shape

/-- A file or a block. -/
def isList : Shape → Bool
  | .file _ _ | .block _ => true
  | _ => false

/-- Whether the value of a child is not used, by the number of children before and behind it. -/
def wastes : Shape → (before behind : Nat) → Bool
  | .expressionStatement _, _, _ => true
  | .elements .sequence _, _, behind => 0 < behind
  | .loop .forLoop _ _ _ _, before, _ => before == 0 || before == 2
  | _, _, _ => false

/-- Whether a child is the body of an `if` or a loop, by the number of children before it. -/
def holdsBody : Shape → (before : Nat) → Bool
  | .conditionalStatement _ _ _, before => 0 < before
  | .loop _ _ _ _ _, before => before == 3
  | .forIn _ _ _, before => before == 2
  | _, _ => false

/-- An `if` or a `return`. -/
def isLed : Shape → Bool
  | .conditionalStatement _ _ _ | .exit .returns _ => true
  | _ => false

section WithSlots
variable (shape : Shape) (slots : List Slot) (before behind : Nat)

@[simp] theorem wastes_withSlots :
    (shape.withSlots slots).wastes before behind = shape.wastes before behind := by
  cases shape
  case elements kind items => cases kind <;> rfl
  case loop kind initializer condition incrementor body => cases kind <;> rfl
  all_goals rfl

@[simp] theorem holdsBody_withSlots :
    (shape.withSlots slots).holdsBody before = shape.holdsBody before := by
  cases shape <;> rfl

@[simp] theorem isBlock_withSlots : (shape.withSlots slots).isBlock = shape.isBlock := by
  cases shape <;> rfl

@[simp] theorem isContainer_withSlots : (shape.withSlots slots).isContainer = shape.isContainer := by
  cases shape <;> rfl

@[simp] theorem isList_withSlots : (shape.withSlots slots).isList = shape.isList := by
  cases shape <;> rfl

@[simp] theorem isLed_withSlots : (shape.withSlots slots).isLed = shape.isLed := by
  cases shape
  case exit kind value => cases kind <;> rfl
  all_goals rfl

@[simp] theorem length_leading_withSlots :
    (shape.withSlots slots).leading.length = shape.leading.length := by
  cases shape <;> rfl

end WithSlots

end Shape

namespace Tree

/-! ## Trees that rules look for or make -/

/-- A value is assigned to a target. -/
def assigned (id : NodeId) (operator : TokenKind) (target value : Tree) : Tree :=
  .node id (.binary target.root operator value.root) [target, value]

/-- One of two expressions is chosen by a test. -/
def chosen (id : NodeId) (test yes no : Tree) : Tree :=
  .node id (.conditional test.root yes.root no.root) [test, yes, no]

/-- An expression as a statement. -/
def stated (id : NodeId) (expression : Tree) : Tree :=
  .node id (.expressionStatement expression.root) [expression]

/-- One of two statements is chosen by a test. -/
def tested (id : NodeId) (test yes no : Tree) : Tree :=
  .node id (.conditionalStatement test.root yes.root no.root) [test, yes, no]

/-- Statements in a block. -/
def inBlock (id : NodeId) (statements : List Tree) : Tree :=
  .node id (.block (statements.map root)) statements

/-- Expressions one behind the other. -/
def inSequence (id : NodeId) (items : List Tree) : Tree :=
  .node id (.elements .sequence (items.map root)) items

/-- `void` before an operand. -/
def voided (id : NodeId) (operand : Tree) : Tree :=
  .node id (.unary false .voidKeyword operand.root) [operand]

/-- `left && right`. -/
def conjoined (id : NodeId) (left right : Tree) : Tree :=
  .node id (.binary left.root .ampersandAmpersand right.root) [left, right]

/-- A statement `!function () { ... }();`. -/
def calledOnTheSpot (statement operator call function : NodeId) (isAfter : Bool) (body : Tree) :
    Tree :=
  .node statement (.expressionStatement (some operator))
    [.node operator (.unary isAfter .exclamation (some call))
      [.node call (.call false (some function) [])
        [.node function (.function true none [] body.root) [.nothing, body]]]]

/-- The first expressions of a sequence, in a sequence unless there is one only. -/
def Leads (first : Tree) (more : List Tree) (leading : Tree) : Prop :=
  if more = [] then leading = first else ∃ id, leading = .inSequence id (first :: more)

/-- A name or `this`, or a member by name of such. -/
inductive IsTarget : Tree → Prop
  | name {id : NodeId} {text : String} : IsTarget (.node id (.identifier text) [])
  | this {id : NodeId} : IsTarget (.node id (.token .thisKeyword) [])
  | member {id : NodeId} {first second : Slot} {object property : Tree} (target : IsTarget object) :
      IsTarget (.node id (.access false first second) [object, property])

/-- A part of a tree has given way to another as a relation allows. -/
def Replaced (step : Tree → Tree → Prop) (tree remade : Tree) : Prop :=
  ∃ part new, step part new ∧ Placed part new tree remade

section Replaced
variable {step other : Tree → Tree → Prop} {tree remade : Tree}

theorem Replaced.imp (replaced : Replaced step tree remade)
    (also : ∀ part new, step part new → other part new) : Replaced other tree remade := by
  obtain ⟨part, new, steps, placed⟩ := replaced
  exact ⟨part, new, also part new steps, placed⟩

end Replaced

end Tree

namespace Canonical

/-- The trees of a block that can be spliced, or the tree itself. -/
def spread (store : Store) : Tree → List Tree
  | .nothing => [.nothing]
  | .node name shape below =>
    if isSpliceable store (some name) then below else [.node name shape below]

/-- What a rule puts in the place of what. -/
inductive Rewrites (store : Store) : Rule → Tree → Tree → Prop
  /-- `void 0` is `undefined`. -/
  | undefined {above id leaf name : NodeId} {outer changed literal : Shape} {front back : List Tree}
      (primitive : isPrimitiveLiteral literal = true) (fresh : store.nodes.size ≤ name)
      (same : changed.withSlots [] = outer.withSlots []) :
      Rewrites store .removeVoid
        (.node above outer (front ++ .voided id (.node leaf literal []) :: back))
        (.node above changed (front ++ .node name (.identifier "undefined") [] :: back))
  /-- A `void` whose value is not used is its operand. -/
  | dropped {above id : NodeId} {outer changed : Shape} {front back : List Tree} {operand : Tree}
      (wasted : outer.wastes front.length back.length = true)
      (same : changed.withSlots [] = outer.withSlots []) :
      Rewrites store .removeVoid (.node above outer (front ++ .voided id operand :: back))
        (.node above changed (front ++ operand :: back))
  | assigned {assignment id whole first second : NodeId} {operator : TokenKind}
      {target copied test yes no : Tree} (assigns : operator.isAssignment = true)
      (simple : target.IsTarget) (copy : copied.bare = target.bare)
      (fresh : ∀ id ∈ copied.names, store.nodes.size ≤ id) :
      Rewrites store .conditionalAssign (.assigned assignment operator target (.chosen id test yes no))
        (.chosen whole test (.assigned first operator target yes) (.assigned second operator copied no))
  | chosen {statement id whole first second : NodeId} {test yes no : Tree} :
      Rewrites store .conditionalIf (.stated statement (.chosen id test yes no))
        (.tested whole test (.stated first yes) (.stated second no))
  | conjoined {rule : Rule} {statement id whole first : NodeId} {left right : Tree}
      (either : rule = .conditionalIf ∨ rule = .logicalIf) :
      Rewrites store rule (.stated statement (.conjoined id left right))
        (.tested whole left (.stated first right) .nothing)
  | itemized {rule : Rule} {statement id whole : NodeId} {items statements : List Tree}
      (either : rule = .conditionalIf ∨ rule = .sequence)
      (each : List.Forall₂ (fun item made => ∃ name, made = .stated name item) items statements) :
      Rewrites store rule (.stated statement (.inSequence id items)) (.inBlock whole statements)
  | wrapped {id name : NodeId} {shape changed inner : Shape} {front back below : List Tree}
      {body : NodeId} (isBody : shape.holdsBody front.length = true) (noBlock : inner.isBlock = false)
      (same : changed.withSlots [] = shape.withSlots []) :
      Rewrites store .ifBody (.node id shape (front ++ .node body inner below :: back))
        (.node id changed (front ++ .inBlock name [.node body inner below] :: back))
  | emptied {id name : NodeId} {shape changed : Shape} {front back : List Tree} {body : NodeId}
      (isBody : shape.holdsBody front.length = true)
      (same : changed.withSlots [] = shape.withSlots []) :
      Rewrites store .ifBody (.node id shape (front ++ .node body .emptyStatement [] :: back))
        (.node id changed (front ++ .inBlock name [] :: back))
  /-- What a rule does to `(a, b, c)` in an `if` or a `return` of a list. -/
  | led {rule : Rule} {container statement sequence before : NodeId}
      {outer changed shape remade : Shape} {lead front back rest items : List Tree}
      {first last leading : Tree} {more : List Tree}
      (either : rule = .ifTestSequence ∨ rule = .returnSequence) (isLed : shape.isLed = true)
      (leads : outer.leading = lead.map Tree.root) (inList : outer.isContainer = true)
      (split : items = first :: (more ++ [last])) (gathered : first.Leads more leading)
      (same : changed.withSlots [] = outer.withSlots [])
      (still : remade.withSlots [] = shape.withSlots []) :
      Rewrites store rule
        (.node container outer
          (lead ++ (front ++ .node statement shape (.inSequence sequence items :: rest) :: back)))
        (.node container changed
          (lead ++ (front ++ .stated before leading ::
            .node statement remade (last :: rest) :: back)))
  | single {rule : Rule} {statement sequence : NodeId} {shape remade : Shape} {rest : List Tree}
      {only : Tree} (either : rule = .ifTestSequence ∨ rule = .returnSequence)
      (isLed : shape.isLed = true) (still : remade.withSlots [] = shape.withSlots []) :
      Rewrites store rule (.node statement shape (.inSequence sequence [only] :: rest))
        (.node statement remade (only :: rest))
  /-- `3 == x` is `x == 3`. -/
  | turned {id number name : NodeId} {operator mirrored : TokenKind} {text digits : String}
      {value : Float} (mirrors : operator.mirrored? = some mirrored) :
      Rewrites store .ifTestBinary
        (.node id (.binary (some number) operator (some name))
          [.node number (.literal .number digits (some value)) [], .node name (.identifier text) []])
        (.node id (.binary (some name) mirrored (some number))
          [.node name (.identifier text) [], .node number (.literal .number digits (some value)) []])
  | gathered {id name : NodeId} {isDefault : Bool} {label : Slot} {slots : List Slot} {changed : Shape}
      {lead : Tree} {statements : List Tree}
      (unsettled : ∀ block slots below, statements ≠ [.node block (.block slots) below])
      (same : changed.withSlots [] = (Shape.clause isDefault label slots).withSlots []) :
      Rewrites store .switchCase (.node id (.clause isDefault label slots) (lead :: statements))
        (.node id changed [lead, .inBlock name statements])
  | called {statement operator call function : NodeId} {isAfter : Bool} {body : Tree}
      (free : bodyReason? store body.root = none) :
      Rewrites store .inlineCall (.calledOnTheSpot statement operator call function isAfter body) body
  | spliced {id : NodeId} {shape changed : Shape} {statements : List Tree}
      (isList : shape.isList = true) (any : ∃ part ∈ statements, isSpliceable store part.root = true)
      (blocks : ∀ name inner below, .node name inner below ∈ statements →
        isSpliceable store (some name) = true → inner.isBlock = true)
      (same : changed.withSlots [] = shape.withSlots []) :
      Rewrites store .flattenBlock (.node id shape statements)
        (.node id changed (statements.flatMap (spread store)))

end Canonical

/-- A program has become another by one step of a rule. -/
def Rule.Turns (rule : Rule) (tree remade : Tree) : Prop :=
  ∃ store, Tree.Replaced (Canonical.Rewrites store rule) tree remade

/-- A step of a rule has taken a program from one store to another. -/
structure Rule.Takes (rule : Rule) (before after : Store × Tree) : Prop where
  remakes : Store.Remakes before.1 after.1 before.2 after.2 []
  descends : before.1.Descends after.1
  replaced : Tree.Replaced (Canonical.Rewrites before.1 rule) before.2 after.2

theorem Rule.Takes.turns {rule : Rule} {before after : Store × Tree} (takes : rule.Takes before after) :
    rule.Turns before.2 after.2 :=
  ⟨before.1, takes.replaced⟩

namespace Store

variable {store : Store} {root : NodeId} {tree : Tree}

/-- A program has been changed by a step of a rule, or it is left and the place is settled. -/
def Reworked (store : Store) (result : Store × Outcome) (tree : Tree) (rule : Rule) (settled : Prop) :
    Prop :=
  (∃ remade, Remakes store result.1 tree remade [] ∧
    Tree.Replaced (Canonical.Rewrites store rule) tree remade ∧ result.2 = .changed) ∨
  (result.1 = store ∧ result.2 ≠ .changed ∧ settled)

/-- A program has been changed by steps of a rule, or it is left and the place is settled. -/
def Taken (store : Store) (result : Store × Outcome) (tree : Tree) (rule : Rule) (settled : Prop) :
    Prop :=
  (∃ remade, Relation.TransGen rule.Takes (store, tree) (result.1, remade) ∧ result.2 = .changed) ∨
  (result.1 = store ∧ result.2 ≠ .changed ∧ settled)

theorem Stands.unchanged (stands : store.Stands root tree) : store.Remade store tree :=
  ⟨tree, .refl stands.holds stands.nodup⟩

section Reworked
variable {result : Store × Outcome} {rule : Rule} {settled more : Prop}

theorem Reworked.imp (reworked : store.Reworked result tree rule settled) (holds : settled → more) :
    store.Reworked result tree rule more :=
  reworked.imp_right fun ⟨same, still, settles⟩ => ⟨same, still, holds settles⟩

theorem Reworked.untouched {outcome : Outcome} (still : outcome ≠ .changed) (holds : settled) :
    store.Reworked (store, outcome) tree rule settled :=
  .inr ⟨rfl, still, holds⟩

theorem Reworked.unchanged (holds : settled) :
    store.Reworked (store, .unchanged) tree rule settled :=
  .untouched nofun holds

theorem Reworked.step {later : Store} {remade part new : Tree}
    (remakes : Remakes store later tree remade []) (placed : Tree.Placed part new tree remade)
    (steps : Canonical.Rewrites store rule part new) :
    store.Reworked (later, .changed) tree rule settled :=
  .inl ⟨remade, remakes, ⟨part, new, steps, placed⟩, rfl⟩

/-- A rule that takes one step at most. -/
theorem Reworked.taken (reworked : store.Reworked result tree rule settled)
    (descends : store.Descends result.1) : store.Taken result tree rule settled :=
  reworked.imp_left fun ⟨remade, remakes, replaced, changed⟩ =>
    ⟨remade, .single ⟨remakes, descends, replaced⟩, changed⟩

theorem Taken.unchanged (holds : settled) : store.Taken (store, .unchanged) tree rule settled :=
  .inr ⟨rfl, nofun, holds⟩

end Reworked

end Store

end Unflatten
