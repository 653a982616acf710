import Unflatten.Hoist
import Unflatten.Proofs.Execution.Meaning
import Unflatten.Proofs.Syntax.Quiet

/-! # The order of evaluation

Two computations swap if it makes no difference which is run first (`Swaps`).  An action that stands
somewhere in an expression may be run before all of it if the node above runs its parts in any case,
one after the other, and if what is run before the action swaps with it: `InOrder.node` says so of one
node, where `Delays` says that an expression does the action first and then what another does.

What an expression does that neither reads nor changes a variable swaps with reading and with writing
the variable (`Separates.ignores`), on machines where a variable is reached by its name only. -/

set_option autoImplicit false

namespace Unflatten

namespace Shape

/-- Runs its parts in any case, from the first to the last. -/
def isStrict : Shape → Bool
  | .expressionStatement _ | .declarationList _ _ | .declaration _ _ | .unary _ _ _ | .elements _ _
  | .call _ _ _ | .access _ _ _ | .propertyAssignment _ _ => true
  | .binary _ operator _ => !operator.isLogical && !Hoist.isLogicalAssignment operator
  | _ => false

/-- Whether the part at a place is run at all: names of members and declared names are not. -/
def runsPart (shape : Shape) (place : Nat) : Bool :=
  match shape with
  | .access isElement _ _ => isElement || place != 1
  | .propertyAssignment _ _ | .declaration _ _ => place != 0
  | _ => true

/-- Whether the part at a place is assigned to. -/
def aimsAt (shape : Shape) (place : Nat) : Bool :=
  match shape with
  | .binary _ operator _ => operator.isAssignment && place == 0
  | .unary _ operator _ => operator == .plusPlus || operator == .minusMinus
  | _ => false

/-- Has an effect, whatever its parts are. -/
def isActive : Shape → Bool
  | .call _ _ _ => true
  | .binary _ operator _ => operator.isAssignment
  | .unary _ operator _ =>
    operator == .plusPlus || operator == .minusMinus || operator == .deleteKeyword
  | _ => false

theorem isStrict_withSlots (shape : Shape) (slots : List Slot) :
    (shape.withSlots slots).isStrict = shape.isStrict := by
  cases shape <;> rfl

theorem runsPart_withSlots (shape : Shape) (slots : List Slot) (place : Nat) :
    (shape.withSlots slots).runsPart place = shape.runsPart place := by
  cases shape <;> rfl

theorem aimsAt_withSlots (shape : Shape) (slots : List Slot) (place : Nat) :
    (shape.withSlots slots).aimsAt place = shape.aimsAt place := by
  cases shape <;> rfl

end Shape

namespace Execution

/-! ## Computations that swap -/

section Swaps
variable {m : Type → Type} [Monad m] {α β γ δ : Type} {first : m α} {second : m β}

/-- It makes no difference which of two is run first. -/
def Swaps (first : m α) (second : m β) : Prop :=
  (do let one ← first; let other ← second; pure (one, other)) =
    (do let other ← second; let one ← first; pure (one, other))

variable [LawfulMonad m]

theorem Swaps.eq (swaps : Swaps first second) (rest : α → β → m γ) :
    (do let one ← first; let other ← second; rest one other) =
      (do let other ← second; let one ← first; rest one other) := by
  have both := congrArg (· >>= fun pair => rest pair.1 pair.2) swaps
  simpa only [bind_assoc, pure_bind] using both

theorem Swaps.symm (swaps : Swaps first second) : Swaps second first :=
  (swaps.eq fun one other => pure (other, one)).symm

theorem swaps_pure (first : m α) (value : β) : Swaps first (pure value) := by
  simp only [Swaps, pure_bind]

theorem Swaps.bind {next : β → m γ} (swaps : Swaps first second)
    (each : ∀ value, Swaps first (next value)) : Swaps first (second >>= next) := by
  unfold Swaps
  calc (do let one ← first; let other ← second >>= next; pure (one, other))
      = (do let one ← first; let value ← second; let other ← next value; pure (one, other)) := by
        simp only [bind_assoc]
    _ = (do let value ← second; let one ← first; let other ← next value; pure (one, other)) :=
        swaps.eq fun one value => do let other ← next value; pure (one, other)
    _ = (do let value ← second; let other ← next value; let one ← first; pure (one, other)) :=
        bind_congr fun value => (each value).eq fun one other => pure (one, other)
    _ = (do let other ← second >>= next; let one ← first; pure (one, other)) := by
        simp only [bind_assoc]

theorem Swaps.bind_left {next : α → m γ} (swaps : Swaps first second)
    (each : ∀ value, Swaps (next value) second) : Swaps (first >>= next) second :=
  (swaps.symm.bind fun value => (each value).symm).symm

end Swaps

/-- What is done when an action was done. -/
def Meaning.behind {m : Type → Type} {ν : Type} [Monad m] (meaning : Meaning m ν) (action : m ν) :
    Meaning m ν where
  value := do
    let _ ← action
    meaning.value
  place := do
    let _ ← action
    meaning.place
  text := meaning.text

namespace Machine

variable {m : Type → Type} {ν : Type} [Monad m] (machine : Machine m ν)

/-- What may be asked of an expression swaps with an action. -/
structure Spares {α : Type} (meaning : Meaning m ν) (action : m α) : Prop where
  value : Swaps meaning.value action
  approach : ∀ operator, Swaps (machine.approach operator meaning.place) action

/-- An expression does an action first, and then what another does. -/
structure Delays (action : m ν) (before after : Meaning m ν) : Prop where
  value : before.value = (after.behind action).value
  place : before.place = (after.behind action).place ∨
    before.place = machine.nowhere ∧ after.place = machine.nowhere
  text : before.text = after.text

/-- A machine runs the parts of a node one after the other, and so the statements of a list. -/
structure InOrder : Prop where
  parts : ∀ (shape : Shape) (front back : List (Meaning m ν)) (before after : Meaning m ν)
    (action : m ν), shape.isStrict = true → shape.runsPart front.length = true →
      (∀ place (inside : place < front.length), shape.runsPart place = true →
        machine.Spares front[place] action) →
      machine.Delays action before after →
      (shape.aimsAt front.length = true → before.place = (after.behind action).place) →
        machine.Delays action (machine.other shape (front ++ before :: back))
          (machine.other shape (front ++ after :: back))
  statements : ∀ (shape : Shape) (front back : List (Meaning m ν))
    (expression before after : Meaning m ν), shape.isContainer = true →
      shape.leading.length ≤ front.length → machine.Delays expression.value before after →
        machine.other shape
            (front ++ machine.other (.expressionStatement none) [expression] :: after :: back) =
          machine.other shape (front ++ before :: back)

/-- An action that concerns a variable only: what is done with other names, with members and by
operators swaps with it, and so does what is made of parts that do. -/
structure Concerns {α : Type} (name : String) (action : m α) : Prop where
  names : ∀ other, other ≠ name → Swaps (machine.read (.name other)) action
  members : ∀ base key, Swaps (machine.read (.member base key)) action
  operators : ∀ operator left right, Swaps (machine.operate operator left right) action
  nowhere : ∀ operator, Swaps (machine.approach operator machine.nowhere) action
  others : ∀ (shape : Shape) (parts : List (Meaning m ν)), shape.isQuiet = true →
    shape.isActive = false → (shape.isFunction = false → ∀ part ∈ parts, machine.Spares part action) →
      machine.Spares (machine.other shape parts) action

/-- A variable is reached by its name only, and what was written is read again. -/
structure Separates (name : String) : Prop where
  reading : machine.Concerns name (machine.read (.name name))
  writing : ∀ value, machine.Concerns name (machine.write (.name name) value)
  kept : ∀ value, (do
    machine.write (.name name) value
    machine.read (.name name)) = do
      machine.write (.name name) value
      pure value

/-! ## Actions that come first -/

section Eager
variable {machine} {operator : TokenKind}

omit [Monad m] in
theorem settled?_of_eager (eager : Hoist.isLogicalAssignment operator = false)
    (state : Place ν × Option ν) : machine.settled? operator state = none := by
  unfold settled?
  split
  · rename_i applied old compound _
    have plain : machine.decides applied old = false := by
      cases operator <;> cases compound <;> first | rfl | cases eager
    rw [plain, if_neg Bool.false_ne_true]
  · rfl

theorem assign_of_eager (eager : Hoist.isLogicalAssignment operator = false) (place : m (Place ν))
    (right : m ν) : machine.assign operator place right = (do
      let before ← machine.approach operator place
      let given ← right
      machine.finish operator before given) := by
  unfold assign
  exact bind_congr fun before => by rw [settled?_of_eager eager]

theorem join_of_eager (eager : operator.isLogical = false) (left right : m ν) :
    machine.join operator left right = (do
      let first ← left
      let second ← right
      machine.combine operator first second) := by
  unfold join
  refine bind_congr fun first => ?_
  have plain : machine.decides operator first = false := by
    cases operator <;> first | rfl | cases eager
  rw [plain, if_neg Bool.false_ne_true]

end Eager

section Delays
variable [LawfulMonad m] {machine} {action : m ν} {before after : Meaning m ν} {operator : TokenKind}

theorem approach_after (operator : TokenKind) (action : m ν) (place : m (Place ν)) :
    machine.approach operator (do let _ ← action; place) = (do
      let _ ← action
      machine.approach operator place) := by
  unfold approach
  split <;> simp only [bind_assoc]

/-- The object of a member is run first. -/
theorem node_object (value : before.value = (after.behind action).value) (isElement : Bool)
    (object property : Slot) (key : Meaning m ν) :
    machine.node (.access isElement object property) [before, key] =
      (machine.node (.access isElement object property) [after, key]).behind action := by
  simp only [node, value, Meaning.behind, bind_assoc]

/-- An index is run when the object was, with which the action swaps. -/
theorem node_index {base : Meaning m ν} (swaps : Swaps base.value action)
    (value : before.value = (after.behind action).value) (object property : Slot) :
    machine.node (.access true object property) [base, before] =
      (machine.node (.access true object property) [base, after]).behind action := by
  have place : (machine.node (.access true object property) [base, before]).place =
      ((machine.node (.access true object property) [base, after]).behind action).place := by
    simp only [node, value, Meaning.behind, if_true, bind_assoc]
    exact swaps.eq fun found _ => after.value >>= fun key => pure (Place.member found key)
  have read : (machine.node (.access true object property) [base, before]).value =
      ((machine.node (.access true object property) [base, after]).behind action).value :=
    (congrArg (· >>= machine.read) place).trans (bind_assoc _ _ _)
  exact congr (congrArg₂ Meaning.mk read place) rfl

omit [LawfulMonad m] in
theorem delays_of_eq (same : before = after.behind action) : machine.Delays action before after := by
  subst same
  exact ⟨rfl, .inl rfl, rfl⟩

/-- The left side of an assignment is a place, that of another operator a value. -/
theorem Delays.left (delays : machine.Delays action before after) (strict :
    (Shape.binary none operator none).isStrict = true)
    (aimed : operator.isAssignment = true → before.place = (after.behind action).place)
    (right : Meaning m ν) :
    machine.Delays action (machine.node (.binary none operator none) [before, right])
      (machine.node (.binary none operator none) [after, right]) := by
  refine ⟨?_, .inr ⟨rfl, rfl⟩, rfl⟩
  simp only [node, Meaning.behind]
  simp only [Shape.isStrict, Bool.and_eq_true, Bool.not_eq_true'] at strict
  split
  · rename_i assigns
    rw [assign_of_eager strict.2, assign_of_eager strict.2, aimed assigns, Meaning.behind,
      approach_after, bind_assoc]
  · rw [join_of_eager strict.1, join_of_eager strict.1, delays.value, Meaning.behind, bind_assoc]

/-- The right side is run when the left was, with which the action swaps. -/
theorem Delays.right (delays : machine.Delays action before after) (strict :
    (Shape.binary none operator none).isStrict = true) {left : Meaning m ν}
    (spares : machine.Spares left action) :
    machine.Delays action (machine.node (.binary none operator none) [left, before])
      (machine.node (.binary none operator none) [left, after]) := by
  refine ⟨?_, .inr ⟨rfl, rfl⟩, rfl⟩
  simp only [node, Meaning.behind]
  simp only [Shape.isStrict, Bool.and_eq_true, Bool.not_eq_true'] at strict
  split
  · rw [assign_of_eager strict.2, assign_of_eager strict.2, delays.value, Meaning.behind]
    simp only [bind_assoc]
    exact (spares.approach operator).eq fun found _ => do
      let given ← after.value
      machine.finish operator found given
  · rw [join_of_eager strict.1, join_of_eager strict.1, delays.value, Meaning.behind]
    simp only [bind_assoc]
    exact spares.value.eq fun first _ => do
      let second ← after.value
      machine.combine operator first second

/-- A node does first what a part of it does first, if the parts in front swap with that. -/
theorem InOrder.node (inOrder : machine.InOrder) {shape : Shape} {front back : List (Meaning m ν)}
    (strict : shape.isStrict = true) (runs : shape.runsPart front.length = true)
    (spares : ∀ place (inside : place < front.length), shape.runsPart place = true →
      machine.Spares front[place] action)
    (delays : machine.Delays action before after)
    (aimed : shape.aimsAt front.length = true → before.place = (after.behind action).place) :
    machine.Delays action (machine.node (shape.withSlots []) (front ++ before :: back))
      (machine.node (shape.withSlots []) (front ++ after :: back)) := by
  have other : machine.Delays action (machine.other (shape.withSlots []) (front ++ before :: back))
      (machine.other (shape.withSlots []) (front ++ after :: back)) := by
    refine inOrder.parts _ front back before after action ?_ ?_ ?_ delays ?_
    · rw [shape.isStrict_withSlots, strict]
    · rw [shape.runsPart_withSlots, runs]
    · intro place inside run
      rw [shape.runsPart_withSlots] at run
      exact spares place inside run
    · rw [shape.aimsAt_withSlots]
      exact aimed
  cases shape
  case binary left operator right =>
    rcases front with _ | ⟨first, _ | ⟨second, front⟩⟩
    · rcases back with _ | ⟨second, _ | ⟨third, back⟩⟩
      · exact other
      · refine delays.left strict (fun assigns => aimed ?_) second
        rw [Shape.aimsAt, assigns]
        rfl
      · exact other
    · rcases back with _ | ⟨third, back⟩
      · exact delays.right strict (spares 0 Nat.zero_lt_one rfl)
      · exact other
    · cases front <;> exact other
  case access isElement object property =>
    rcases front with _ | ⟨first, _ | ⟨second, front⟩⟩
    · rcases back with _ | ⟨second, _ | ⟨third, back⟩⟩
      · exact other
      · exact delays_of_eq (node_object delays.value isElement none none second)
      · exact other
    · rcases back with _ | ⟨third, back⟩
      · cases isElement with
        | true =>
          exact delays_of_eq (node_index (spares 0 Nat.zero_lt_one rfl).value delays.value none none)
        | false => cases runs
      · exact other
    · cases front <;> exact other
  case conditional | function | identifier => cases strict
  all_goals exact other

/-- A member has a place, which is found behind the action too. -/
theorem node_member_place {isElement : Bool} {object property : Slot} {front back : List (Meaning m ν)}
    (two : front.length + back.length = 1)
    (runs : (Shape.access isElement object property).runsPart front.length = true)
    (spares : ∀ place (inside : place < front.length),
      (Shape.access isElement object property).runsPart place = true →
        machine.Spares front[place] action)
    (value : before.value = (after.behind action).value) :
    (machine.node (.access isElement object property) (front ++ before :: back)).place =
      ((machine.node (.access isElement object property) (front ++ after :: back)).behind action).place := by
  rcases front with _ | ⟨first, _ | ⟨second, front⟩⟩
  · rcases back with _ | ⟨key, _ | ⟨other, back⟩⟩
    · cases two
    · rw [List.nil_append, List.nil_append, node_object value]
    · simp at two
  · rcases back with _ | ⟨key, back⟩
    · cases isElement with
      | true =>
        have swaps : Swaps first.value action := (spares 0 Nat.zero_lt_one rfl).value
        rw [List.singleton_append, List.singleton_append, node_index swaps value]
      | false => cases runs
    · simp at two
  · simp at two
    omega

end Delays

/-! ## Actions that concern a variable -/

section Spares
variable [LawfulMonad m] {machine} {α β : Type} {name : String} {action : m α} {operator : TokenKind}

theorem spares_pure (meaning : Meaning m ν) (value : α) : machine.Spares meaning (pure value) :=
  ⟨swaps_pure _ value, fun _ => swaps_pure _ value⟩

theorem Spares.bind {meaning : Meaning m ν} {next : α → m β} (spares : machine.Spares meaning action)
    (each : ∀ value, machine.Spares meaning (next value)) :
    machine.Spares meaning (action >>= next) :=
  ⟨spares.value.bind fun value => (each value).value,
    fun operator => (spares.approach operator).bind fun value => (each value).approach operator⟩

theorem swaps_approach_pure {place : Place ν} (swaps : Swaps (machine.read place) action)
    (operator : TokenKind) : Swaps (machine.approach operator (pure place)) action := by
  unfold approach
  split
  · rw [pure_bind]
    exact (swaps_pure action _).symm
  · rw [pure_bind]
    exact swaps.bind_left fun old => (swaps_pure action _).symm

theorem swaps_approach_bind {first : m β} {place : β → m (Place ν)} (swaps : Swaps first action)
    (each : ∀ value, Swaps (machine.approach operator (place value)) action) :
    Swaps (machine.approach operator (first >>= place)) action := by
  have opened : machine.approach operator (first >>= place) =
      first >>= fun value => machine.approach operator (place value) := by
    unfold approach
    split <;> simp only [bind_assoc]
  rw [opened]
  exact swaps.bind_left each

section Concerns
variable (concerns : machine.Concerns name action)

include concerns

theorem Concerns.otherName {other : String} (differs : other ≠ name) :
    machine.Spares (machine.node (.identifier other) []) action :=
  ⟨concerns.names other differs, swaps_approach_pure (concerns.names other differs)⟩

theorem Concerns.member {object property : Meaning m ν} (spares : machine.Spares object action)
    (also : machine.Spares property action) (isElement : Bool) (first second : Slot) :
    machine.Spares (machine.node (.access isElement first second) [object, property]) action := by
  have key : Swaps (if isElement then property.value else
      pure (machine.key (property.text.getD ""))) action := by
    split
    · exact also.value
    · exact (swaps_pure action _).symm
  constructor
  · simp only [node, bind_assoc, pure_bind]
    exact spares.value.bind_left fun base => key.bind_left fun found => concerns.members base found
  · intro operator
    simp only [node]
    exact swaps_approach_bind spares.value fun base => swaps_approach_bind key fun found =>
      swaps_approach_pure (concerns.members base found) operator

theorem Concerns.choice {condition yes no : Meaning m ν} (spares : machine.Spares condition action)
    (first : machine.Spares yes action) (second : machine.Spares no action)
    (test whenTrue whenFalse : Slot) :
    machine.Spares (machine.node (.conditional test whenTrue whenFalse) [condition, yes, no]) action := by
  refine ⟨?_, concerns.nowhere⟩
  simp only [node, Machine.test, bind_assoc, pure_bind]
  refine spares.value.bind_left fun value => ?_
  split
  · exact first.value
  · exact second.value

theorem Concerns.joined {left right : Meaning m ν} (spares : machine.Spares left action)
    (also : machine.Spares right action) (plain : operator.isAssignment = false)
    (first second : Slot) :
    machine.Spares (machine.node (.binary first operator second) [left, right]) action := by
  refine ⟨?_, concerns.nowhere⟩
  simp only [node, plain, Bool.false_eq_true, if_false, join]
  refine spares.value.bind_left fun found => ?_
  split
  · exact (swaps_pure action found).symm
  · refine also.value.bind_left fun other => ?_
    unfold combine
    split
    · exact (swaps_pure action other).symm
    · exact (swaps_pure action other).symm
    · exact (swaps_pure action other).symm
    · exact concerns.operators operator found other

/-- What is made of parts that swap with the action does so too, unless it is the variable itself or
has an effect. -/
theorem Concerns.node {shape : Shape} {parts : List (Meaning m ν)} (quiet : shape.isQuiet = true)
    (passive : shape.isActive = false) (differs : shape ≠ .identifier name)
    (each : shape.isFunction = false → ∀ part ∈ parts, machine.Spares part action) :
    machine.Spares (machine.node shape parts) action := by
  have other := concerns.others shape parts quiet passive each
  cases shape
  case identifier text =>
    cases parts with
    | nil => exact concerns.otherName fun same => differs (same ▸ rfl)
    | cons => exact other
  case access isElement object property =>
    rcases parts with _ | ⟨first, _ | ⟨second, _ | ⟨third, rest⟩⟩⟩
    · exact other
    · exact other
    · exact concerns.member (each rfl first (by simp)) (each rfl second (by simp)) _ _ _
    · exact other
  case conditional =>
    rcases parts with _ | ⟨first, _ | ⟨second, _ | ⟨third, _ | ⟨fourth, rest⟩⟩⟩⟩
    · exact other
    · exact other
    · exact other
    · exact concerns.choice (each rfl first (by simp)) (each rfl second (by simp))
        (each rfl third (by simp)) _ _ _
    · exact other
  case binary left operator right =>
    rcases parts with _ | ⟨first, _ | ⟨second, _ | ⟨third, rest⟩⟩⟩
    · exact other
    · exact other
    · exact concerns.joined (each rfl first (by simp)) (each rfl second (by simp)) passive _ _
    · exact other
  all_goals exact other

end Concerns

/-! ## Compound assignments to a variable -/

/-- The new value of a variable. -/
def renew (machine : Machine m ν) (operator : TokenKind) (right : m ν) (old : ν) : m ν := do
  let given ← right
  machine.combine operator old given

theorem assign_eq {applied : TokenKind} (compound : operator.compound? = some applied)
    (eager : Hoist.isLogicalAssignment operator = false) (name : String) (right : m ν) :
    machine.assign operator (pure (.name name)) right = (do
      let old ← machine.read (.name name)
      let new ← machine.renew applied right old
      machine.write (.name name) new
      pure new) := by
  rw [assign_of_eager eager]
  simp only [approach, finish, renew, compound, pure_bind, bind_assoc]

/-- What swaps with reading and writing the variable and with the new value swaps with the
assignment. -/
theorem Spares.assign {applied : TokenKind} {meaning : Meaning m ν} {right : m ν}
    (compound : operator.compound? = some applied)
    (eager : Hoist.isLogicalAssignment operator = false)
    (reading : machine.Spares meaning (machine.read (.name name)))
    (writing : ∀ value, machine.Spares meaning (machine.write (.name name) value))
    (renewing : ∀ old, machine.Spares meaning (machine.renew applied right old)) :
    machine.Spares meaning (machine.assign operator (pure (.name name)) right) := by
  rw [assign_eq compound eager]
  exact reading.bind fun old => (renewing old).bind fun new =>
    (writing new).bind fun _ => spares_pure meaning new

/-- After the assignment the variable has the value of the assignment. -/
theorem Separates.assign_kept {applied : TokenKind} (separates : machine.Separates name)
    (compound : operator.compound? = some applied)
    (eager : Hoist.isLogicalAssignment operator = false) (right : m ν) :
    machine.assign operator (pure (.name name)) right = (do
      let _ ← machine.assign operator (pure (.name name)) right
      machine.read (.name name)) := by
  rw [assign_eq compound eager]
  simp only [bind_assoc, pure_bind]
  exact bind_congr fun old => bind_congr fun new => (separates.kept new).symm

end Spares

end Machine

end Execution

end Unflatten
