import Unflatten.Proofs.Execution.Meaning

/-! # What nodes ask of their parts

A `Conduct` says all that a part of a program does for what stands around it: its value, its place,
the names it declares, the functions it adds to a list of statements, and what it does as a body.  A
node asks for only some of this (`Shape.request`), and what it makes of the answers is laid down here
for names, literals, operators, sequences, `if`, `return`, blocks and expressions as statements; an
`Engine` says it of every other node.  Declarations are those of `var` and `function`. -/

set_option autoImplicit false

namespace Unflatten

namespace Execution

/-- What a node asks of a part. -/
inductive Request where
  | value
  /-- The value, which is `undefined` for a name that is not declared. -/
  | quiet
  /-- The function to call and its `this`. -/
  | callee
  | effect
  /-- What is done in a scope for its own functions. -/
  | body
  /-- One of a list of statements. -/
  | statement
  /-- A place or a name, or more. -/
  | whole
  deriving DecidableEq, Repr

end Execution

open Execution in
/-- What a node asks of a child, by the number of children before it. -/
def Shape.request : Shape → (before : Nat) → Request
  | .file _ _, _ | .block _, _ => .statement
  | .clause _ _ _, before => if before = 0 then .value else .statement
  | .declaration _ _, before => if before = 0 then .whole else .value
  | .function _ _ _ _, _ => .whole
  | .expressionStatement _, _ => .effect
  | .conditionalStatement _ _ _, before => if before = 0 then .value else .body
  | .loop kind _ _ _ _, before =>
    if before = 3 then .body
    else if kind = .forLoop ∧ before ≠ 1 then .effect
    else .value
  | .forIn _ _ _, before => if before = 0 then .whole else if before = 1 then .value else .body
  | .switch _ _, before => if before = 0 then .value else .whole
  | .exit _ _, _ => .value
  | .unary _ operator _, _ =>
    if operator = .typeOfKeyword then .quiet
    else if operator ∈ [.deleteKeyword, .plusPlus, .minusMinus] then .whole
    else .value
  | .binary _ operator _, before => if before = 0 ∧ operator.isAssignment then .whole else .value
  | .conditional _ _ _, _ => .value
  | .elements .object _, _ => .whole
  | .elements _ _, _ => .value
  | .call isNew _ _, before => if before = 0 ∧ !isNew then .callee else .value
  | .access isElement _ _, before => if before = 0 ∨ isElement then .value else .whole
  | .propertyAssignment _ _, before => if before = 0 then .whole else .value
  | _, _ => .whole

/-- What says more to what stands around it than its parts do: a declared name, or a function behind
a label. -/
def Shape.isDeclaring : Shape → Bool
  | .declaration _ _ | .labeled _ _ => true
  | _ => false

namespace Execution

/-- What a tree does when its value is asked for, and when its place is, if it has one. -/
structure Answer (m : Type → Type) (ν : Type) extends Meaning m ν where
  refers : Bool

/-- Functions by name, each with what makes it. -/
abbrev Functions (m : Type → Type) (ν : Type) : Type := List (Option String × m ν)

structure Conduct (m : Type → Type) (ν : Type) extends Answer m ν where
  /-- The names declared outside nested functions. -/
  names : List String
  /-- The functions that a statement adds to the list it stands in. -/
  functions : Functions m ν
  /-- What it does as a body, with the functions that it has then. -/
  inner : Functions m ν × m Unit
  /-- What a clause is chosen by, if it is not the default. -/
  label? : Option (m ν)

/-- The answer to a request. -/
inductive Part (m : Type → Type) (ν : Type) where
  | value (value : m ν)
  | callee (function : m (ν × ν))
  | effect (action : m Unit)
  | list (functions : Functions m ν) (action : m Unit)
  | whole (conduct : Conduct m ν)

/-- What runs programs: in a monad `m`, with values of a type `ν`. -/
structure Engine (m : Type → Type) (ν : Type) where
  machine : Machine m ν
  undefined : ν
  literal : Shape → ν
  /-- The value of a name that need not be declared. -/
  quiet : String → m ν
  leave : ν → m ν
  /-- Does something in a scope with functions of its own. -/
  enclose : Functions m ν → m Unit → m Unit
  /-- What any other node does, with the names declared below it. -/
  other : Shape → List String → List (Part m ν) → Answer m ν

namespace Engine

variable {m : Type → Type} {ν : Type} [Monad m] (engine : Engine m ν)

/-! ## Requests -/

/-- What is there to call, with the object of a member as `this`. -/
def callee (conduct : Conduct m ν) : m (ν × ν) :=
  if conduct.refers then do
    let place ← conduct.place
    let function ← engine.machine.read place
    pure (function, match place with
      | .name _ => engine.undefined
      | .member object _ => object)
  else do
    let function ← conduct.value
    pure (function, engine.undefined)

def quietly (conduct : Conduct m ν) : m ν :=
  match conduct.text with
  | some name => engine.quiet name
  | none => conduct.value

/-- An action whose value is not used. -/
def discard (value : m ν) : m Unit := do
  let _ ← value
  pure ()

def answer (conduct : Conduct m ν) : Request → Part m ν
  | .value => .value conduct.value
  | .quiet => .value (engine.quietly conduct)
  | .callee => .callee (engine.callee conduct)
  | .effect => .effect (discard conduct.value)
  | .body => .list conduct.inner.1 conduct.inner.2
  | .statement => .list conduct.functions (discard conduct.value)
  | .whole => .whole conduct

/-- What a node is told of its children, of which some come before. -/
def answersFrom (shape : Shape) : (before : Nat) → List (Conduct m ν) → List (Part m ν)
  | _, [] => []
  | before, conduct :: rest =>
    engine.answer conduct (shape.request before) :: answersFrom shape (before + 1) rest

/-! ## Nodes -/

/-- What has a value and no place. -/
def plain (value : m ν) : Answer m ν := ⟨⟨value, engine.machine.nowhere, none⟩, false⟩

/-- What has no value. -/
def perform (action : m Unit) : Answer m ν :=
  engine.plain do
    action
    pure engine.undefined

/-- The actions of some parts, one behind the other. -/
def runAll : List (Part m ν) → m Unit
  | [] => pure ()
  | .effect action :: rest | .list _ action :: rest => do
    action
    runAll rest
  | _ :: rest => runAll rest

/-- The functions of statements. -/
def gather : List (Part m ν) → Functions m ν
  | [] => []
  | .list functions _ :: rest => functions ++ gather rest
  | _ :: rest => gather rest

/-- Expressions one behind the other.  The last one gives the value. -/
def inTurn : List (Part m ν) → m ν
  | [] => pure engine.undefined
  | [.value last] => last
  | .value value :: rest => do
    let _ ← value
    inTurn rest
  | _ :: rest => inTurn rest

/-- The branch of an `if` that is taken. -/
def branch (holds : Bool) : List (Part m ν) → m Unit
  | [.list ours yes, .list theirs no] => if holds then engine.enclose ours yes else engine.enclose theirs no
  | _ => pure ()

/-- What a node does, by the answers of its parts. -/
def act (shape : Shape) (names : List String) (parts : List (Part m ν)) : Answer m ν :=
  match shape, parts with
  | .identifier text, [] =>
    ⟨⟨engine.machine.read (.name text), pure (.name text), some text⟩, true⟩
  | .literal .number text value, [] => engine.plain (pure (engine.literal (.literal .number text value)))
  | .literal .string text value, [] => engine.plain (pure (engine.literal (.literal .string text value)))
  | .token .trueKeyword, [] => engine.plain (pure (engine.literal (.token .trueKeyword)))
  | .token .falseKeyword, [] => engine.plain (pure (engine.literal (.token .falseKeyword)))
  | .token .nullKeyword, [] => engine.plain (pure (engine.literal (.token .nullKeyword)))
  | .access true _ _, [.value object, .value key] =>
    let place := do
      let base ← object
      let key ← key
      pure (.member base key)
    ⟨⟨place >>= engine.machine.read, place, none⟩, true⟩
  | .access false _ _, [.value object, .whole property] =>
    let place := do
      let base ← object
      pure (.member base (engine.machine.key (property.text.getD "")))
    ⟨⟨place >>= engine.machine.read, place, none⟩, true⟩
  | .unary false .voidKeyword _, [.value operand] =>
    engine.plain do
      let _ ← operand
      pure engine.undefined
  | .binary _ operator _, [.whole target, .value right] =>
    engine.plain (engine.machine.assign operator target.place right)
  | .binary _ operator _, [.value left, .value right] =>
    engine.plain (engine.machine.join operator left right)
  | .conditional _ _ _, [.value test, .value yes, .value no] =>
    engine.plain do
      let holds ← engine.machine.test test
      if holds then yes else no
  | .elements .sequence _, parts => engine.plain (engine.inTurn parts)
  | .emptyStatement, [] => engine.perform (pure ())
  | .expressionStatement _, parts => engine.perform (runAll parts)
  | .conditionalStatement _ _ _, .value test :: branches =>
    engine.perform do
      let holds ← engine.machine.test test
      engine.branch holds branches
  | .exit .returns _, .value value :: _ =>
    engine.plain do
      let result ← value
      engine.leave result
  | .block _, parts => engine.perform (engine.enclose (gather parts) (runAll parts))
  | .file source _, parts => engine.other (.file source []) names [.list (gather parts) (runAll parts)]
  | .clause _ _ _, parts => engine.perform (runAll parts)
  | shape, parts => engine.other shape names parts

/-- The functions that a statement declares for the list it stands in. -/
def declares (shape : Shape) (made : m ν) (conducts : List (Conduct m ν)) : Functions m ν :=
  match shape with
  | .function false _ _ _ => [(conducts.head?.bind (·.text), made)]
  | .labeled _ _ => conducts.flatMap (·.functions)
  | .clause _ _ _ => conducts.tail.flatMap (·.functions)
  | _ => []

def labelOf? (shape : Shape) (conducts : List (Conduct m ν)) : Option (m ν) :=
  match shape with
  | .clause false _ _ => conducts.head?.map (·.value)
  | _ => none

/-- The names declared below a node and outside nested functions. -/
def namesOf (shape : Shape) (conducts : List (Conduct m ν)) : List String :=
  match shape with
  | .declaration _ _ => (conducts.head?.bind (·.text)).toList ++ conducts.flatMap (·.names)
  | _ => conducts.flatMap (·.names)

/-- What a node does for what stands around it. -/
def node (shape : Shape) (conducts : List (Conduct m ν)) : Conduct m ν :=
  let parts := engine.answersFrom shape 0 conducts
  let names := namesOf shape conducts
  let answer := engine.act shape names parts
  let functions := declares shape answer.value conducts
  let inner := match shape with
    | .block _ => (gather parts, runAll parts)
    | _ => (functions, discard answer.value)
  let label? := labelOf? shape conducts
  match shape with
  -- a function is made when the scope is entered that it belongs to
  | .function false _ _ _ =>
    { engine.perform (pure ()) with names := [], functions, inner := (functions, pure ()), label? }
  | .function true _ _ _ => { answer with names := [], functions, inner, label? }
  | _ => { answer with names, functions, inner, label? }

/-- Where there is no node, nothing is done. -/
def nothing : Conduct m ν where
  toAnswer := engine.perform (pure ())
  names := []
  functions := []
  inner := ([], pure ())
  label? := none

def conduct (tree : Tree) : Conduct m ν := tree.fold engine.nothing engine.node

def conductAt (store : Store) (slot : Slot) : Conduct m ν :=
  engine.conduct (store.treeAt store.depthBound slot)

/-! ## Parts that give way -/

section Equations
variable {engine} {shape : Shape} {new part : Conduct m ν} {front back below : List (Conduct m ν)}

theorem conduct_node (id : NodeId) (shape : Shape) (below : List Tree) :
    engine.conduct (.node id shape below) =
      engine.node (shape.withSlots []) (below.map engine.conduct) :=
  Tree.fold_node _ _ id shape below

theorem answersFrom_append (before : Nat) : engine.answersFrom shape before (front ++ back) =
    engine.answersFrom shape before front ++ engine.answersFrom shape (before + front.length) back := by
  induction front generalizing before with
  | nil => rfl
  | cons conduct rest ih =>
    rw [List.cons_append, answersFrom, ih, List.length_cons, Nat.add_right_comm, Nat.add_assoc]
    rfl

omit [Monad m] in
theorem namesOf_eq (names : new.names = part.names)
    (text : front = [] → shape.request 0 = .whole → new = part) :
    namesOf shape (front ++ new :: back) = namesOf shape (front ++ part :: back) := by
  have all : (front ++ new :: back).flatMap (·.names) = (front ++ part :: back).flatMap (·.names) := by
    simp only [List.flatMap_append, List.flatMap_cons, names]
  cases shape
  case declaration =>
    cases front with
    | nil => rw [text rfl rfl]
    | cons => exact congrArg (_ ++ ·) all
  all_goals exact all

/-- What a node does depends only on the answers to its requests and on the names declared. -/
theorem node_eq (same : engine.answer new (shape.request front.length) =
      engine.answer part (shape.request front.length)) (names : new.names = part.names) :
    engine.node shape (front ++ new :: back) = engine.node shape (front ++ part :: back) := by
  by_cases whole : shape.request front.length = .whole
  · rw [whole] at same
    rw [Part.whole.inj same]
  · have answers : engine.answersFrom shape 0 (front ++ new :: back) =
        engine.answersFrom shape 0 (front ++ part :: back) := by
      rw [answersFrom_append, answersFrom_append, answersFrom, answersFrom, Nat.zero_add, same]
    have named : namesOf shape (front ++ new :: back) = namesOf shape (front ++ part :: back) :=
      namesOf_eq names fun nil first => absurd (nil ▸ first) whole
    have declared (made : m ν) :
        declares shape made (front ++ new :: back) = declares shape made (front ++ part :: back) := by
      cases shape
      case function | labeled => exact absurd rfl whole
      case clause =>
        cases front with
        | nil => rfl
        | cons first front =>
          have functions : new.functions = part.functions := (Part.list.inj same).1
          simp only [declares, List.cons_append, List.tail_cons, List.flatMap_append,
            List.flatMap_cons, functions]
      all_goals rfl
    have labelled : labelOf? shape (front ++ new :: back) = labelOf? shape (front ++ part :: back) := by
      cases front with
      | cons => cases shape <;> rfl
      | nil =>
        cases shape
        case clause isDefault label statements =>
          have value : new.value = part.value := Part.value.inj same
          cases isDefault with
          | true => rfl
          | false => exact congrArg some value
        all_goals rfl
    simp only [node, answers, named, declared, labelled]

end Equations

/-! ## Nodes that stand for a value or an action -/

section Lone
variable {engine} {shape : Shape} {names : List String} {functions : Functions m ν}

/-- An action for its own sake, or a value that has no place. -/
def lone (names : List String) (value : m ν) : Conduct m ν :=
  { engine.plain value with
    names, functions := [], inner := ([], discard value), label? := none }

omit [Monad m] in
@[simp] theorem plain_value (value : m ν) : (engine.plain value).value = value := rfl

/-- What most nodes come to: one answer with the names of all parts. -/
theorem node_lone {conducts : List (Conduct m ν)} {value : m ν}
    (answers : engine.act shape (namesOf shape conducts) (engine.answersFrom shape 0 conducts) =
      engine.plain value)
    (plain : shape.isFunction = false ∧ shape.isContainer = false ∧ shape.isDeclaring = false) :
    engine.node shape conducts = engine.lone (conducts.flatMap (·.names)) value := by
  obtain ⟨noFunction, noContainer, noDeclaration⟩ := plain
  cases shape
  case function => cases noFunction
  case file | block | clause => cases noContainer
  case declaration | labeled => cases noDeclaration
  all_goals
    simp only [node, answers]
    rfl

variable [LawfulMonad m]

@[simp] theorem discard_performed (action : m Unit) :
    discard (engine.perform action).value = action := by
  simp [discard, perform, plain]

@[simp] theorem discard_then (action : m Unit) (value : ν) :
    discard (do action; pure value) = action := by
  simp [discard]

omit [LawfulMonad m] in
@[simp] theorem lone_value (value : m ν) : (engine.lone names value).value = value := rfl

omit [LawfulMonad m] in
@[simp] theorem lone_names (value : m ν) : (engine.lone names value).names = names := rfl

omit [LawfulMonad m] in
@[simp] theorem lone_functions (value : m ν) : (engine.lone names value).functions = [] := rfl

omit [LawfulMonad m] in
@[simp] theorem lone_inner (value : m ν) :
    (engine.lone names value).inner = ([], discard value) := rfl

theorem discard_bind {α : Type} (first : m α) (next : α → m ν) :
    discard (first >>= next) = first >>= fun result => discard (next result) := by
  simp [discard]

end Lone

/-! ## Lists of statements -/

section Lists
variable {engine} {shape : Shape} {lead front back others : List (Conduct m ν)}

theorem answersFrom_of_request {request : Request} {before : Nat}
    (same : ∀ more, before ≤ more → shape.request more = request) (conducts : List (Conduct m ν)) :
    engine.answersFrom shape before conducts =
      conducts.map fun conduct => engine.answer conduct request := by
  induction conducts generalizing before with
  | nil => rfl
  | cons first rest ih =>
    rw [answersFrom, same before (Nat.le_refl _),
      ih fun more later => same more (Nat.le_of_succ_le later), List.map_cons]

/-- What statements do one behind the other. -/
def doAll : List (Conduct m ν) → m Unit
  | [] => pure ()
  | first :: rest => do
    discard first.value
    doAll rest

theorem doAll_append [LawfulMonad m] (front back : List (Conduct m ν)) :
    doAll (front ++ back) = (do
      doAll front
      doAll back) := by
  induction front with
  | nil => exact (pure_bind () fun _ => doAll back).symm
  | cons first rest ih => rw [List.cons_append, doAll, ih, doAll, bind_assoc]

theorem gather_statements (conducts : List (Conduct m ν)) :
    gather (conducts.map fun conduct => engine.answer conduct .statement) =
      conducts.flatMap (·.functions) := by
  induction conducts with
  | nil => rfl
  | cons first rest ih => exact congrArg (first.functions ++ ·) ih

theorem runAll_statements (conducts : List (Conduct m ν)) :
    runAll (conducts.map fun conduct => engine.answer conduct .statement) = doAll conducts := by
  induction conducts with
  | nil => rfl
  | cons first rest ih => exact congrArg (fun later => do discard first.value; later) ih

theorem request_of_isContainer (isContainer : shape.isContainer = true) {before : Nat}
    (behind : shape.leading.length ≤ before) : shape.request before = .statement := by
  cases shape
  case file | block => rfl
  case clause => exact if_neg (Nat.ne_of_gt behind)
  all_goals cases isContainer

/-- A file, a block or a clause depends only on the names, the functions and the actions of its
statements. -/
theorem node_container {conducts : List (Conduct m ν)} (isContainer : shape.isContainer = true)
    (leads : shape.leading.length = lead.length)
    (names : conducts.flatMap (·.names) = others.flatMap (·.names))
    (functions : conducts.flatMap (·.functions) = others.flatMap (·.functions))
    (actions : doAll conducts = doAll others) :
    engine.node shape (lead ++ conducts) = engine.node shape (lead ++ others) := by
  have named : (lead ++ conducts).flatMap (·.names) = (lead ++ others).flatMap (·.names) := by
    rw [List.flatMap_append, List.flatMap_append, names]
  have told (conducts : List (Conduct m ν)) : engine.answersFrom shape lead.length conducts =
      conducts.map fun conduct => engine.answer conduct .statement :=
    answersFrom_of_request (fun _ later => request_of_isContainer isContainer (leads ▸ later)) conducts
  have gathered : gather (engine.answersFrom shape lead.length conducts) =
      gather (engine.answersFrom shape lead.length others) := by
    rw [told, told, gather_statements, gather_statements, functions]
  have run : runAll (engine.answersFrom shape lead.length conducts) =
      runAll (engine.answersFrom shape lead.length others) := by
    rw [told, told, runAll_statements, runAll_statements, actions]
  cases shape
  case file | block =>
    obtain rfl := List.eq_nil_of_length_eq_zero leads.symm
    simp only [List.nil_append, List.length_nil] at named gathered run ⊢
    simp only [node, namesOf, named, act, gathered, run, declares, labelOf?]
  case clause isDefault label statements =>
    obtain ⟨first, rfl⟩ := List.length_eq_one_iff.mp leads.symm
    simp only [List.cons_append, List.nil_append, List.length_singleton] at named gathered run ⊢
    have label : Shape.request (.clause isDefault label statements) 0 = .value := rfl
    simp only [node, namesOf, named, answersFrom, Nat.zero_add, label, answer, act, runAll, run,
      declares, List.tail_cons, functions]
    cases isDefault <;> rfl
  all_goals cases isContainer

end Lists

end Engine

end Execution

end Unflatten
