import Mathlib.Control.Monad.Cont
import Unflatten.Proofs.Execution.Meaning

/-! # Calls of functions

A call has a frame of its own: fresh variables for the parameters and for what the body declares,
its `this`, the values it was given, and the way back to where it was called.  A `Caller` is a
machine for each scope, with what it takes to make scopes and functions, in a monad with
continuations.  A tree is run in a frame; one that has no `return`, no `this` and no `arguments`
outside nested functions needs nothing of the frame but the scope (`Caller.run_eq_of_isFrameless`). -/

set_option autoImplicit false

namespace Unflatten

/-- Whether a node takes more than the scope from the call that it runs in. -/
def Shape.isFramed : Shape → Bool
  | .exit .returns _ | .token .thisKeyword | .identifier "arguments" => true
  | _ => false

theorem Shape.isFramed_withSlots (shape : Shape) (slots : List Slot) :
    (shape.withSlots slots).isFramed = shape.isFramed := by
  cases shape
  case exit kind _ => cases kind <;> rfl
  all_goals rfl

namespace Tree

/-- Whether nothing outside nested functions belongs to the call that it runs in. -/
def isFrameless (tree : Tree) : Bool :=
  tree.fold true fun shape parts =>
    shape.isFunction || !shape.isFramed && parts.all fun part => part

/-- Whether nothing outside nested functions declares a name. -/
def declaresNothing (tree : Tree) : Bool :=
  tree.fold true fun shape parts => match shape with
    | .function isExpression _ _ _ => isExpression
    | .declaration _ _ => false
    | _ => parts.all fun part => part

end Tree

namespace Execution

structure Frame (m : Type → Type) (σ ν : Type) where
  scope : σ
  this : ν
  given : List ν
  leave : MonadCont.Label ν m ν

/-- A frame whose call does something else before it is left. -/
def Frame.leavingBy {m : Type → Type} {σ ν : Type} [Monad m] (frame : Frame m σ ν) (last : m ν) :
    Frame m σ ν :=
  { frame with
    leave := ⟨fun value => do
      let _ ← last
      frame.leave.apply value⟩ }

/-- A name that a function or a program declares, and the function that it names from the start. -/
structure Declared (m : Type → Type) (σ ν : Type) where
  name : String
  function? : Option (σ → m ν)

/-- What a tree does in a frame, what it declares outside nested functions, and what a call does
without arguments if the tree is a function without a name and parameters. -/
structure Sense (m : Type → Type) (σ ν : Type) where
  text : Option String
  declared : List (Declared m σ ν)
  called? : Option (σ → m ν)
  run : Frame m σ ν → Meaning m ν

/-- A machine for each scope, and what it takes to call functions. -/
structure Caller (m : Type → Type) (σ ν : Type) where
  machine : σ → Machine m ν
  /-- The scope with one more variable, which is fresh. -/
  bind : σ → String → m σ
  undefined : ν
  negate : ν → ν
  argumentsOf : List ν → m ν
  /-- A function with the scope it was made in, its name, and what a call of it does. -/
  closure : σ → Option String → (σ → ν → List ν → m ν) → m ν

namespace Caller

variable {m : Type → Type} {σ ν : Type} [Monad m] [MonadCont m] (caller : Caller m σ ν)

/-! ## Calls -/

/-- A scope with fresh variables, of which some name functions from the start. -/
def enter (scope : σ) (parameters : List String) (declared : List (Declared m σ ν)) : m σ := do
  let inner ← (parameters ++ declared.map (·.name)).foldlM caller.bind scope
  declared.forM fun one =>
    match one.function? with
    | none => pure ()
    | some make => do
      let function ← make inner
      (caller.machine inner).write (.name one.name) function
  pure inner

/-- A call of a function that was made in a scope. -/
def invoke (scope : σ) (parameters : List String) (body : Sense m σ ν) (this : ν) (given : List ν) :
    m ν :=
  MonadCont.callCC fun leave => do
    let inner ← caller.enter scope parameters body.declared
    (parameters.zip given).forM fun (name, value) => (caller.machine inner).write (.name name) value
    let _ ← (body.run ⟨inner, this, given, leave⟩).value
    pure caller.undefined

/-- The parameters of a function and its body, of the parts behind its name. -/
def signature (parts : List (Sense m σ ν)) : List String × Option (Sense m σ ν) :=
  (parts.dropLast.filterMap (·.text), parts.getLast?)

def make (parts : List (Sense m σ ν)) (scope : σ) : m ν :=
  match parts with
  | [] => pure caller.undefined
  | name :: rest =>
    caller.closure scope name.text fun scope this given =>
      match signature rest with
      | (parameters, some body) => caller.invoke scope parameters body this given
      | (_, none) => pure caller.undefined

/-! ## Trees -/

/-- A node that has no value of its own. -/
def effect (scope : σ) (action : m Unit) : Meaning m ν :=
  ⟨do action; pure caller.undefined, (caller.machine scope).nowhere, none⟩

def runAll (parts : List (Meaning m ν)) : m Unit :=
  parts.forM fun part => do
    let _ ← part.value
    pure ()

/-- A node that takes nothing but the scope from the frame that it runs in. -/
def act (scope : σ) (shape : Shape) (called? : Option (σ → m ν)) (parts : List (Meaning m ν)) :
    Meaning m ν :=
  match shape, called?, parts with
  | .block _, _, parts => caller.effect scope (runAll parts)
  | .expressionStatement _, _, parts => caller.effect scope (runAll parts)
  | .unary _ .exclamation _, _, [operand] =>
    ⟨do
      let value ← operand.value
      pure (caller.negate value), (caller.machine scope).nowhere, none⟩
  | .call false _ _, some call, [_] => ⟨call scope, (caller.machine scope).nowhere, none⟩
  | shape, _, parts => (caller.machine scope).node shape parts

def perform (shape : Shape) (parts : List (Sense m σ ν)) (frame : Frame m σ ν) : Meaning m ν :=
  match shape, parts with
  | .function isExpression _ _ _, parts =>
    if isExpression then
      ⟨caller.make parts frame.scope, (caller.machine frame.scope).nowhere, none⟩
    else caller.effect frame.scope (pure ())
  | .exit .returns _, parts =>
    ⟨do
      let value ← match parts.head? with
        | some part => (part.run frame).value
        | none => pure caller.undefined
      frame.leave.apply value, (caller.machine frame.scope).nowhere, none⟩
  | .token .thisKeyword, _ => ⟨pure frame.this, (caller.machine frame.scope).nowhere, none⟩
  | .identifier "arguments", _ =>
    ⟨caller.argumentsOf frame.given, pure (.name "arguments"), some "arguments"⟩
  | .file _ _, parts => caller.effect frame.scope do
      let scope ← caller.enter frame.scope [] (parts.flatMap (·.declared))
      runAll (parts.map fun part => part.run { frame with scope := scope })
  | .tryStatement _ _ _, [body, handler, finalizer] =>
    let inner := frame.leavingBy (finalizer.run frame).value
    caller.act frame.scope shape none [body.run inner, handler.run inner, finalizer.run frame]
  | shape, parts =>
    caller.act frame.scope shape (parts.head?.bind (·.called?)) (parts.map fun part => part.run frame)

/-- What a node declares outside nested functions. -/
def declares (shape : Shape) (parts : List (Sense m σ ν)) : List (Declared m σ ν) :=
  match shape with
  | .function true _ _ _ => []
  | .function false _ _ _ =>
    ((parts.head?.bind (·.text)).map fun name => ⟨name, some (caller.make parts)⟩).toList
  | .declaration _ _ =>
    ((parts.head?.bind (·.text)).map fun name => ⟨name, none⟩).toList ++ parts.flatMap (·.declared)
  | _ => parts.flatMap (·.declared)

def node (shape : Shape) (parts : List (Sense m σ ν)) : Sense m σ ν where
  text := match shape with
    | .identifier text => some text
    | _ => none
  declared := caller.declares shape parts
  called? := match shape, parts with
    | .function true _ _ _, [name, body] =>
      if name.text.isNone then some fun scope => caller.invoke scope [] body caller.undefined []
      else none
    | _, _ => none
  run := caller.perform shape parts

/-- Where there is no node, nothing is done. -/
def nothing : Sense m σ ν where
  text := none
  declared := []
  called? := none
  run frame := caller.effect frame.scope (pure ())

def sense (tree : Tree) : Sense m σ ν := tree.fold caller.nothing caller.node

def senseAt (store : Store) (slot : Slot) : Sense m σ ν :=
  caller.sense (store.treeAt store.depthBound slot)

theorem sense_node (id : NodeId) (shape : Shape) (below : List Tree) :
    caller.sense (.node id shape below) =
      caller.node (shape.withSlots []) (below.map caller.sense) :=
  Tree.fold_node _ _ id shape below

/-! ## What is left of the frame -/

section Frameless
variable {caller} {shape : Shape} {parts : List (Sense m σ ν)} {frame other : Frame m σ ν}

theorem perform_eq (own : shape.isFramed = false)
    (each : shape.isFunction = false → ∀ part ∈ parts, ∀ frame other : Frame m σ ν,
      frame.scope = other.scope → part.run frame = part.run other)
    (same : frame.scope = other.scope) :
    caller.perform shape parts frame = caller.perform shape parts other := by
  have all : ∀ frame other : Frame m σ ν, frame.scope = other.scope → shape.isFunction = false →
      parts.map (·.run frame) = parts.map (·.run other) := fun frame other same plain =>
    List.map_congr_left fun part member => each plain part member frame other same
  unfold perform
  -- in the order of its cases: a file changes the scope for its parts, a `try` the way back
  split
  · rw [same]
  · cases own
  · cases own
  · cases own
  · rw [same]
    unfold effect
    congr 2
    exact bind_congr fun scope => by
      rw [all { frame with scope := scope } { other with scope := scope } rfl rfl]
  · rename_i body handler finalizer
    have run := each rfl
    simp only [List.mem_cons, List.not_mem_nil, or_false, forall_eq_or_imp, forall_eq] at run
    obtain ⟨first, second, third⟩ := run
    simp only
    rw [third frame other same,
      first (frame.leavingBy (finalizer.run other).value) (other.leavingBy (finalizer.run other).value) same,
      second (frame.leavingBy (finalizer.run other).value) (other.leavingBy (finalizer.run other).value)
        same, same]
  · rename_i noFunction _ _ _ _ _
    have plain : shape.isFunction = false := by
      cases shape
      case function => exact (noFunction _ _ _ _ rfl).elim
      all_goals rfl
    rw [same, all frame other same plain]

/-- A tree without `return`, `this` and `arguments` takes nothing but the scope from the frame. -/
theorem run_eq_of_isFrameless {tree : Tree} (frameless : tree.isFrameless = true)
    (same : frame.scope = other.scope) :
    (caller.sense tree).run frame = (caller.sense tree).run other := by
  induction tree generalizing frame other with
  | nothing =>
    change caller.effect frame.scope _ = caller.effect other.scope _
    rw [same]
  | node id shape below ih =>
    rw [sense_node]
    rw [Tree.isFrameless, Tree.fold_node, Bool.or_eq_true, Bool.and_eq_true, Bool.not_eq_true',
      List.all_map, List.all_eq_true] at frameless
    refine perform_eq ?_ (fun plain part member frame other same => ?_) same
    · rcases frameless with isFunction | ⟨own, -⟩
      · cases shape <;> first | rfl | cases isFunction
      · exact own
    · obtain ⟨tree, there, rfl⟩ := List.mem_map.mp member
      rw [plain] at frameless
      exact ih tree there ((frameless.resolve_left Bool.false_ne_true).2 tree there) same

theorem declared_eq_nil {tree : Tree} (free : tree.declaresNothing = true) :
    (caller.sense tree).declared = [] := by
  induction tree with
  | nothing => rfl
  | node id shape below ih =>
    rw [Tree.declaresNothing, Tree.fold_node] at free
    rw [sense_node]
    change caller.declares _ _ = []
    have parts (all : (below.map Tree.declaresNothing).all (fun part => part) = true) :
        (below.map caller.sense).flatMap (·.declared) = [] := by
      rw [List.all_map, List.all_eq_true] at all
      rw [List.flatMap_eq_nil_iff]
      intro part member
      obtain ⟨tree, there, rfl⟩ := List.mem_map.mp member
      exact ih tree there (all tree there)
    cases shape
    case function isExpression _ _ _ =>
      cases isExpression
      · cases free
      · rfl
    case declaration => cases free
    all_goals exact parts free

/-- A call without arguments of a function whose body declares nothing and takes nothing from the
call does what the body does. -/
theorem invoke_eq [LawfulMonadCont m] {tree : Tree} (frameless : tree.isFrameless = true)
    (free : tree.declaresNothing = true) (frame : Frame m σ ν) :
    caller.invoke frame.scope [] (caller.sense tree) caller.undefined [] = (do
      let _ ← ((caller.sense tree).run frame).value
      pure caller.undefined) := by
  have run : ∀ leave : MonadCont.Label ν m ν,
      (caller.sense tree).run ⟨frame.scope, caller.undefined, [], leave⟩ =
        (caller.sense tree).run frame :=
    fun leave => run_eq_of_isFrameless frameless rfl
  unfold invoke enter
  simp only [declared_eq_nil free, List.map_nil, List.append_nil, List.foldlM_nil,
    List.forM_eq_forM, List.forM_nil, pure_bind, List.zip_nil_left, run]
  exact LawfulMonadCont.callCC_dummy _

end Frameless

end Caller

end Execution

end Unflatten
