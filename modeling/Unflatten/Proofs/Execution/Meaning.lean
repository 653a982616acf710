import Unflatten.Proofs.Syntax.Landing

/-! # What expressions mean

A `Machine` runs expressions in some monad, which may keep variables, objects and a record of what
is done, and may throw or never end.  What names, members, conditionals, binary expressions and
assignments do is laid down here, with the order in which their parts are run (`Machine.node`);
every other node does what the machine makes of its parts.  The meaning of a tree is put together of
those of its parts (`Machine.meaning`), so a part may give way to another of the same meaning. -/

set_option autoImplicit false

namespace Unflatten

namespace Tree

section Fold
variable {α : Type} (nothing : α) (node : Shape → List α → α)

mutual

/-- What is made of a tree from its leaves on.  Names of nodes do not matter. -/
def fold : Tree → α
  | .nothing => nothing
  | .node _ shape below => node (shape.withSlots []) (foldAll below)

def foldAll : List Tree → List α
  | [] => []
  | tree :: rest => fold tree :: foldAll rest

end

theorem foldAll_eq (trees : List Tree) : foldAll nothing node trees = trees.map (fold nothing node) := by
  induction trees with
  | nil => rfl
  | cons tree rest ih => rw [foldAll, ih, List.map_cons]

theorem fold_node (id : NodeId) (shape : Shape) (below : List Tree) :
    fold nothing node (.node id shape below) =
      node (shape.withSlots []) (below.map (fold nothing node)) := by
  rw [fold, foldAll_eq]

theorem fold_bare (tree : Tree) : tree.bare.fold nothing node = tree.fold nothing node := by
  induction tree with
  | nothing => rfl
  | node id shape below ih =>
    rw [bare, fold_node, fold_node, bareAll_eq, List.map_map, Shape.withSlots_withSlots]
    congr 1
    exact List.map_congr_left ih

theorem Placed.fold_eq {part new whole result : Tree} (placed : Placed part new whole result)
    (same : new.fold nothing node = part.fold nothing node) :
    result.fold nothing node = whole.fold nothing node := by
  induction placed with
  | here => exact same
  | deeper _ shapes ih =>
    rw [fold_node, fold_node, shapes, List.map_append, List.map_cons, ih, List.map_append, List.map_cons]

/-- The same is made of a program when a part has given way to one of which the same is made. -/
theorem Placed.fold_treeAt {store later : Store} {root : NodeId} {tree remade part new : Tree}
    (placed : Placed part new tree remade) (stands : store.Stands root tree)
    (remakes : Store.Remakes store later tree remade [])
    (same : new.fold nothing node = part.fold nothing node) :
    (later.treeAt later.depthBound (some root)).fold nothing node =
      (store.treeAt store.depthBound (some root)).fold nothing node := by
  rw [stands.treeAt_eq, (stands.remade remakes).treeAt_eq]
  exact placed.fold_eq nothing node same

end Fold

end Tree

namespace Execution

/-- Where a value is read and written. -/
inductive Place (ν : Type) where
  | name (text : String)
  | member (object key : ν)
  deriving DecidableEq, Repr

/-- What a tree does when its value or its place is asked for, and its text if it is a name. -/
structure Meaning (m : Type → Type) (ν : Type) where
  value : m ν
  place : m (Place ν)
  text : Option String

/-- What runs expressions: in a monad `m`, with values of a type `ν`. -/
structure Machine (m : Type → Type) (ν : Type) where
  read : Place ν → m ν
  write : Place ν → ν → m Unit
  /-- The key of a member that is named. -/
  key : String → ν
  holds : ν → Bool
  isNullish : ν → Bool
  operate : TokenKind → ν → ν → m ν
  /-- What is done when the place is asked for of what has none. -/
  nowhere : m (Place ν)
  other : Shape → List (Meaning m ν) → Meaning m ν

namespace Machine

variable {m : Type → Type} {ν : Type}

/-- Whether the left operand alone gives the value. -/
def decides (machine : Machine m ν) : TokenKind → ν → Bool
  | .ampersandAmpersand, left => !machine.holds left
  | .barBar, left => machine.holds left
  | .questionQuestion, left => !machine.isNullish left
  | _, _ => false

section Nodes
variable [Monad m]

def combine (machine : Machine m ν) (operator : TokenKind) (left right : ν) : m ν :=
  match operator with
  | .ampersandAmpersand | .barBar | .questionQuestion => pure right
  | _ => machine.operate operator left right

/-! ## Assignments -/

/-- What an assignment does first: it finds the place, and a compound one reads what is there. -/
def approach (machine : Machine m ν) (operator : TokenKind) (place : m (Place ν)) :
    m (Place ν × Option ν) :=
  match operator.compound? with
  | none => do
    let found ← place
    pure (found, none)
  | some _ => do
    let found ← place
    let old ← machine.read found
    pure (found, some old)

/-- The value of a logical assignment that ends with what it has read. -/
def settled? (machine : Machine m ν) (operator : TokenKind) (before : Place ν × Option ν) : Option ν :=
  match operator.compound?, before.2 with
  | some applied, some old => if machine.decides applied old then some old else none
  | _, _ => none

/-- What an assignment does with the value on its right. -/
def finish (machine : Machine m ν) (operator : TokenKind) (before : Place ν × Option ν) (given : ν) :
    m ν :=
  match operator.compound?, before.2 with
  | some applied, some old => do
    let new ← machine.combine applied old given
    machine.write before.1 new
    pure new
  | _, _ => do
    machine.write before.1 given
    pure given

/-- An assignment: the place, what is there, the right side, and then the new value is written. -/
def assign (machine : Machine m ν) (operator : TokenKind) (place : m (Place ν)) (right : m ν) : m ν := do
  let before ← machine.approach operator place
  match machine.settled? operator before with
  | some old => pure old
  | none => do
    let given ← right
    machine.finish operator before given

/-! ## Nodes -/

def test (machine : Machine m ν) (condition : m ν) : m Bool := do
  let value ← condition
  pure (machine.holds value)

/-- A binary expression whose operator assigns nothing. -/
def join (machine : Machine m ν) (operator : TokenKind) (left right : m ν) : m ν := do
  let first ← left
  if machine.decides operator first then pure first
  else do
    let second ← right
    machine.combine operator first second

/-- What a node means, put together of the meanings of its parts. -/
def node (machine : Machine m ν) (shape : Shape) (parts : List (Meaning m ν)) : Meaning m ν :=
  match shape, parts with
  | .identifier text, [] => ⟨machine.read (.name text), pure (.name text), some text⟩
  | .access isElement _ _, [object, property] =>
    let place := do
      let base ← object.value
      let key ← (if isElement then property.value else pure (machine.key (property.text.getD "")))
      pure (.member base key)
    ⟨place >>= machine.read, place, none⟩
  | .conditional _ _ _, [condition, yes, no] =>
    let value := do
      let holds ← machine.test condition.value
      if holds then yes.value else no.value
    ⟨value, machine.nowhere, none⟩
  | .binary _ operator _, [left, right] =>
    let value :=
      if operator.isAssignment then machine.assign operator left.place right.value
      else machine.join operator left.value right.value
    ⟨value, machine.nowhere, none⟩
  | shape, parts => machine.other shape parts

def meaning (machine : Machine m ν) (tree : Tree) : Meaning m ν :=
  tree.fold (machine.other .omitted []) machine.node

end Nodes

/-! ## Moving a test before an assignment -/

section Moving
variable [Monad m] (machine : Machine m ν) {operator : TokenKind} {place : m (Place ν)} {test : m Bool}

/-- It makes no difference whether a test is run before the assignment finds its place, or after
that, and then only if the assignment asks for its right side. -/
def Unseen (operator : TokenKind) (place : m (Place ν)) (test : m Bool) : Prop :=
  (do
    let before ← machine.approach operator place
    if (machine.settled? operator before).isSome then pure (before, false)
    else do
      let holds ← test
      pure (before, holds)) =
  (do
    let holds ← test
    let before ← machine.approach operator place
    pure (before, (machine.settled? operator before).isNone && holds))

variable [LawfulMonad m]

/-- A plain assignment to a name reads nothing before its right side. -/
theorem unseen_name (text : String) (test : m Bool) : machine.Unseen .equals (pure (.name text)) test := by
  simp [Unseen, approach, settled?, TokenKind.compound?]

theorem unseen_pure (operator : TokenKind) (place : m (Place ν)) (holds : Bool) :
    machine.Unseen operator place (pure holds) := by
  unfold Unseen
  simp only [pure_bind]
  refine bind_congr fun before => ?_
  cases machine.settled? operator before <;> rfl

variable {machine}

theorem Unseen.assign_eq (unseen : machine.Unseen operator place test) (yes no : m ν) :
    machine.assign operator place (do if ← test then yes else no) = (do
      if ← test then machine.assign operator place yes else machine.assign operator place no) := by
  -- what is left to do when the place is found and the test was run
  let rest (state : (Place ν × Option ν) × Bool) : m ν :=
    match machine.settled? operator state.1 with
    | some old => pure old
    | none => (if state.2 then yes else no) >>= machine.finish operator state.1
  have before : machine.assign operator place (do if ← test then yes else no) = (do
      let before ← machine.approach operator place
      if (machine.settled? operator before).isSome then pure (before, false)
      else do
        let holds ← test
        pure (before, holds)) >>= rest := by
    rw [bind_assoc]
    refine bind_congr fun before => ?_
    cases same : machine.settled? operator before with
    | none => simp [rest, same]
    | some old => simp [rest, same]
  have after : (do
      if ← test then machine.assign operator place yes else machine.assign operator place no) = (do
      let holds ← test
      let before ← machine.approach operator place
      pure (before, (machine.settled? operator before).isNone && holds)) >>= rest := by
    rw [bind_assoc]
    refine bind_congr fun holds => ?_
    have chosen : (if holds then machine.assign operator place yes
        else machine.assign operator place no) =
        machine.assign operator place (if holds then yes else no) := by
      cases holds <;> rfl
    rw [chosen, bind_assoc]
    refine bind_congr fun before => ?_
    cases same : machine.settled? operator before with
    | none => simp [rest, same]
    | some old => simp [rest, same]
  rw [before, after]
  exact congrArg (· >>= rest) unseen

end Moving

end Machine

end Execution

end Unflatten
