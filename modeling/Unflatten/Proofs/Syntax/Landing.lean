import Unflatten.Proofs.Syntax.Standing

/-! # Where jumps land

`Tree.unmet` collects what the jumps of a tree do not find in it.  Here the same is said from the
side of a jump: what stands around it, innermost first, has a loop or a `switch` in the same
function, or a statement with its label (`Tree.JumpsLand`). -/

set_option autoImplicit false

namespace Unflatten

namespace Shape

/-- Whether a `break` without a label leaves it. -/
def takesBreak : Shape → Bool
  | .loop _ _ _ _ _ | .forIn _ _ _ | .switch _ _ => true
  | _ => false

/-- Whether a `continue` without a label goes on with it. -/
def takesContinue : Shape → Bool
  | .loop _ _ _ _ _ | .forIn _ _ _ => true
  | _ => false

end Shape

namespace Tree

/-- What stands around a part of a tree, innermost first. -/
inductive Around (part : Tree) : Tree → List Tree → Prop
  | here : Around part part []
  | deeper {id : NodeId} {shape : Shape} {below around : List Tree} {child : Tree}
      (member : child ∈ below) (inner : Around part child around) :
      Around part (.node id shape below) (around ++ [.node id shape below])

/-- Whether the root of a tree passes a test. -/
def passes (test : Shape → Bool) : Tree → Bool
  | .nothing => false
  | .node _ shape _ => test shape

/-- The label of a labeled statement. -/
def labels? : Tree → Option String
  | .node _ (.labeled _ _) below => label? below
  | _ => none

@[simp] theorem passes_node (test : Shape → Bool) (id : NodeId) (shape : Shape) (below : List Tree) :
    (node id shape below).passes test = test shape := rfl

/-- What stands around a node in the same function. -/
def inFunction (around : List Tree) : List Tree :=
  around.takeWhile fun tree => !tree.passes Shape.isFunction

/-- A jump finds what it needs in what stands around it. -/
def Finds (around : List Tree) : Target → Prop
  | .breaks => ∃ tree ∈ inFunction around, tree.passes Shape.takesBreak = true
  | .continues => ∃ tree ∈ inFunction around, tree.passes Shape.takesContinue = true
  | .label text => ∃ tree ∈ around, tree.labels? = some text
  | .stray => False

/-- Every jump of a tree finds what it needs. -/
def JumpsLand (tree : Tree) : Prop :=
  ∀ id shape below around, Around (.node id shape below) tree around →
    ∀ target ∈ shape.asks (label? below), Finds around target

/-! ## What is left over -/

/-- What is left of a need outside a tree. -/
def leaves : Tree → Target → Option Target
  | .nothing, target => some target
  | .node _ shape below, target => shape.leaves (label? below) target

/-- What is left of a need outside all that stands around. -/
def leavesAll : List Tree → Target → Option Target
  | [], target => some target
  | tree :: outer, target => (tree.leaves target).bind (leavesAll outer)

section Leaving
variable {tree : Tree} {around outer : List Tree} {target : Target} {text : String}

theorem leavesAll_append (inner outer : List Tree) (target : Target) :
    leavesAll (inner ++ outer) target = (leavesAll inner target).bind (leavesAll outer) := by
  induction inner generalizing target with
  | nil => rfl
  | cons tree rest ih =>
    rw [List.cons_append, leavesAll, leavesAll, Option.bind_assoc]
    exact congrArg _ (funext fun left => ih left)

theorem leavesAll_stray (around : List Tree) : leavesAll around .stray = some .stray := by
  induction around with
  | nil => rfl
  | cons tree outer ih =>
    have passed : tree.leaves .stray = some .stray := by
      cases tree with
      | nothing => rfl
      | node id shape below => cases shape <;> rfl
    rw [leavesAll, passed, Option.bind_some, ih]

/-- A need for a label is met by a statement with the label, across functions. -/
theorem leavesAll_label : leavesAll around (.label text) = none ↔ Finds around (.label text) := by
  induction around with
  | nil => simp [leavesAll, Finds]
  | cons tree outer ih =>
    have passed : tree.leaves (.label text) =
        if tree.labels? = some text then none else some (.label text) := by
      cases tree with
      | nothing => rfl
      | node id shape below => cases shape <;> rfl
    rw [Finds] at ih ⊢
    rw [leavesAll, passed]
    by_cases named : tree.labels? = some text
    · simp [named]
    · simp [named, ih]

/-- A need for a loop or a `switch` is met by one in the same function. -/
theorem leavesAll_loop {test : Shape → Bool} (met : ∀ shape label, test shape = true →
      shape.leaves label target = none)
    (lost : ∀ shape label, test shape = false → shape.isFunction = true →
      shape.leaves label target = some .stray)
    (passed : ∀ shape label, test shape = false → shape.isFunction = false →
      shape.leaves label target = some target)
    (apart : ∀ shape : Shape, test shape = true → shape.isFunction = false) :
    leavesAll around target = none ↔ ∃ tree ∈ inFunction around, tree.passes test = true := by
  induction around with
  | nil => simp [leavesAll, inFunction]
  | cons tree outer ih =>
    rw [leavesAll, inFunction, List.takeWhile_cons]
    cases tree with
    | nothing =>
      rw [inFunction] at ih
      simp [leaves, passes, ih]
    | node id shape below =>
      rw [leaves, passes_node]
      by_cases takes : test shape = true
      · simp [met shape _ takes, apart shape takes, takes]
      · rw [Bool.not_eq_true] at takes
        by_cases function : shape.isFunction = true
        · simp [lost shape _ takes function, leavesAll_stray, function]
        · rw [Bool.not_eq_true] at function
          rw [inFunction] at ih
          simp [passed shape _ takes function, ih, takes, function]

theorem leavesAll_eq_none_iff : leavesAll around target = none ↔ Finds around target := by
  cases target with
  | breaks =>
    refine leavesAll_loop ?_ ?_ ?_ ?_
    all_goals intro shape; cases shape <;> simp [Shape.takesBreak, Shape.leaves, Shape.isFunction]
  | continues =>
    refine leavesAll_loop ?_ ?_ ?_ ?_
    all_goals intro shape; cases shape <;> simp [Shape.takesContinue, Shape.leaves, Shape.isFunction]
  | label text => exact leavesAll_label
  | stray => simp [leavesAll_stray, Finds]

/-- What a tree needs around it is what is left of the needs of its jumps. -/
theorem mem_unmet : target ∈ tree.unmet ↔ ∃ id shape below around asked,
    Around (.node id shape below) tree around ∧ asked ∈ shape.asks (label? below) ∧
      leavesAll around asked = some target := by
  induction tree generalizing target with
  | nothing =>
    constructor
    · intro needed
      cases needed
    · rintro ⟨_, _, _, _, _, impossible, -⟩
      cases impossible
  | node id shape below ih =>
    rw [unmet, List.mem_append, List.mem_filterMap]
    constructor
    · rintro (asked | ⟨inner, needed, left⟩)
      · exact ⟨id, shape, below, [], target, .here, asked, rfl⟩
      · obtain ⟨child, member, there⟩ := mem_unmetAll.mp needed
        obtain ⟨id', shape', below', around, asked, stands, asks, leavesInner⟩ :=
          (ih child member).mp there
        refine ⟨id', shape', below', _, asked, .deeper member stands, asks, ?_⟩
        rw [leavesAll_append, leavesInner, Option.bind_some, leavesAll, leaves, left]
        rfl
    · rintro ⟨id', shape', below', around, asked, stands, asks, left⟩
      cases stands with
      | here =>
        cases left
        exact .inl asks
      | @deeper _ _ _ around child member inner =>
        rw [leavesAll_append] at left
        obtain ⟨kept, leavesInner, last⟩ := Option.bind_eq_some_iff.mp left
        obtain ⟨out, leavesNode, same⟩ := Option.bind_eq_some_iff.mp last
        cases same
        exact .inr ⟨kept, mem_unmetAll.mpr ⟨child, member, (ih child member).mpr
          ⟨id', shape', below', around, asked, inner, asks, leavesInner⟩⟩, leavesNode⟩

/-- Nothing is left over if and only if all jumps land. -/
theorem unmet_eq_nil_iff : tree.unmet = [] ↔ tree.JumpsLand := by
  constructor
  · intro met id shape below around stands target asked
    rw [← leavesAll_eq_none_iff, Option.eq_none_iff_forall_ne_some]
    intro left remains
    have needed : left ∈ tree.unmet :=
      mem_unmet.mpr ⟨id, shape, below, around, target, stands, asked, remains⟩
    rw [met] at needed
    cases needed
  · intro land
    rw [List.eq_nil_iff_forall_not_mem]
    intro target needed
    obtain ⟨id, shape, below, around, asked, stands, asks, left⟩ := mem_unmet.mp needed
    rw [leavesAll_eq_none_iff.mpr (land id shape below around stands asked asks)] at left
    cases left

end Leaving

end Tree

namespace Store

/-- Every jump below a node finds what it needs. -/
def JumpsLand (store : Store) (root : NodeId) : Prop :=
  (store.treeAt store.depthBound (some root)).JumpsLand

section Trees
variable {store : Store} {root : NodeId} {tree : Tree}

theorem Holds.treeAt_eq {depth : Nat} (holds : store.Holds tree) (deep : tree.height ≤ depth) :
    store.treeAt depth tree.root = tree := by
  induction holds generalizing depth with
  | nothing => cases depth <;> rfl
  | @node id shape below found regular roots links inner ih =>
    cases depth with
    | zero => cases deep
    | succ depth =>
      rw [Tree.root_node, treeAt, found]
      simp only [Tree.node.injEq, true_and]
      rw [roots, List.map_map]
      refine (List.map_congr_left fun child member => ?_).trans (List.map_id below)
      exact ih child member (Nat.le_of_lt_succ (Nat.lt_of_lt_of_le (Tree.height_lt_node member) deep))

/-- A tree in a store is what is found at its root. -/
theorem Holds.treeAt_root (holds : store.Holds tree) (nodup : tree.names.Nodup) :
    store.treeAt store.depthBound tree.root = tree :=
  holds.treeAt_eq (Nat.le_succ_of_le (holds.height_le nodup))

theorem Stands.treeAt_eq (stands : store.Stands root tree) :
    store.treeAt store.depthBound (some root) = tree := by
  rw [← stands.rooted]
  exact stands.holds.treeAt_root stands.nodup

theorem Stands.jumpsLand_iff (stands : store.Stands root tree) :
    store.JumpsLand root ↔ tree.unmet = [] := by
  rw [JumpsLand, stands.treeAt_eq, Tree.unmet_eq_nil_iff]

end Trees

end Store

end Unflatten
