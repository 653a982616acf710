import Mathlib
import Unflatten.Syntax.Facts

/-! # Trees in the store

A `Tree` is what a slot stands for once all names below it are followed: nothing, or a
node with one tree for each slot of its shape.  `Store.Holds` says that a store contains a
tree, with parent links to match, and `Store.UnfoldsTo` leaves the links aside.  A store contains
at most one tree below a slot, and the walks of the store visit the names of that tree. -/

set_option autoImplicit false

namespace Unflatten

theorem exists_of_mem_forall₂ {α β : Type} {related : α → β → Prop} {xs : List α} {ys : List β}
    (all : List.Forall₂ related xs ys) {y : β} (member : y ∈ ys) : ∃ x ∈ xs, related x y := by
  induction all with
  | nil => cases member
  | cons first _ ih =>
    rcases List.mem_cons.mp member with rfl | later
    · exact ⟨_, List.mem_cons_self, first⟩
    · obtain ⟨x, there, found⟩ := ih later
      exact ⟨x, List.mem_cons_of_mem _ there, found⟩

/-- What is put in front of a tail item by item is put there as a whole. -/
theorem foldr_onto {α β : Type} {put : α → List β → List β}
    (onto : ∀ item tail, put item tail = put item [] ++ tail) (items : List α) (tail : List β) :
    items.foldr put tail = (items.flatMap fun item => put item []) ++ tail := by
  induction items with
  | nil => rfl
  | cons item rest ih => rw [List.foldr_cons, onto, ih, List.flatMap_cons, List.append_assoc]

/-- What a slot stands for: one tree for each slot of a node. -/
inductive Tree where
  | nothing
  | node (id : NodeId) (shape : Shape) (below : List Tree)
  deriving Inhabited

namespace Tree

/-- Induction with one hypothesis for all trees below a node. -/
@[induction_eliminator]
theorem induct {motive : Tree → Prop} (nothing : motive .nothing)
    (node : ∀ id shape below, (∀ tree ∈ below, motive tree) → motive (.node id shape below))
    (tree : Tree) : motive tree :=
  @Tree.rec motive (fun trees => ∀ tree ∈ trees, motive tree)
    nothing node (by simp) (fun _ _ first others => by simpa using ⟨first, others⟩) tree

/-- The slot that stands for the tree. -/
def root : Tree → Slot
  | .nothing => none
  | .node id _ _ => some id

mutual

/-- The names in a tree, parents first. -/
def names : Tree → List NodeId
  | .nothing => []
  | .node id _ below => id :: namesAll below

/-- The names in some trees. -/
def namesAll : List Tree → List NodeId
  | [] => []
  | tree :: rest => tree.names ++ namesAll rest

end

mutual

/-- The number of nodes on the longest path down. -/
def height : Tree → Nat
  | .nothing => 0
  | .node _ _ below => heightAll below + 1

/-- The height of the highest of some trees. -/
def heightAll : List Tree → Nat
  | [] => 0
  | tree :: rest => max tree.height (heightAll rest)

end

/-- The names below the root. -/
def inner : Tree → List NodeId
  | .nothing => []
  | .node _ _ below => namesAll below

/-- A tree is within another if it is a part of it or all of it. -/
inductive Within (inner : Tree) : Tree → Prop
  | whole : Within inner inner
  | deeper {id : NodeId} {shape : Shape} {below : List Tree} {tree : Tree} :
      tree ∈ below → Within inner tree → Within inner (.node id shape below)

@[simp] theorem root_nothing : Tree.nothing.root = none := rfl

@[simp] theorem root_node (id : NodeId) (shape : Shape) (below : List Tree) :
    (Tree.node id shape below).root = some id := rfl

section Names
variable {tree inner : Tree} {trees : List Tree} {id : NodeId} {shape : Shape} {below : List Tree}

theorem namesAll_eq (trees : List Tree) : namesAll trees = trees.flatMap names := by
  induction trees with
  | nil => rfl
  | cons tree rest ih => rw [namesAll, ih, List.flatMap_cons]

theorem mem_namesAll : id ∈ namesAll trees ↔ ∃ tree ∈ trees, id ∈ tree.names := by
  rw [namesAll_eq, List.mem_flatMap]

theorem namesAll_append (first second : List Tree) :
    namesAll (first ++ second) = namesAll first ++ namesAll second := by
  simp only [namesAll_eq, List.flatMap_append]

theorem inner_subset (tree : Tree) : tree.inner ⊆ tree.names := by
  cases tree with
  | nothing => exact fun _ member => member
  | node => exact List.subset_cons_self _ _

theorem mem_names_root (there : tree.root = some id) : id ∈ tree.names := by
  cases tree with
  | nothing => cases there
  | node name shape below =>
    cases there
    exact List.mem_cons_self

theorem height_le_heightAll (member : tree ∈ trees) : tree.height ≤ heightAll trees := by
  induction trees with
  | nil => cases member
  | cons first rest ih =>
    rw [heightAll]
    rcases List.mem_cons.mp member with rfl | later
    · exact Nat.le_max_left _ _
    · exact Nat.le_trans (ih later) (Nat.le_max_right _ _)

theorem height_lt_node (member : tree ∈ below) : tree.height < (node id shape below).height :=
  Nat.lt_succ_of_le (height_le_heightAll member)

theorem heightAll_le_length (each : ∀ tree ∈ trees, tree.height ≤ tree.names.length) :
    heightAll trees ≤ (namesAll trees).length := by
  induction trees with
  | nil => exact Nat.le_refl 0
  | cons first rest ih =>
    have here := each first List.mem_cons_self
    have later := ih fun tree member => each tree (List.mem_cons_of_mem first member)
    rw [heightAll, namesAll, List.length_append]
    omega

/-- A path down meets another name at each step. -/
theorem height_le_length (tree : Tree) : tree.height ≤ tree.names.length := by
  induction tree with
  | nothing => exact Nat.le_refl 0
  | node id shape below ih => exact Nat.succ_le_succ (heightAll_le_length ih)

theorem Within.names_subset (within : Within inner tree) : inner.names ⊆ tree.names := by
  induction within with
  | whole => exact fun _ member => member
  | deeper member _ ih =>
    intro name there
    exact List.mem_cons_of_mem _ (mem_namesAll.mpr ⟨_, member, ih there⟩)

theorem Within.height_le (within : Within inner tree) : inner.height ≤ tree.height := by
  induction within with
  | whole => exact Nat.le_refl _
  | deeper member _ ih => exact Nat.le_of_lt (Nat.lt_of_le_of_lt ih (height_lt_node member))

theorem Within.trans {outer : Tree} (first : Within inner tree) (second : Within tree outer) :
    Within inner outer := by
  induction second with
  | whole => exact first
  | deeper member _ ih => exact .deeper member ih

/-- A part that is not the whole stands right below another part. -/
theorem Within.eq_or_exists_above (within : Within inner tree) :
    inner = tree ∨ ∃ id shape below, Within (.node id shape below) tree ∧ inner ∈ below := by
  induction within with
  | whole => exact .inl rfl
  | @deeper id shape below part member _ ih =>
    rcases ih with rfl | ⟨id', shape', below', within, there⟩
    · exact .inr ⟨id, shape, below, .whole, member⟩
    · exact .inr ⟨id', shape', below', .deeper member within, there⟩

/-- Every name in a tree is the root of a part of it. -/
theorem exists_within (member : id ∈ tree.names) : ∃ inner, Within inner tree ∧ inner.root = some id := by
  induction tree with
  | nothing => cases member
  | node name shape below ih =>
    rcases List.mem_cons.mp member with rfl | later
    · exact ⟨_, .whole, rfl⟩
    · obtain ⟨tree, there, beyond⟩ := mem_namesAll.mp later
      obtain ⟨inner, within, root⟩ := ih tree there beyond
      exact ⟨inner, .deeper there within, root⟩

theorem nodup_of_mem_namesAll (nodup : (namesAll trees).Nodup) (member : tree ∈ trees) :
    tree.names.Nodup := by
  rw [namesAll_eq] at nodup
  exact (List.nodup_flatMap.mp nodup).1 tree member

theorem Within.nodup (within : Within inner tree) (nodup : tree.names.Nodup) :
    inner.names.Nodup := by
  induction within with
  | whole => exact nodup
  | deeper member _ ih => exact ih (nodup_of_mem_namesAll (List.nodup_cons.mp nodup).2 member)

end Names

/-! ## The trees in some slots -/

section Roots
variable {a b c d : Slot} {below : List Tree}

theorem one_of_roots (roots : [a] = below.map root) : ∃ first, below = [first] ∧ first.root = a := by
  obtain ⟨first, rfl, same⟩ := List.map_eq_singleton_iff.mp roots.symm
  exact ⟨first, rfl, same⟩

theorem two_of_roots (roots : [a, b] = below.map root) :
    ∃ first second, below = [first, second] ∧ first.root = a ∧ second.root = b := by
  obtain ⟨first, rest, rfl, same, others⟩ := List.map_eq_cons_iff.mp roots.symm
  obtain ⟨second, rfl, also⟩ := one_of_roots others.symm
  exact ⟨first, second, rfl, same, also⟩

theorem three_of_roots (roots : [a, b, c] = below.map root) : ∃ first second third,
    below = [first, second, third] ∧ first.root = a ∧ second.root = b ∧ third.root = c := by
  obtain ⟨first, rest, rfl, same, others⟩ := List.map_eq_cons_iff.mp roots.symm
  obtain ⟨second, third, rfl, also, last⟩ := two_of_roots others.symm
  exact ⟨first, second, third, rfl, same, also, last⟩

theorem four_of_roots (roots : [a, b, c, d] = below.map root) : ∃ first second third fourth,
    below = [first, second, third, fourth] ∧ first.root = a ∧ second.root = b ∧ third.root = c ∧
      fourth.root = d := by
  obtain ⟨first, rest, rfl, same, others⟩ := List.map_eq_cons_iff.mp roots.symm
  obtain ⟨second, third, fourth, rfl, also, still, last⟩ := three_of_roots others.symm
  exact ⟨first, second, third, fourth, rfl, same, also, still, last⟩

end Roots

end Tree

namespace Shape

/-- A shape is regular if each node in its slots counts as a child.  Only a `while` loop or
a `do` loop with an initializer or an incrementor is not. -/
def IsRegular (shape : Shape) : Prop := shape.children.Perm (shape.slots.filterMap id)

theorem isRegular_loop_iff {kind : LoopKind} {initializer condition incrementor body : Slot} :
    (loop kind initializer condition incrementor body).IsRegular ↔
      kind = .forLoop ∨ initializer = none ∧ incrementor = none := by
  constructor
  · intro regular
    have length := regular.length_eq
    cases kind
    case forLoop => exact .inl rfl
    all_goals
      refine .inr ?_
      cases initializer <;> cases incrementor <;> cases condition <;> cases body <;>
        simp_all [children, visible, slots]
  · rintro (rfl | ⟨rfl, rfl⟩)
    · exact .refl _
    · cases kind
      case forLoop => exact .refl _
      case whileLoop => exact .refl _
      case doLoop => exact (List.Perm.swap condition body []).filterMap id

theorem isRegular_of_not_isLoop {shape : Shape} (other : ∀ kind initializer condition incrementor body,
    shape ≠ .loop kind initializer condition incrementor body) : shape.IsRegular := by
  cases shape
  case loop => exact absurd rfl (other _ _ _ _ _)
  all_goals exact .refl _

end Shape

namespace Store

/-- The slots lead from the root of a tree through the whole tree.  Parent links may lead
elsewhere. -/
inductive UnfoldsTo (store : Store) : Tree → Prop
  | nothing : UnfoldsTo store .nothing
  | node {id : NodeId} {shape : Shape} {below : List Tree}
      (found : store.shape? (some id) = some shape) (regular : shape.IsRegular)
      (roots : shape.slots = below.map Tree.root)
      (inner : ∀ tree ∈ below, UnfoldsTo store tree) : UnfoldsTo store (.node id shape below)

/-- The store contains a tree: its shapes, and the links from its nodes to their parents. -/
inductive Holds (store : Store) : Tree → Prop
  | nothing : Holds store .nothing
  | node {id : NodeId} {shape : Shape} {below : List Tree}
      (found : store.shape? (some id) = some shape) (regular : shape.IsRegular)
      (roots : shape.slots = below.map Tree.root)
      (links : ∀ tree ∈ below, tree.root.isSome → store.parent tree.root = some id)
      (inner : ∀ tree ∈ below, Holds store tree) : Holds store (.node id shape below)

/-- The store contains a tree with this root, in which no node stands twice. -/
def IsTree (store : Store) (root : NodeId) : Prop :=
  ∃ tree, store.Holds tree ∧ tree.root = some root ∧ tree.names.Nodup

section Holds
variable {store : Store} {tree inner : Tree} {id : NodeId} {shape : Shape} {below : List Tree}

theorem lt_size_of_shape? (found : store.shape? (some id) = some shape) :
    id < store.nodes.size := by
  simp only [shape?, node?, Option.bind_some, Option.map_eq_some_iff] at found
  obtain ⟨node, there, -⟩ := found
  exact (Array.getElem?_eq_some_iff.mp there).1

theorem UnfoldsTo.within (unfolds : store.UnfoldsTo tree) (within : Tree.Within inner tree) :
    store.UnfoldsTo inner := by
  induction within with
  | whole => exact unfolds
  | deeper member _ ih =>
    cases unfolds with
    | node _ _ _ inner => exact ih (inner _ member)

theorem UnfoldsTo.lt_size (unfolds : store.UnfoldsTo tree) (member : id ∈ tree.names) :
    id < store.nodes.size := by
  obtain ⟨inner, within, root⟩ := Tree.exists_within member
  cases unfolds.within within with
  | nothing => cases root
  | node found _ _ _ =>
    cases root
    exact lt_size_of_shape? found

/-- There is one tree below a slot. -/
theorem UnfoldsTo.unique {other : Tree} (unfolds : store.UnfoldsTo tree)
    (also : store.UnfoldsTo other) (same : tree.root = other.root) : tree = other := by
  induction unfolds generalizing other with
  | nothing =>
    cases also with
    | nothing => rfl
    | node => cases same
  | @node id shape below found _ roots _ ih =>
    cases also with
    | nothing => cases same
    | @node id' shape' below' found' _ roots' inner' =>
      cases same
      cases found.symm.trans found'
      have equal : below.map Tree.root = below'.map Tree.root := roots.symm.trans roots'
      have length : below.length = below'.length := by simpa using congrArg List.length equal
      have each : below = below' := by
        refine List.ext_getElem length fun place left right => ?_
        refine ih _ (List.getElem_mem left) (inner' _ (List.getElem_mem right)) ?_
        have there := congrArg (·[place]?) equal
        simpa [left, right] using there
      rw [each]

/-- A store has no more than its size of different nodes. -/
theorem length_le_size {ids : List NodeId} (nodup : ids.Nodup) (inside : ∀ id ∈ ids, id < store.nodes.size) :
    ids.length ≤ store.nodes.size := by
  have among : ids.Subperm (List.range store.nodes.size) :=
    nodup.subperm fun id member => List.mem_range.mpr (inside id member)
  simpa using among.length_le

theorem UnfoldsTo.height_le (unfolds : store.UnfoldsTo tree) (nodup : tree.names.Nodup) :
    tree.height ≤ store.nodes.size :=
  Nat.le_trans tree.height_le_length (length_le_size nodup fun _ => unfolds.lt_size)

theorem UnfoldsTo.children_eq (unfolds : store.UnfoldsTo (.node id shape below)) :
    (store.children id).Perm (below.filterMap Tree.root) := by
  cases unfolds with
  | node found regular roots _ =>
    have listed : store.children id = shape.children := by simp [children, found]
    have slots : shape.slots.filterMap (fun slot => slot) = below.filterMap Tree.root := by
      rw [roots, List.filterMap_map]
      rfl
    rw [listed, ← slots]
    exact regular

theorem Holds.unfoldsTo (holds : store.Holds tree) : store.UnfoldsTo tree := by
  induction holds with
  | nothing => exact .nothing
  | node found regular roots _ _ ih => exact .node found regular roots ih

theorem Holds.shape?_node (holds : store.Holds (.node id shape below)) :
    store.shape? (some id) = some shape := by
  cases holds with
  | node found => exact found

theorem Holds.within (holds : store.Holds tree) (within : Tree.Within inner tree) :
    store.Holds inner := by
  induction within with
  | whole => exact holds
  | deeper member _ ih =>
    cases holds with
    | node _ _ _ _ inner => exact ih (inner _ member)

theorem Holds.lt_size (holds : store.Holds tree) (member : id ∈ tree.names) :
    id < store.nodes.size := holds.unfoldsTo.lt_size member

theorem Holds.unique {other : Tree} (holds : store.Holds tree) (also : store.Holds other)
    (same : tree.root = other.root) : tree = other := holds.unfoldsTo.unique also.unfoldsTo same

theorem Holds.height_le (holds : store.Holds tree) (nodup : tree.names.Nodup) :
    tree.height ≤ store.nodes.size := holds.unfoldsTo.height_le nodup

theorem Holds.children_eq (holds : store.Holds (.node id shape below)) :
    (store.children id).Perm (below.filterMap Tree.root) := holds.unfoldsTo.children_eq

/-- A store contains a tree if it agrees with one that does on the shapes of the tree and
on the parents below its root. -/
theorem Holds.transfer {later : Store} (holds : store.Holds tree)
    (shapes : ∀ id ∈ tree.names, later.shape? (some id) = store.shape? (some id))
    (parents : ∀ id ∈ tree.inner, later.parent (some id) = store.parent (some id)) :
    later.Holds tree := by
  induction holds with
  | nothing => exact .nothing
  | @node id shape below found regular roots links _ ih =>
    have inside : ∀ tree ∈ below, ∀ id ∈ tree.names, id ∈ Tree.namesAll below :=
      fun tree member id there => Tree.mem_namesAll.mpr ⟨tree, member, there⟩
    refine .node ?_ regular roots ?_ ?_
    · rw [shapes id List.mem_cons_self, found]
    · intro tree member present
      obtain ⟨child, rooted⟩ := Option.isSome_iff_exists.mp present
      have same := links tree member present
      rw [rooted] at same ⊢
      rw [parents child (inside tree member child (Tree.mem_names_root rooted)), same]
    · intro tree member
      refine ih tree member ?_ ?_
      · exact fun id there => shapes id (List.mem_cons_of_mem _ (inside tree member id there))
      · exact fun id there => parents id (inside tree member id (tree.inner_subset there))

/-! ## The walk down -/

theorem preorderOnto_append (store : Store) (depth : Nat) (id : NodeId) (tail : List NodeId) :
    store.preorderOnto depth id tail = store.preorderOnto depth id [] ++ tail := by
  induction depth generalizing id tail with
  | zero => rfl
  | succ depth ih =>
    rw [preorderOnto, preorderOnto, foldr_onto ih, foldr_onto ih _ [], List.append_nil,
      List.cons_append]

theorem preorderOnto_succ (store : Store) (depth : Nat) (id : NodeId) :
    store.preorderOnto (depth + 1) id [] =
      id :: (store.children id).flatMap fun child => store.preorderOnto depth child [] := by
  rw [preorderOnto, foldr_onto (store.preorderOnto_append depth), List.append_nil]

theorem postorderOnto_append (store : Store) (depth : Nat) (id : NodeId) (tail : List NodeId) :
    store.postorderOnto depth id tail = store.postorderOnto depth id [] ++ tail := by
  induction depth generalizing id tail with
  | zero => rfl
  | succ depth ih =>
    rw [postorderOnto, postorderOnto, foldr_onto ih, foldr_onto ih _ [id], List.append_assoc,
      List.singleton_append]

theorem postorderOnto_succ (store : Store) (depth : Nat) (id : NodeId) :
    store.postorderOnto (depth + 1) id [] =
      ((store.children id).flatMap fun child => store.postorderOnto depth child []) ++ [id] := by
  rw [postorderOnto, foldr_onto (store.postorderOnto_append depth)]

/-- The two orders differ in the order only. -/
theorem postorderOnto_perm (store : Store) (depth : Nat) (id : NodeId) :
    (store.postorderOnto depth id []).Perm (store.preorderOnto depth id []) := by
  induction depth generalizing id with
  | zero => exact .refl _
  | succ depth ih =>
    rw [postorderOnto_succ, preorderOnto_succ]
    exact (List.perm_append_singleton _ _).trans
      ((List.Perm.flatMap_left _ fun child _ => ih child).cons id)

theorem Holds.preorder_perm (holds : store.Holds tree) {depth : Nat} (deep : tree.height ≤ depth)
    (root : tree.root = some id) : (store.preorderOnto depth id []).Perm tree.names := by
  induction tree generalizing depth id with
  | nothing => cases root
  | node name shape below ih =>
    cases root
    cases depth with
    | zero => exact absurd deep (Nat.not_succ_le_zero _)
    | succ depth =>
      rw [preorderOnto_succ, Tree.names, Tree.namesAll_eq]
      refine List.Perm.cons name ?_
      refine (holds.children_eq.flatMap_right _).trans ?_
      have each : ∀ trees : List Tree, (∀ tree ∈ trees, tree ∈ below) →
          ((trees.filterMap Tree.root).flatMap fun child =>
            store.preorderOnto depth child []).Perm (trees.flatMap Tree.names) := by
        intro trees inside
        induction trees with
        | nil => exact .refl _
        | cons tree rest later =>
          have member := inside tree List.mem_cons_self
          have others := later fun tree there => inside tree (List.mem_cons_of_mem _ there)
          have fits : tree.height ≤ depth :=
            Nat.lt_succ_iff.mp (Nat.lt_of_lt_of_le (Tree.height_lt_node member) deep)
          have held : store.Holds tree := by
            cases holds with
            | node _ _ _ _ inner => exact inner tree member
          cases empty : tree.root with
          | none =>
            cases tree with
            | nothing =>
              rw [List.filterMap_cons_none empty]
              exact others
            | node => cases empty
          | some child =>
            rw [List.filterMap_cons_some empty, List.flatMap_cons, List.flatMap_cons]
            exact (ih tree member held fits empty).append others
      exact each below fun _ member => member

/-- The walk down visits the names of the tree. -/
theorem Holds.descendants_perm (holds : store.Holds tree) (nodup : tree.names.Nodup) :
    (store.descendants tree.root).Perm tree.names := by
  have deep : tree.height ≤ store.depthBound := Nat.le_succ_of_le (holds.height_le nodup)
  cases empty : tree.root with
  | none =>
    cases tree with
    | nothing => exact .refl _
    | node => cases empty
  | some id => exact holds.preorder_perm deep empty

theorem IsTree.exists_within {root : NodeId} (isTree : store.IsTree root)
    (member : id ∈ store.descendants (some root)) :
    ∃ inner tree, Tree.Within inner tree ∧ store.Holds tree ∧ tree.root = some root ∧
      tree.names.Nodup ∧ inner.root = some id := by
  obtain ⟨tree, holds, rooted, nodup⟩ := isTree
  rw [← rooted] at member
  obtain ⟨inner, within, there⟩ :=
    Tree.exists_within ((holds.descendants_perm nodup).mem_iff.mp member)
  exact ⟨inner, tree, within, holds, rooted, nodup, there⟩

/-- A node below the root of a tree has a parent, which has a slot for it. -/
theorem Holds.exists_parent (holds : store.Holds tree) (within : Tree.Within inner tree)
    (there : inner.root = some id) (other : inner ≠ tree) :
    ∃ parent shape, store.parent (some id) = some parent ∧
      store.shape? (some parent) = some shape ∧ some id ∈ shape.slots := by
  rcases within.eq_or_exists_above with same | ⟨parent, shape, below, above, member⟩
  · exact absurd same other
  · cases holds.within above with
    | node found _ roots links _ =>
      refine ⟨parent, shape, ?_, found, ?_⟩
      · rw [← there]
        exact links inner member (by rw [there]; rfl)
      · rw [roots, ← there]
        exact List.mem_map_of_mem member

/-- The nodes in the slots of a node of a tree are in the tree. -/
theorem Holds.slot_mem (holds : store.Holds tree) (inside : id ∈ tree.names) {child : NodeId}
    (found : store.shape? (some id) = some shape) (slot : some child ∈ shape.slots) :
    child ∈ tree.names ∧ store.parent (some child) = some id := by
  obtain ⟨part, within, rooted⟩ := Tree.exists_within inside
  cases holds.within within with
  | nothing => cases rooted
  | @node name there below foundThere regular roots links inner =>
    cases rooted
    rw [foundThere] at found
    cases found
    rw [roots] at slot
    obtain ⟨tree, member, same⟩ := List.mem_map.mp slot
    refine ⟨within.names_subset (List.mem_cons_of_mem _ ?_), ?_⟩
    · exact Tree.mem_namesAll.mpr ⟨tree, member, Tree.mem_names_root same⟩
    · rw [← same]
      exact links tree member (by rw [same]; rfl)

/-! ## Reading a tree -/

/-- The tree below a slot, cut off at a depth. -/
def treeAt (store : Store) : (depth : Nat) → Slot → Tree
  | 0, _ => .nothing
  | _, none => .nothing
  | depth + 1, some id =>
    match store.shape? (some id) with
    | none => .nothing
    | some shape => .node id shape (shape.slots.map (store.treeAt depth))

/-- Whether a slot has a tree of a depth below it. -/
def isGrown (store : Store) : (depth : Nat) → Slot → Bool
  | _, none => true
  | 0, some _ => false
  | depth + 1, some id =>
    match store.shape? (some id) with
    | none => false
    | some shape =>
      shape.children.isPerm (shape.slots.filterMap fun slot => slot) &&
        shape.slots.all fun slot =>
          (slot.isNone || store.parent slot == some id) && store.isGrown depth slot

theorem treeAt_isGrown {depth : Nat} {slot : Slot} (grown : store.isGrown depth slot = true) :
    store.Holds (store.treeAt depth slot) ∧ (store.treeAt depth slot).root = slot := by
  induction depth generalizing slot with
  | zero =>
    cases slot with
    | none => exact ⟨.nothing, rfl⟩
    | some id => cases grown
  | succ depth ih =>
    cases slot with
    | none => exact ⟨.nothing, rfl⟩
    | some id =>
      rw [isGrown] at grown
      rw [treeAt]
      cases found : store.shape? (some id) with
      | none =>
        rw [found] at grown
        cases grown
      | some shape =>
        rw [found] at grown
        simp only [Bool.and_eq_true, List.isPerm_iff, List.all_eq_true] at grown
        obtain ⟨regular, each⟩ := grown
        refine ⟨.node found regular ?_ ?_ ?_, rfl⟩
        · rw [List.map_map]
          refine (List.map_id _).symm.trans (List.map_congr_left fun slot member => ?_)
          exact (ih (each slot member).2).2.symm
        · intro tree member present
          obtain ⟨slot, there, rfl⟩ := List.mem_map.mp member
          rw [(ih (each slot there).2).2] at present ⊢
          have linked := (each slot there).1
          rw [Bool.or_eq_true] at linked
          rcases linked with empty | linked
          · rw [Option.isNone_iff_eq_none] at empty
            rw [empty] at present
            cases present
          · exact eq_of_beq linked
        · intro tree member
          obtain ⟨slot, there, rfl⟩ := List.mem_map.mp member
          exact (ih (each slot there).2).1

theorem isTree_of_isGrown {depth : Nat} {root : NodeId}
    (grown : store.isGrown depth (some root) = true)
    (nodup : (store.treeAt depth (some root)).names.Nodup) : store.IsTree root :=
  ⟨_, (treeAt_isGrown grown).1, (treeAt_isGrown grown).2, nodup⟩

end Holds

end Store

end Unflatten
