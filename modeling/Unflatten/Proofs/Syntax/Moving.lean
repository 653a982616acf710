import Unflatten.Proofs.Syntax.Reworking

/-! # Moved statements

A pass that moves statements gives blocks other statements and makes new blocks and new
nodes around what is there.  `Tree.occurs` counts how often a name stands in some trees, so
that what moves from one list to another can be followed by sums.  `Store.Refills` says that
only blocks change, and which shapes new nodes have. -/

set_option autoImplicit false

namespace Unflatten

namespace Tree

/-- How often a name stands in some trees. -/
def occurs (id : NodeId) (trees : List Tree) : Nat := (namesAll trees).count id

section Occurs
variable (id : NodeId)

@[simp] theorem occurs_nil : occurs id [] = 0 := rfl

@[simp] theorem occurs_cons (tree : Tree) (rest : List Tree) :
    occurs id (tree :: rest) = tree.names.count id + occurs id rest := by
  rw [occurs, namesAll, List.count_append]
  rfl

@[simp] theorem occurs_append (first second : List Tree) :
    occurs id (first ++ second) = occurs id first + occurs id second := by
  simp only [occurs, namesAll_append, List.count_append]

@[simp] theorem count_nothing : Tree.nothing.names.count id = 0 := rfl

@[simp] theorem count_node (name : NodeId) (shape : Shape) (below : List Tree) :
    (Tree.node name shape below).names.count id = (if name = id then 1 else 0) + occurs id below := by
  rw [names, List.count_cons, beq_eq_decide]
  simp only [decide_eq_true_eq]
  exact Nat.add_comm _ _

theorem namesAll_perm {trees others : List Tree} (perm : trees.Perm others) :
    (namesAll trees).Perm (namesAll others) := by
  simp only [namesAll_eq]
  exact perm.flatMap_right _

theorem occurs_perm {trees others : List Tree} (perm : trees.Perm others) :
    occurs id trees = occurs id others := (namesAll_perm perm).count_eq id

theorem occurs_pos {trees : List Tree} : 0 < occurs id trees ↔ id ∈ namesAll trees :=
  List.count_pos_iff

end Occurs

theorem nodup_iff_occurs {trees : List Tree} :
    (namesAll trees).Nodup ↔ ∀ id, occurs id trees ≤ 1 :=
  List.nodup_iff_count_le_one

end Tree

namespace Store

/-! ## Several trees -/

/-- Some trees stand in the store, and no node stands twice. -/
structure HoldsAll (store : Store) (trees : List Tree) : Prop where
  holds : ∀ tree ∈ trees, store.Holds tree
  nodup : (Tree.namesAll trees).Nodup

section HoldsAll
variable {store later : Store} {trees others : List Tree} {id : NodeId} {shape : Shape}
  {parts : List Tree}

theorem HoldsAll.lt_size (all : store.HoldsAll trees) (member : id ∈ Tree.namesAll trees) :
    id < store.nodes.size := by
  obtain ⟨tree, there, inside⟩ := Tree.mem_namesAll.mp member
  exact (all.holds tree there).lt_size inside

theorem HoldsAll.perm (all : store.HoldsAll trees) (perm : trees.Perm others) :
    store.HoldsAll others :=
  ⟨fun tree member => all.holds tree (perm.mem_iff.mpr member),
    (Tree.namesAll_perm perm).nodup all.nodup⟩

theorem holdsAll_append : store.HoldsAll (trees ++ others) ↔ store.HoldsAll trees ∧
    store.HoldsAll others ∧ ∀ id ∈ Tree.namesAll trees, id ∉ Tree.namesAll others := by
  constructor
  · intro all
    have nodup := all.nodup
    rw [Tree.namesAll_append, List.nodup_append'] at nodup
    obtain ⟨left, right, apart⟩ := nodup
    exact ⟨⟨fun tree member => all.holds tree (List.mem_append_left _ member), left⟩,
      ⟨fun tree member => all.holds tree (List.mem_append_right _ member), right⟩,
      fun id inside => apart inside⟩
  · rintro ⟨left, right, apart⟩
    refine ⟨fun tree member => ?_, ?_⟩
    · exact (List.mem_append.mp member).elim (left.holds tree) (right.holds tree)
    · rw [Tree.namesAll_append, List.nodup_append']
      exact ⟨left.nodup, right.nodup, fun id inside => apart id inside⟩

theorem HoldsAll.of_occurs (all : store.HoldsAll trees) (holds : ∀ tree ∈ others, store.Holds tree)
    (fewer : ∀ id, Tree.occurs id others ≤ Tree.occurs id trees) : store.HoldsAll others :=
  ⟨holds, Tree.nodup_iff_occurs.mpr fun id =>
    Nat.le_trans (fewer id) (Tree.nodup_iff_occurs.mp all.nodup id)⟩

theorem HoldsAll.below (all : store.HoldsAll (.node id shape parts :: others)) :
    store.HoldsAll (parts ++ others) ∧ id ∉ Tree.namesAll (parts ++ others) := by
  have nodup := all.nodup
  rw [Tree.namesAll, Tree.names, List.cons_append, ← Tree.namesAll_append, List.nodup_cons] at nodup
  refine ⟨⟨fun tree member => ?_, nodup.2⟩, nodup.1⟩
  rcases List.mem_append.mp member with inside | beside
  · cases all.holds _ List.mem_cons_self with
    | node _ _ _ _ inner => exact inner tree inside
  · exact all.holds tree (List.mem_cons_of_mem _ beside)

/-- What stands beside the changed nodes is still there. -/
theorem Touches.holdsAll {ids : List NodeId} (touches : Touches store later ids)
    (all : store.HoldsAll trees) (apart : ∀ id ∈ Tree.namesAll trees, id ∉ ids) :
    later.HoldsAll trees :=
  ⟨fun tree member => touches.holds (all.holds tree member) fun id inside =>
    apart id (Tree.mem_namesAll.mpr ⟨tree, member, inside⟩), all.nodup⟩

end HoldsAll

/-! ## A new node around trees -/

section Make
variable {store : Store} {parts others : List Tree} {shape : Shape} {tree : Tree}
  {flags : Flags} {start stop : Nat}

/-- A tree keeps its place unless a part of it goes to the new node. -/
theorem Holds.add (holds : store.Holds tree) (apart : ∀ id ∈ tree.inner, some id ∉ shape.slots) :
    (store.add shape flags start stop).1.Holds tree := by
  refine holds.transfer ?_ ?_
  · intro id inside
    rw [shape?_add, if_neg (Nat.ne_of_lt (holds.lt_size inside))]
  · intro id inside
    rw [parent_add store shape flags start stop id (holds.lt_size (tree.inner_subset inside)),
      if_neg (apart id inside)]

theorem holdsAll_add (all : store.HoldsAll (parts ++ others)) (slots : shape.slots = parts.map Tree.root)
    (regular : shape.IsRegular) :
    (store.add shape flags start stop).1.HoldsAll (.node store.nodes.size shape parts :: others) := by
  obtain ⟨held, beside, apart⟩ := holdsAll_append.mp all
  have fresh : store.nodes.size ∉ Tree.namesAll (parts ++ others) := fun inside =>
    absurd (all.lt_size inside) (Nat.lt_irrefl _)
  refine ⟨fun tree member => ?_, ?_⟩
  · rcases List.mem_cons.mp member with rfl | there
    · refine .node (by rw [shape?_add, if_pos rfl]) regular slots ?_ ?_
      · intro tree member present
        obtain ⟨id, rooted⟩ := Option.isSome_iff_exists.mp present
        rw [rooted, parent_add store shape flags start stop id
          ((held.holds tree member).lt_size (Tree.mem_names_root rooted)), slots,
          if_pos (rooted ▸ List.mem_map_of_mem member)]
      · intro tree member
        refine (held.holds tree member).add fun id inside => ?_
        rw [slots]
        exact Tree.not_mem_roots_of_inner held.nodup member inside
    · refine (beside.holds tree there).add fun id inside rooted => ?_
      rw [slots] at rooted
      exact apart id (Tree.mem_namesAll_of_root rooted) (Tree.mem_namesAll.mpr ⟨tree, there, tree.inner_subset inside⟩)
  · rw [Tree.namesAll, Tree.names, List.cons_append, ← Tree.namesAll_append]
    exact List.nodup_cons.mpr ⟨fresh, all.nodup⟩

theorem touches_add (slots : shape.slots = parts.map Tree.root) :
    Touches store (store.add shape flags start stop).1 (Tree.namesAll parts) := by
  refine ⟨by rw [size_add]; exact Nat.le_succ _, ?_, ?_⟩
  · intro id bound _
    rw [shape?_add, if_neg (Nat.ne_of_lt bound)]
  · intro id bound outside
    rw [parent_add store shape flags start stop id bound, slots,
      if_neg fun rooted => outside (Tree.mem_namesAll_of_root rooted)]

end Make

end Store

/-! ## What changes and what is new -/

/-- The shapes of new nodes around statements: blocks, loops and operators. -/
def Shape.isMade : Shape → Bool
  | .block _ | .loop _ _ _ _ _ | .unary _ _ _ => true
  | _ => false

namespace Store

/-- The one store goes on from the other: only blocks change, by getting other statements, and
only nodes of certain shapes are new. -/
structure Refills (store later : Store) : Prop where
  size : store.nodes.size ≤ later.nodes.size
  shape : ∀ id shape, store.shape? (some id) = some shape →
    later.shape? (some id) = some shape ∨
      shape.isBlock = true ∧ ∃ statements, later.shape? (some id) = some (.block statements)
  new : ∀ id shape, store.nodes.size ≤ id → later.shape? (some id) = some shape →
    shape.isMade = true

section Refills
variable {store middle later : Store} {id container : NodeId} {shape : Shape} {slot : Slot}
  {before after : List Slot}

theorem exists_shape? (bound : id < store.nodes.size) :
    ∃ shape, store.shape? (some id) = some shape := by
  simp [shape?, node?, bound]

theorem Refills.refl (store : Store) : Refills store store :=
  ⟨Nat.le_refl _, fun _ _ found => .inl found, fun _ _ beyond found =>
    absurd (lt_size_of_shape? found) (Nat.not_lt_of_le beyond)⟩

theorem Refills.block (refills : Refills store later)
    (found : store.shape? (some id) = some (.block before)) :
    ∃ statements, later.shape? (some id) = some (.block statements) := by
  rcases refills.shape id _ found with same | ⟨_, changed⟩
  · exact ⟨before, same⟩
  · exact changed

/-- What is no block keeps its shape. -/
theorem Refills.keeps (refills : Refills store later) (found : store.shape? (some id) = some shape)
    (other : shape.isBlock = false) : later.shape? (some id) = some shape := by
  rcases refills.shape id shape found with same | ⟨isBlock, _⟩
  · exact same
  · rw [other] at isBlock
    cases isBlock

/-- What was there before and is a block later was a block. -/
theorem Refills.isBlock (refills : Refills store later) (bound : id < store.nodes.size)
    (block : later.satisfies (some id) Shape.isBlock = true) :
    store.satisfies (some id) Shape.isBlock = true := by
  obtain ⟨shape, found⟩ := exists_shape? bound
  rw [satisfies] at block ⊢
  rcases refills.shape id shape found with same | ⟨isBlock, _⟩
  · rwa [found, ← same]
  · rw [found]
    exact isBlock

/-- What is found later and could not be made was there before. -/
theorem Refills.found (refills : Refills store later) (found : later.shape? slot = some shape)
    (other : shape.isMade = false) : store.shape? slot = some shape := by
  cases slot with
  | none => cases found
  | some id =>
    by_cases old : id < store.nodes.size
    · obtain ⟨first, there⟩ := exists_shape? old
      rcases refills.shape id first there with same | ⟨_, statements, changed⟩
      · rw [there, ← same, found]
      · rw [found] at changed
        cases changed
        cases other
    · rw [refills.new id shape (Nat.le_of_not_lt old) found] at other
      cases other

theorem Refills.trans (first : Refills store middle) (second : Refills middle later) :
    Refills store later := by
  refine ⟨Nat.le_trans first.size second.size, ?_, ?_⟩
  · intro id shape found
    rcases first.shape id shape found with same | ⟨isBlock, statements, changed⟩
    · exact second.shape id shape same
    · exact .inr ⟨isBlock, second.block changed⟩
  · intro id shape beyond found
    by_cases old : id < middle.nodes.size
    · obtain ⟨there, shaped⟩ := exists_shape? old
      have isMade := first.new id there beyond shaped
      rcases second.shape id there shaped with same | ⟨_, statements, changed⟩
      · rw [found] at same
        cases same
        exact isMade
      · rw [found] at changed
        cases changed
        rfl
    · exact second.new id shape (Nat.le_of_not_lt old) found

theorem refills_setStatements (found : store.shape? (some container) = some (.block before)) :
    Refills store (store.setStatements (some container) after).1 := by
  refine ⟨Nat.le_of_eq (size_setStatements found).symm, ?_, ?_⟩
  · intro id shape there
    rw [shape?_setStatements found]
    by_cases same : id = container
    · subst same
      rw [found] at there
      cases there
      exact .inr ⟨rfl, after, if_pos rfl⟩
    · rw [if_neg same]
      exact .inl there
  · intro id shape beyond there
    have bound := lt_size_of_shape? there
    rw [size_setStatements found] at bound
    exact absurd bound (Nat.not_lt_of_le beyond)

theorem refills_make (isMade : shape.isMade = true) : Refills store (store.make shape).1 := by
  refine ⟨by rw [size_make]; exact Nat.le_succ _, ?_, ?_⟩
  · intro id there found
    exact .inl (keeps_make store shape id there found)
  · intro id there beyond found
    rw [shape?_make] at found
    split at found
    · cases found
      exact isMade
    · exact absurd (lt_size_of_shape? found) (Nat.not_lt_of_le beyond)

end Refills

end Store

end Unflatten
