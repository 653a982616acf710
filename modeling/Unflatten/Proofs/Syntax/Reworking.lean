import Unflatten.Proofs.Syntax.Copying

/-! # Reworked trees

A pass that reworks a tree changes the nodes of the tree and makes new ones.  All other
nodes keep their shapes and parents, so what the store holds beside the tree it still holds
afterwards, and a node over the tree is reworked with it. -/

set_option autoImplicit false

namespace Unflatten

namespace Store

/-- Only some nodes are changed. -/
structure Touches (store later : Store) (ids : List NodeId) : Prop where
  size : store.nodes.size ≤ later.nodes.size
  shape : ∀ id, id < store.nodes.size → id ∉ ids → later.shape? (some id) = store.shape? (some id)
  parent : ∀ id, id < store.nodes.size → id ∉ ids → later.parent (some id) = store.parent (some id)

/-- A tree becomes another one, of its own nodes and of new ones, with the same root in the
same place. -/
structure Reworks (store later : Store) (tree reworked : Tree) : Prop where
  touches : Touches store later tree.names
  holds : later.Holds reworked
  root : reworked.root = tree.root
  link : later.parent tree.root = store.parent tree.root
  nodup : reworked.names.Nodup
  names : ∀ id ∈ reworked.names, id ∈ tree.names ∨ store.nodes.size ≤ id

section Touches
variable {store middle later : Store} {ids more : List NodeId} {tree : Tree}

theorem Touches.refl (store : Store) (ids : List NodeId) : Touches store store ids :=
  ⟨Nat.le_refl _, fun _ _ _ => rfl, fun _ _ _ => rfl⟩

theorem Touches.mono (touches : Touches store later ids) (within : ids ⊆ more) :
    Touches store later more :=
  ⟨touches.size, fun id bound outside => touches.shape id bound fun inside => outside (within inside),
    fun id bound outside => touches.parent id bound fun inside => outside (within inside)⟩

theorem Touches.trans (first : Touches store middle ids) (second : Touches middle later more)
    (within : ∀ id ∈ more, id ∈ ids ∨ store.nodes.size ≤ id) : Touches store later ids := by
  have outside : ∀ id, id < store.nodes.size → id ∉ ids → id ∉ more := by
    intro id bound apart inside
    rcases within id inside with here | beyond
    · exact apart here
    · exact absurd bound (Nat.not_lt_of_le beyond)
  refine ⟨Nat.le_trans first.size second.size, ?_, ?_⟩
  · intro id bound apart
    rw [second.shape id (Nat.lt_of_lt_of_le bound first.size) (outside id bound apart),
      first.shape id bound apart]
  · intro id bound apart
    rw [second.parent id (Nat.lt_of_lt_of_le bound first.size) (outside id bound apart),
      first.parent id bound apart]

theorem Grown.touches (grown : Grown store later) (ids : List NodeId) : Touches store later ids :=
  ⟨grown.size, fun id bound _ => grown.shape id bound, fun id bound _ => grown.parent id bound⟩

/-- What stands beside the changed nodes is still there. -/
theorem Touches.holds (touches : Touches store later ids) (holds : store.Holds tree)
    (apart : ∀ id ∈ tree.names, id ∉ ids) : later.Holds tree :=
  holds.transfer (fun id member => touches.shape id (holds.lt_size member) (apart id member))
    fun id member =>
      have inside := tree.inner_subset member
      touches.parent id (holds.lt_size inside) (apart id inside)

theorem Touches.parent_root (touches : Touches store later ids) (holds : store.Holds tree)
    (apart : ∀ id ∈ tree.names, id ∉ ids) : later.parent tree.root = store.parent tree.root := by
  cases rooted : tree.root with
  | none => rfl
  | some id =>
    have inside := Tree.mem_names_root rooted
    exact touches.parent id (holds.lt_size inside) (apart id inside)

end Touches

section Reworks
variable {store middle later : Store} {tree reworked : Tree}

theorem Reworks.refl (holds : store.Holds tree) (nodup : tree.names.Nodup) :
    Reworks store store tree tree :=
  ⟨.refl store _, holds, rfl, rfl, nodup, fun _ member => .inl member⟩

/-- A tree is as before if only others are changed. -/
theorem Reworks.beside {ids : List NodeId} (touches : Touches store later ids)
    (holds : store.Holds tree) (nodup : tree.names.Nodup) (apart : ∀ id ∈ tree.names, id ∉ ids)
    (within : Touches store later tree.names) : Reworks store later tree tree :=
  ⟨within, touches.holds holds apart, rfl, touches.parent_root holds apart, nodup,
    fun _ member => .inl member⟩

theorem Reworks.grown (grown : Grown store later) (holds : store.Holds tree)
    (nodup : tree.names.Nodup) : Reworks store later tree tree :=
  .beside (grown.touches []) holds nodup (fun _ _ => List.not_mem_nil) (grown.touches _)

theorem Reworks.trans {other : Tree} (first : Reworks store middle tree reworked)
    (second : Reworks middle later reworked other) : Reworks store later tree other := by
  refine ⟨first.touches.trans second.touches first.names, second.holds,
    second.root.trans first.root, ?_, second.nodup, ?_⟩
  · rw [← first.link, ← first.root]
    exact second.link
  · intro id member
    rcases second.names id member with inside | beyond
    · exact first.names id inside
    · exact .inr (Nat.le_trans first.touches.size beyond)

end Reworks

end Store

namespace Tree

section Replaced
variable {front back : List Tree} {part other tree : Tree}

theorem mem_namesAll_middle {id : NodeId} :
    id ∈ namesAll (front ++ part :: back) ↔
      id ∈ namesAll front ∨ id ∈ part.names ∨ id ∈ namesAll back := by
  rw [namesAll_append, namesAll, List.mem_append, List.mem_append]

theorem nodup_middle : (namesAll (front ++ part :: back)).Nodup ↔
    (namesAll (front ++ back)).Nodup ∧ part.names.Nodup ∧
      ∀ id ∈ part.names, id ∉ namesAll (front ++ back) := by
  rw [namesAll_append, namesAll_append, namesAll]
  have moved : (namesAll front ++ (part.names ++ namesAll back)).Perm
      (part.names ++ (namesAll front ++ namesAll back)) := List.perm_append_comm_assoc _ _ _
  rw [moved.nodup_iff, List.nodup_append']
  constructor
  · rintro ⟨here, others, apart⟩
    exact ⟨others, here, fun id inside => apart inside⟩
  · rintro ⟨others, here, apart⟩
    exact ⟨here, others, fun id inside => apart id inside⟩

theorem mem_namesAll_of_root {trees : List Tree} {id : NodeId} (rooted : some id ∈ trees.map root) :
    id ∈ namesAll trees := by
  obtain ⟨tree, member, same⟩ := List.mem_map.mp rooted
  exact mem_namesAll.mpr ⟨tree, member, mem_names_root same⟩

/-- What is below the root of one of several trees is not the root of any. -/
theorem not_mem_roots_of_inner {trees : List Tree} {id : NodeId} (nodup : (namesAll trees).Nodup)
    (member : tree ∈ trees) (inside : id ∈ tree.inner) : some id ∉ trees.map root := by
  intro rooted
  obtain ⟨another, there, same⟩ := List.mem_map.mp rooted
  by_cases equal : another = tree
  · subst equal
    exact root_not_mem_inner (nodup_of_mem_namesAll nodup member) same inside
  · have symm : Std.Symm fun first second : Tree => first.names.Disjoint second.names :=
      ⟨fun _ _ apart => apart.symm⟩
    exact (nodup_namesAll_iff.mp nodup).2.forall there member equal (mem_names_root same)
      (tree.inner_subset inside)

end Replaced

end Tree

namespace Store

section Within
variable {store later : Store} {front back : List Tree} {part reworked : Tree} {id : NodeId}
  {shape : Shape}

theorem apart_of_nodup_middle (nodup : (Tree.namesAll (front ++ part :: back)).Nodup)
    {other : Tree} (member : other ∈ front ++ back) : ∀ id ∈ other.names, id ∉ part.names := by
  intro id inside there
  obtain ⟨_, _, apart⟩ := Tree.nodup_middle.mp nodup
  exact apart id there (Tree.mem_namesAll.mpr ⟨other, member, inside⟩)

/-- Reworking one of several trees keeps the others. -/
theorem Reworks.holds_middle (rework : Reworks store later part reworked)
    (holds : ∀ tree ∈ front ++ part :: back, store.Holds tree)
    (nodup : (Tree.namesAll (front ++ part :: back)).Nodup) :
    ∀ tree ∈ front ++ reworked :: back, later.Holds tree := by
  intro tree member
  by_cases same : tree = reworked
  · rw [same]
    exact rework.holds
  · have beside : tree ∈ front ++ back := by
      simp only [List.mem_append, List.mem_cons, same, false_or] at member ⊢
      exact member
    have below : tree ∈ front ++ part :: back := by
      simp only [List.mem_append, List.mem_cons] at beside ⊢
      exact beside.imp_right Or.inr
    exact rework.touches.holds (holds tree below) (apart_of_nodup_middle nodup beside)

theorem Reworks.names_middle (rework : Reworks store later part reworked) {name : NodeId}
    (inside : name ∈ Tree.namesAll (front ++ reworked :: back)) :
    name ∈ Tree.namesAll (front ++ part :: back) ∨ store.nodes.size ≤ name := by
  rw [Tree.mem_namesAll_middle] at inside ⊢
  rcases inside with before | here | behind
  · exact .inl (.inl before)
  · exact (rework.names name here).imp_left fun old => .inr (.inl old)
  · exact .inl (.inr (.inr behind))

theorem Reworks.nodup_middle (rework : Reworks store later part reworked)
    (holds : ∀ tree ∈ front ++ part :: back, store.Holds tree)
    (nodup : (Tree.namesAll (front ++ part :: back)).Nodup) :
    (Tree.namesAll (front ++ reworked :: back)).Nodup := by
  obtain ⟨nodupOthers, _, apart⟩ := Tree.nodup_middle.mp nodup
  refine Tree.nodup_middle.mpr ⟨nodupOthers, rework.nodup, fun name inside there => ?_⟩
  rcases rework.names name inside with old | beyond
  · exact apart name old there
  · obtain ⟨other, member, deeper⟩ := Tree.mem_namesAll.mp there
    have below : other ∈ front ++ part :: back := by
      simp only [List.mem_append, List.mem_cons] at member ⊢
      exact member.imp_right Or.inr
    exact absurd ((holds other below).lt_size deeper) (Nat.not_lt_of_le beyond)

/-- A node is reworked with one of the trees below it. -/
theorem Reworks.below (rework : Reworks store later part reworked)
    (holds : store.Holds (.node id shape (front ++ part :: back)))
    (nodup : (Tree.node id shape (front ++ part :: back)).names.Nodup) :
    Reworks store later (.node id shape (front ++ part :: back))
      (.node id shape (front ++ reworked :: back)) := by
  obtain ⟨apartRoot, nodupBelow⟩ := List.nodup_cons.mp nodup
  have rootOutside : id ∉ part.names :=
    fun inside => apartRoot (Tree.mem_namesAll_middle.mpr (.inr (.inl inside)))
  cases holds with
  | node found regular roots links inner =>
    have bound := lt_size_of_shape? found
    have within : part.names ⊆ (Tree.node id shape (front ++ part :: back)).names :=
      fun name inside =>
        List.mem_cons_of_mem _ (Tree.mem_namesAll_middle.mpr (.inr (.inl inside)))
    refine ⟨rework.touches.mono within, .node ?_ regular ?_ ?_ (rework.holds_middle inner nodupBelow),
      rfl, rework.touches.parent id bound rootOutside, ?_, ?_⟩
    · rw [rework.touches.shape id bound rootOutside, found]
    · rw [roots, List.map_append, List.map_append, List.map_cons, List.map_cons, rework.root]
    · intro other member present
      by_cases same : other = reworked
      · rw [same, rework.root] at present ⊢
        rw [rework.link]
        exact links part (by simp) present
      · have beside : other ∈ front ++ back := by
          simp only [List.mem_append, List.mem_cons, same, false_or] at member ⊢
          exact member
        have there : other ∈ front ++ part :: back := by
          simp only [List.mem_append, List.mem_cons] at beside ⊢
          exact beside.imp_right Or.inr
        rw [rework.touches.parent_root (inner other there) (apart_of_nodup_middle nodupBelow beside)]
        exact links other there present
    · refine List.nodup_cons.mpr ⟨fun inside => ?_, rework.nodup_middle inner nodupBelow⟩
      rcases rework.names_middle inside with old | beyond
      · exact apartRoot old
      · exact absurd bound (Nat.not_lt_of_le beyond)
    · intro name inside
      rcases List.mem_cons.mp inside with rfl | deeper
      · exact .inl List.mem_cons_self
      · exact (rework.names_middle deeper).imp_left fun old => List.mem_cons_of_mem _ old

end Within

/-! ## New statements for a block -/

section Blocks
variable {store later : Store} {container : NodeId} {before : List Slot} {below statements : List Tree}

/-- A node below the root of a tree has its parent in the tree. -/
theorem Holds.parent_mem {tree : Tree} {id : NodeId} (holds : store.Holds tree)
    (inside : id ∈ tree.inner) : ∃ parent ∈ tree.names, store.parent (some id) = some parent := by
  induction holds with
  | nothing => cases inside
  | @node name shape below found regular roots links _ ih =>
    obtain ⟨child, member, there⟩ := Tree.mem_namesAll.mp inside
    by_cases deeper : id ∈ child.inner
    · obtain ⟨parent, within, linked⟩ := ih child member deeper
      exact ⟨parent, List.mem_cons_of_mem _ (Tree.mem_namesAll.mpr ⟨child, member, within⟩), linked⟩
    · cases child with
      | nothing => cases there
      | node root _ _ =>
        rcases List.mem_cons.mp there with rfl | below
        · exact ⟨name, List.mem_cons_self, links _ member rfl⟩
        · exact absurd below deeper

theorem touches_setStatements (found : store.shape? (some container) = some (.block before))
    (after : List Slot) :
    Touches store (store.setStatements (some container) after).1
      (container :: (before ++ after).filterMap id) := by
  refine ⟨Nat.le_of_eq (size_setStatements found).symm, ?_, ?_⟩
  · intro id bound outside
    have other : id ≠ container := by
      rintro rfl
      exact outside List.mem_cons_self
    rw [shape?_setStatements found, if_neg other]
  · intro id bound outside
    have apart : some id ∉ before ++ after := fun member =>
      outside (List.mem_cons_of_mem _ (List.mem_filterMap.mpr ⟨some id, member, rfl⟩))
    rw [List.mem_append, not_or] at apart
    rw [parent_setStatements found bound, if_neg apart.2, if_neg fun both => apart.1 both.1]

/-- A tree that a block is not part of keeps its place, unless a part of it goes to the block. -/
theorem Holds.setStatements {tree : Tree} {after : List Slot} (holds : store.Holds tree)
    (found : store.shape? (some container) = some (.block before))
    (outside : container ∉ tree.names) (apart : ∀ id ∈ tree.inner, some id ∉ after) :
    (store.setStatements (some container) after).1.Holds tree := by
  refine holds.transfer ?_ ?_
  · intro id inside
    have other : id ≠ container := by
      rintro rfl
      exact outside inside
    rw [shape?_setStatements found, if_neg other]
  · intro id inside
    obtain ⟨parent, within, linked⟩ := holds.parent_mem inside
    have other : parent ≠ container := by
      rintro rfl
      exact outside within
    rw [parent_setStatements found (holds.lt_size (tree.inner_subset inside)),
      if_neg (apart id inside), if_neg fun both =>
        other (Option.some.inj (linked.symm.trans both.2))]

/-- A block can be given any trees that do not overlap. -/
theorem setStatements_holds (found : store.shape? (some container) = some (.block before))
    (held : ∀ tree ∈ statements, store.Holds tree)
    (nodup : (container :: Tree.namesAll statements).Nodup) :
    (store.setStatements (some container) (statements.map Tree.root)).1.Holds
      (.node container (.block (statements.map Tree.root)) statements) := by
  obtain ⟨outside, nodupBelow⟩ := List.nodup_cons.mp nodup
  refine .node ?_ (.refl _) rfl ?_ ?_
  · rw [shape?_setStatements found, if_pos rfl]
  · intro tree member present
    obtain ⟨id, rooted⟩ := Option.isSome_iff_exists.mp present
    rw [rooted, parent_setStatements found ((held tree member).lt_size (Tree.mem_names_root rooted)),
      if_pos (rooted ▸ List.mem_map_of_mem member)]
  · intro tree member
    refine (held tree member).setStatements found ?_ ?_
    · exact fun inside => outside (Tree.mem_namesAll.mpr ⟨tree, member, inside⟩)
    · exact fun id inside => Tree.not_mem_roots_of_inner nodupBelow member inside

theorem parent_container_setStatements
    (found : store.shape? (some container) = some (.block before))
    (beside : some container ∉ before) (outside : container ∉ Tree.namesAll statements) :
    (store.setStatements (some container) (statements.map Tree.root)).1.parent (some container) =
      store.parent (some container) := by
  have notRoot : some container ∉ statements.map Tree.root := fun rooted =>
    outside (Tree.mem_namesAll_of_root rooted)
  rw [parent_setStatements found (lt_size_of_shape? found), if_neg notRoot,
    if_neg fun both => beside both.1]

/-- A block is reworked if it gets its own statements and new ones. -/
theorem setStatements_reworks (holds : store.Holds (.node container (.block before) below))
    (nodup : (Tree.node container (.block before) below).names.Nodup) (grown : Grown store later)
    (held : ∀ tree ∈ statements, later.Holds tree) (distinct : (Tree.namesAll statements).Nodup)
    (names : ∀ id ∈ Tree.namesAll statements,
      id ∈ Tree.namesAll below ∨ store.nodes.size ≤ id) :
    Reworks store (later.setStatements (some container) (statements.map Tree.root)).1
      (.node container (.block before) below)
      (.node container (.block (statements.map Tree.root)) statements) := by
  obtain ⟨outside, nodupBelow⟩ := List.nodup_cons.mp nodup
  cases holds with
  | node found regular roots links inner =>
    have bound := lt_size_of_shape? found
    have found' : later.shape? (some container) = some (.block before) := by
      rw [grown.shape container bound, found]
    have outside' : container ∉ Tree.namesAll statements := by
      intro inside
      rcases names container inside with old | beyond
      · exact outside old
      · exact absurd bound (Nat.not_lt_of_le beyond)
    have before_eq : before = below.map Tree.root := roots
    have beside : some container ∉ before := by
      rw [before_eq]
      exact fun rooted => outside (Tree.mem_namesAll_of_root rooted)
    have nodup' : (container :: Tree.namesAll statements).Nodup :=
      List.nodup_cons.mpr ⟨outside', distinct⟩
    refine ⟨?_, setStatements_holds found' held nodup', rfl, ?_, nodup', ?_⟩
    · refine (grown.touches _).trans (touches_setStatements found' _) fun id changed => ?_
      rcases List.mem_cons.mp changed with rfl | child
      · exact .inl List.mem_cons_self
      · obtain ⟨slot, member, same⟩ := List.mem_filterMap.mp child
        cases same
        rcases List.mem_append.mp member with old | new
        · rw [before_eq] at old
          exact .inl (List.mem_cons_of_mem _ (Tree.mem_namesAll_of_root old))
        · exact (names id (Tree.mem_namesAll_of_root new)).imp_left
            fun inside => List.mem_cons_of_mem _ inside
    · rw [Tree.root_node, parent_container_setStatements found' beside outside',
        grown.parent container bound]
    · intro id inside
      rcases List.mem_cons.mp inside with rfl | deeper
      · exact .inl List.mem_cons_self
      · exact (names id deeper).imp_left fun old => List.mem_cons_of_mem _ old

end Blocks

end Store

end Unflatten
