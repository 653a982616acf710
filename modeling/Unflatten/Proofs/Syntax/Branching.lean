import Unflatten.Proofs.Syntax.Tree

/-! # Nodes that branch into trees

A store may hold any graph of nodes.  A node leads down to its children, to theirs and so on
(`Store.LeadsDown`), and all that the node of a slot leads to stands under the slot
(`Store.IsUnder`).  Nothing is said of parent links here: the nodes under a slot are a tree if each
of them but the first has one place among the children of one of them (`Store.Branches`).

No way down a tree comes back to where it has been, so it ends within the size of the store
(`Store.EndsWithin`), and siblings lead to nothing in common.  Hence the two orders list every node
once, a node before all that is below it or behind all that is below it. -/

set_option autoImplicit false

namespace Unflatten

namespace Store

/-- A node is another one or stands above it. -/
def LeadsDown (store : Store) : NodeId → NodeId → Prop :=
  Relation.ReflTransGen fun above child => child ∈ store.children above

/-- A node stands in a slot or below it. -/
def IsUnder (store : Store) (slot : Slot) (id : NodeId) : Prop :=
  ∃ top, slot = some top ∧ store.LeadsDown top id

/-- The nodes under a slot are a tree. -/
structure Branches (store : Store) (root : Slot) : Prop where
  /-- The node of the slot is nobody's child. -/
  top : ∀ id, store.IsUnder root id → ∀ child ∈ store.children id, root ≠ some child
  /-- No two nodes have a child in common. -/
  parent : ∀ first second child, store.IsUnder root first → store.IsUnder root second →
    child ∈ store.children first → child ∈ store.children second → first = second
  /-- No node has a child twice. -/
  once : ∀ id, store.IsUnder root id → (store.children id).Nodup

/-- No way down from a node has more than some number of nodes. -/
inductive EndsWithin (store : Store) : Nat → NodeId → Prop
  | node {depth : Nat} {id : NodeId} (below : ∀ child ∈ store.children id, EndsWithin store depth child) :
      EndsWithin store (depth + 1) id

/-- What is listed for an item is part of what is listed for all of them. -/
theorem sublist_flatMap {α β : Type} {items : List α} {item : α} (member : item ∈ items)
    (listed : α → List β) : (listed item).Sublist (items.flatMap listed) := by
  simpa using (List.singleton_sublist.mpr member).flatMap listed

section Reaching
variable {store : Store} {root : Slot} {id child other : NodeId}

theorem isUnder_some {top : NodeId} : store.IsUnder (some top) id ↔ store.LeadsDown top id := by
  simp [IsUnder]

theorem IsUnder.leads (under : store.IsUnder root id) (leads : store.LeadsDown id other) :
    store.IsUnder root other := by
  obtain ⟨top, rooted, way⟩ := under
  exact ⟨top, rooted, way.trans leads⟩

theorem IsUnder.toChild (under : store.IsUnder root id) (member : child ∈ store.children id) :
    store.IsUnder root child :=
  under.leads (.single member)

/-- What has children is a node. -/
theorem exists_shape_of_child (member : child ∈ store.children id) :
    ∃ shape, store.shape? (some id) = some shape := by
  unfold children at member
  cases found : store.shape? (some id) with
  | none =>
    rw [found] at member
    cases member
  | some shape => exact ⟨shape, rfl⟩

/-! ## Ways down a tree -/

/-- No node leads back to itself. -/
theorem Branches.acyclic (branches : store.Branches root) (under : store.IsUnder root id)
    (member : child ∈ store.children id) : ¬store.LeadsDown child id := by
  obtain ⟨top, rfl, way⟩ := under
  -- a way that comes back to a node has come back to its parent before
  induction way generalizing child with
  | refl =>
    intro back
    have start : store.IsUnder (some top) top := ⟨top, rfl, .refl⟩
    rcases back.cases_tail with rfl | ⟨last, leads, listed⟩
    · exact branches.top top start top member rfl
    · exact branches.top last ((start.toChild member).leads leads) top listed rfl
  | @tail above id way listed ih =>
    intro back
    have behind : store.IsUnder (some top) above := ⟨top, rfl, way⟩
    have under : store.IsUnder (some top) id := behind.toChild listed
    rcases back.cases_tail with rfl | ⟨last, leads, again⟩
    · cases branches.parent above id id behind under listed member
      exact ih listed .refl
    · cases branches.parent above last id behind ((under.toChild member).leads leads) listed again
      exact ih listed (.head member leads)

/-- Of two nodes above a third one stands above the other. -/
theorem Branches.comparable (branches : store.Branches root) {first second : NodeId}
    (one : store.IsUnder root first) (two : store.IsUnder root second)
    (leads : store.LeadsDown first id) (also : store.LeadsDown second id) :
    store.LeadsDown first second ∨ store.LeadsDown second first := by
  induction leads with
  | refl => exact .inr also
  | tail way listed ih =>
    rcases also.cases_tail with rfl | ⟨last, wayThere, again⟩
    · exact .inl (way.tail listed)
    · cases branches.parent _ _ _ (one.leads way) (two.leads wayThere) listed again
      exact ih wayThere

/-- Siblings lead to nothing in common. -/
theorem Branches.siblings (branches : store.Branches root) (under : store.IsUnder root id)
    {first second : NodeId} (one : first ∈ store.children id) (two : second ∈ store.children id)
    (leads : store.LeadsDown first other) (also : store.LeadsDown second other) : first = second := by
  have apart : ∀ {upper lower : NodeId}, upper ∈ store.children id → lower ∈ store.children id →
      store.LeadsDown upper lower → lower = upper := by
    intro upper lower high low down
    rcases down.cases_tail with same | ⟨last, way, listed⟩
    · exact same
    · cases branches.parent last id lower ((under.toChild high).leads way) under listed low
      exact absurd way (branches.acyclic under high)
  rcases branches.comparable (under.toChild one) (under.toChild two) leads also with down | down
  · exact (apart one two down).symm
  · exact apart two one down

/-- The nodes from the root to some node are different ones, so they are soon used up. -/
theorem Branches.endsWithin_below (branches : store.Branches root) {depth : Nat} {above : List NodeId}
    (under : store.IsUnder root id) (nodup : (id :: above).Nodup)
    (inside : ∀ other ∈ above, other < store.nodes.size)
    (leads : ∀ other ∈ above, store.LeadsDown other id)
    (enough : store.nodes.size < above.length + depth) : store.EndsWithin depth id := by
  induction depth generalizing id above with
  | zero =>
    have few := length_le_size nodup.of_cons inside
    omega
  | succ depth ih =>
    refine .node fun child member => ?_
    obtain ⟨shape, found⟩ := exists_shape_of_child member
    refine @ih child (id :: above) (under.toChild member) (List.nodup_cons.mpr ⟨fun back => ?_, nodup⟩)
      (List.forall_mem_cons.mpr ⟨lt_size_of_shape? found, inside⟩) (fun other among => ?_) ?_
    · rcases List.mem_cons.mp back with rfl | among
      · exact branches.acyclic under member .refl
      · exact branches.acyclic under member (leads child among)
    · rcases List.mem_cons.mp among with rfl | further
      · exact .single member
      · exact (leads other further).tail member
    · rw [List.length_cons]
      omega

theorem Branches.endsWithin (branches : store.Branches root) (under : store.IsUnder root id) :
    store.EndsWithin store.depthBound id :=
  branches.endsWithin_below under (List.nodup_singleton id) (List.forall_mem_nil _)
    (List.forall_mem_nil _) (by simp [depthBound])

/-- Lists of what is below each child have nothing in common. -/
theorem Branches.nodup_flatMap (branches : store.Branches root) (under : store.IsUnder root id)
    {listed : NodeId → List NodeId} (each : ∀ child ∈ store.children id, (listed child).Nodup)
    (below : ∀ child ∈ store.children id, ∀ other ∈ listed child, store.LeadsDown child other) :
    ((store.children id).flatMap listed).Nodup := by
  refine List.nodup_flatMap.mpr ⟨each, (branches.once id under).imp_of_mem ?_⟩
  intro first second one two apart other there also
  exact apart (branches.siblings under one two (below first one other there) (below second two other also))

/-! ## Ways down that end -/

theorem EndsWithin.mono {depth more : Nat} (ends : store.EndsWithin depth id) (enough : depth ≤ more) :
    store.EndsWithin more id := by
  induction ends generalizing more with
  | @node depth id _ ih =>
    obtain ⟨more, rfl⟩ := Nat.exists_eq_succ_of_ne_zero (Nat.ne_zero_of_lt enough)
    exact .node fun child member => ih child member (Nat.le_of_succ_le_succ enough)

/-- The ways down from some nodes end within one bound if each of them ends. -/
theorem exists_endsWithin {ids : List NodeId} (each : ∀ id ∈ ids, ∃ depth, store.EndsWithin depth id) :
    ∃ depth, ∀ id ∈ ids, store.EndsWithin depth id := by
  induction ids with
  | nil => exact ⟨0, List.forall_mem_nil _⟩
  | cons id rest ih =>
    obtain ⟨⟨first, ends⟩, others⟩ := List.forall_mem_cons.mp each
    obtain ⟨depth, all⟩ := ih others
    exact ⟨max first depth, List.forall_mem_cons.mpr
      ⟨ends.mono (Nat.le_max_left _ _), fun id member => (all id member).mono (Nat.le_max_right _ _)⟩⟩

theorem EndsWithin.leads {depth : Nat} (ends : store.EndsWithin depth id)
    (leads : store.LeadsDown id other) : ∃ depth, store.EndsWithin depth other := by
  induction leads with
  | refl => exact ⟨depth, ends⟩
  | tail _ listed ih =>
    obtain ⟨_, ends⟩ := ih
    cases ends with
    | node below => exact ⟨_, below _ listed⟩

/-- Where the ways down end, none comes back. -/
theorem EndsWithin.acyclic {depth : Nat} (ends : store.EndsWithin depth id)
    (member : child ∈ store.children id) : ¬store.LeadsDown child id := by
  induction ends generalizing child with
  | @node depth id _ ih =>
    -- a way back to the node is a way back to the child
    intro back
    rcases back.cases_head with rfl | ⟨first, listed, way⟩
    · exact ih child member member .refl
    · exact ih child member listed (way.tail member)

end Reaching

/-! ## The two orders -/

section Orders
variable {store : Store} {root : Slot} {depth : Nat} {id child other : NodeId}

/-- A recursion over the children with a bound on its depth is the same under any bound that every
way down ends before. -/
theorem EndsWithin.unbounded {listed : Nat → NodeId → List NodeId}
    {around : NodeId → List NodeId → List NodeId}
    (step : ∀ depth id,
      listed (depth + 1) id = around id ((store.children id).flatMap (listed depth)))
    (ends : store.EndsWithin depth id) {more : Nat} (enough : depth ≤ more) :
    listed more id = listed depth id := by
  induction ends generalizing more with
  | @node depth id _ ih =>
    obtain ⟨more, rfl⟩ := Nat.exists_eq_succ_of_ne_zero (Nat.ne_zero_of_lt enough)
    rw [step, step]
    congr 1
    exact List.flatMap_congr fun child member => ih child member (Nat.le_of_succ_le_succ enough)

/-- So in a tree it needs no bound. -/
theorem Branches.unbounded (branches : store.Branches root) (under : store.IsUnder root id)
    {listed : Nat → NodeId → List NodeId} {around : NodeId → List NodeId → List NodeId}
    (step : ∀ depth id,
      listed (depth + 1) id = around id ((store.children id).flatMap (listed depth))) :
    listed store.depthBound id =
      around id ((store.children id).flatMap (listed store.depthBound)) := by
  have ends := branches.endsWithin under
  rw [← ends.unbounded step (Nat.le_succ _), step]

theorem EndsWithin.mem_preorder (ends : store.EndsWithin depth id) :
    other ∈ store.preorderOnto depth id [] ↔ store.LeadsDown id other := by
  induction ends with
  | @node depth id below ih =>
    rw [preorderOnto_succ, List.mem_cons, List.mem_flatMap]
    constructor
    · rintro (rfl | ⟨child, member, there⟩)
      · exact .refl
      · exact .head member ((ih child member).mp there)
    · intro leads
      rcases leads.cases_head with rfl | ⟨child, member, way⟩
      · exact .inl rfl
      · exact .inr ⟨child, member, (ih child member).mpr way⟩

theorem EndsWithin.mem_postorder (ends : store.EndsWithin depth id) :
    other ∈ store.postorderOnto depth id [] ↔ store.LeadsDown id other :=
  (store.postorderOnto_perm depth id).mem_iff.trans ends.mem_preorder

theorem Branches.nodup_preorder (branches : store.Branches root) (under : store.IsUnder root id)
    (ends : store.EndsWithin depth id) : (store.preorderOnto depth id []).Nodup := by
  induction ends with
  | @node depth id below ih =>
    rw [preorderOnto_succ]
    refine List.nodup_cons.mpr ⟨fun again => ?_, ?_⟩
    · obtain ⟨child, member, there⟩ := List.mem_flatMap.mp again
      exact branches.acyclic under member ((below child member).mem_preorder.mp there)
    · exact branches.nodup_flatMap under (fun child member => ih child member (under.toChild member))
        fun child member other there => (below child member).mem_preorder.mp there

/-- Parents first: a node comes before what is below it. -/
theorem EndsWithin.before (ends : store.EndsWithin depth id) {above : NodeId}
    (leads : store.LeadsDown id above) (down : store.LeadsDown above other) (apart : above ≠ other) :
    [above, other].Sublist (store.preorderOnto depth id []) := by
  induction ends with
  | @node depth id below ih =>
    rw [preorderOnto_succ]
    rcases leads.cases_head with rfl | ⟨child, member, way⟩
    · obtain rfl | ⟨child, member, way⟩ := down.cases_head
      · exact absurd rfl apart
      · refine List.Sublist.cons_cons id (List.singleton_sublist.mpr ?_)
        exact List.mem_flatMap.mpr ⟨child, member, (below child member).mem_preorder.mpr way⟩
    · have part := sublist_flatMap member fun child => store.preorderOnto depth child []
      exact ((ih child member way).trans part).cons id

/-- Children first: a node comes behind what is below it. -/
theorem EndsWithin.behind (ends : store.EndsWithin depth id) {above : NodeId}
    (leads : store.LeadsDown id above) (down : store.LeadsDown above other) (apart : above ≠ other) :
    [other, above].Sublist (store.postorderOnto depth id []) := by
  induction ends with
  | @node depth id below ih =>
    rw [postorderOnto_succ]
    rcases leads.cases_head with rfl | ⟨child, member, way⟩
    · obtain rfl | ⟨child, member, way⟩ := down.cases_head
      · exact absurd rfl apart
      · refine (List.singleton_sublist.mpr ?_).append (.refl [id])
        exact List.mem_flatMap.mpr ⟨child, member, (below child member).mem_postorder.mpr way⟩
    · have part := sublist_flatMap member fun child => store.postorderOnto depth child []
      exact ((ih child member way).trans part).trans (List.sublist_append_left _ _)

end Orders

/-! ## Trees whose links are right -/

section Trees
variable {store : Store} {tree inner : Tree} {id child : NodeId}

/-- The roots of some trees are among their names, in the same order. -/
theorem roots_sublist (trees : List Tree) :
    (trees.filterMap Tree.root).Sublist (Tree.namesAll trees) := by
  induction trees with
  | nil => exact .refl _
  | cons tree rest ih =>
    rw [Tree.namesAll]
    cases tree with
    | nothing => exact ih
    | node name shape below => exact (ih.trans (List.sublist_append_right _ _)).cons_cons name

theorem inner_subset_of_within (within : Tree.Within inner tree) : inner.inner ⊆ tree.inner := by
  cases within with
  | whole => exact List.Subset.refl _
  | deeper member within =>
    intro name among
    exact Tree.mem_namesAll.mpr ⟨_, member, within.names_subset (inner.inner_subset among)⟩

/-- A child of a node in a tree stands below the root, and its link leads to the node. -/
theorem Holds.child_spec (holds : store.Holds tree) (inside : id ∈ tree.names)
    (member : child ∈ store.children id) : child ∈ tree.inner ∧ store.parent (some child) = some id := by
  obtain ⟨part, within, rooted⟩ := Tree.exists_within inside
  cases part with
  | nothing => cases rooted
  | node name shape below =>
    cases rooted
    have held := holds.within within
    obtain ⟨first, listed, same⟩ := List.mem_filterMap.mp (held.children_eq.mem_iff.mp member)
    cases held with
    | node _ _ _ links _ =>
      have lower : child ∈ Tree.namesAll below :=
        Tree.mem_namesAll.mpr ⟨first, listed, Tree.mem_names_root same⟩
      refine ⟨inner_subset_of_within within lower, ?_⟩
      rw [← same]
      exact links first listed (by rw [same]; rfl)

theorem Holds.nodup_children (holds : store.Holds tree) (nodup : tree.names.Nodup)
    (inside : id ∈ tree.names) : (store.children id).Nodup := by
  obtain ⟨part, within, rooted⟩ := Tree.exists_within inside
  cases part with
  | nothing => cases rooted
  | node name shape below =>
    cases rooted
    have apart := (List.nodup_cons.mp (within.nodup nodup)).2
    exact (holds.within within).children_eq.nodup_iff.mpr (apart.sublist (roots_sublist below))

theorem Holds.mem_of_isUnder (holds : store.Holds tree) (under : store.IsUnder tree.root id) :
    id ∈ tree.names := by
  obtain ⟨top, rooted, way⟩ := under
  induction way with
  | refl => exact Tree.mem_names_root rooted
  | tail _ listed ih => exact tree.inner_subset (holds.child_spec ih listed).1

/-- Below the root of a tree with true links the nodes branch. -/
theorem IsTree.branches {root : NodeId} (isTree : store.IsTree root) : store.Branches (some root) := by
  obtain ⟨tree, holds, rooted, nodup⟩ := isTree
  have inside : ∀ id, store.IsUnder (some root) id → id ∈ tree.names :=
    fun id under => holds.mem_of_isUnder (rooted ▸ under)
  refine ⟨fun id under child member same => ?_, fun first second child one two listed also => ?_,
    fun id under => holds.nodup_children nodup (inside id under)⟩
  · cases same
    have lower := (holds.child_spec (inside id under) member).1
    cases tree with
    | nothing => cases rooted
    | node name shape below =>
      cases rooted
      exact (List.nodup_cons.mp nodup).1 lower
  · have linked := (holds.child_spec (inside first one) listed).2
    exact Option.some_inj.mp (linked.symm.trans (holds.child_spec (inside second two) also).2)

end Trees

end Store

end Unflatten
