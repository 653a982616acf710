import Unflatten.Proofs.Syntax.Copying

/-! # The walk up

In a tree the parent links lead from a node to the root, through the roots of the parts that
contain the node.  So a node is above another if and only if the other is in the tree below it. -/

set_option autoImplicit false

namespace Unflatten

namespace Store

section Climb
variable {store : Store} {tree part : Tree} {id : NodeId}

/-- The way up from a node of a tree: it meets the roots of the parts that contain the node, and
goes on above the tree. -/
structure IsPath (store : Store) (tree : Tree) (id : NodeId) (path : List NodeId) : Prop where
  short : path.length ≤ tree.height
  mem : ∀ above, above ∈ path ↔ ∃ part, Tree.Within part tree ∧ part.root = some above ∧
    id ∈ part.names
  climb : ∀ test steps, path.length ≤ steps →
    store.climb test steps (some id) =
      (path.find? test).or (store.climb test (steps - path.length) (store.parent tree.root))

theorem within_nothing_iff : Tree.Within part .nothing ↔ part = .nothing := by
  constructor
  · rintro ⟨⟩
    rfl
  · rintro rfl
    exact .whole

theorem within_node_iff {shape : Shape} {below : List Tree} :
    Tree.Within part (.node id shape below) ↔
      part = .node id shape below ∨ ∃ child ∈ below, Tree.Within part child := by
  constructor
  · intro within
    cases within with
    | whole => exact .inl rfl
    | deeper member within => exact .inr ⟨_, member, within⟩
  · rintro (rfl | ⟨child, member, within⟩)
    · exact .whole
    · exact .deeper member within

theorem Holds.exists_path (holds : store.Holds tree) (nodup : tree.names.Nodup)
    (inside : id ∈ tree.names) : ∃ path, IsPath store tree id path := by
  induction holds with
  | nothing => cases inside
  | @node root shape below found regular roots links inner ih =>
    obtain ⟨outside, nodupBelow⟩ := List.nodup_cons.mp nodup
    have whole := Holds.node found regular roots links inner
    rcases List.mem_cons.mp inside with rfl | deeper
    · refine ⟨[id], Nat.succ_le_succ (Nat.zero_le _), fun above => ?_, fun test steps enough => ?_⟩
      · rw [List.mem_singleton]
        constructor
        · rintro rfl
          exact ⟨_, .whole, rfl, List.mem_cons_self⟩
        · rintro ⟨part, within, rooted, contains⟩
          rcases within_node_iff.mp within with rfl | ⟨child, member, deeper⟩
          · exact (Option.some.inj rooted).symm
          · exact absurd (Tree.mem_namesAll.mpr ⟨child, member, deeper.names_subset contains⟩) outside
      · cases steps with
        | zero => exact absurd enough (Nat.not_succ_le_zero _)
        | succ steps =>
          rw [climb, List.find?_cons]
          cases test id with
          | true => rfl
          | false =>
            rw [if_neg Bool.false_ne_true]
            rfl
    · obtain ⟨child, member, there⟩ := Tree.mem_namesAll.mp deeper
      obtain ⟨path, isPath⟩ := ih child member (Tree.nodup_of_mem_namesAll nodupBelow member) there
      have present : child.root.isSome := by
        cases child with
        | nothing => cases there
        | node => rfl
      refine ⟨path ++ [root], ?_, fun above => ?_, fun test steps enough => ?_⟩
      · rw [List.length_append]
        exact Nat.succ_le_succ (Nat.le_trans isPath.short (Tree.height_le_heightAll member))
      · rw [List.mem_append, List.mem_singleton, isPath.mem]
        constructor
        · rintro (⟨part, within, rooted, contains⟩ | rfl)
          · exact ⟨part, .deeper member within, rooted, contains⟩
          · exact ⟨_, .whole, rfl, inside⟩
        · rintro ⟨part, within, rooted, contains⟩
          rcases within_node_iff.mp within with rfl | ⟨other, also, deeper⟩
          · exact .inr (Option.some.inj rooted).symm
          · by_cases same : other = child
            · subst same
              exact .inl ⟨part, deeper, rooted, contains⟩
            · have symm : Std.Symm fun first second : Tree => first.names.Disjoint second.names :=
                ⟨fun _ _ apart => apart.symm⟩
              exact absurd there ((Tree.nodup_namesAll_iff.mp nodupBelow).2.forall also member same
                (deeper.names_subset contains))
      · rw [List.length_append, List.length_singleton] at enough
        rw [isPath.climb test steps (Nat.le_of_succ_le enough), links child member present,
          List.find?_append, Option.or_assoc, List.length_append, List.length_singleton]
        congr 1
        obtain ⟨rest, left⟩ : ∃ rest, steps - path.length = rest + 1 :=
          ⟨steps - path.length - 1, by omega⟩
        have fewer : steps - (path.length + 1) = rest := by omega
        rw [left, fewer, climb, List.find?_singleton]
        cases test root with
        | true => rfl
        | false =>
          rw [if_neg Bool.false_ne_true]
          rfl

/-- A node is above another if the other is in the tree below it. -/
theorem Holds.isAncestorOrSelf_iff (holds : store.Holds tree) (nodup : tree.names.Nodup)
    (top : store.parent tree.root = none) (within : Tree.Within part tree)
    (inside : id ∈ tree.names) :
    store.isAncestorOrSelf part.root (some id) = true ↔ id ∈ part.names := by
  cases rooted : part.root with
  | none =>
    cases part with
    | nothing => exact ⟨(fun impossible => nomatch impossible), (fun impossible => nomatch impossible)⟩
    | node => cases rooted
  | some above =>
    obtain ⟨path, isPath⟩ := holds.exists_path nodup inside
    have enough : path.length ≤ store.depthBound :=
      Nat.le_trans isPath.short (Nat.le_succ_of_le (holds.height_le nodup))
    have outside : ∀ test steps, store.climb test steps none = none := by
      intro test steps
      cases steps <;> rfl
    rw [isAncestorOrSelf, isPath.climb _ _ enough, top, outside, Option.or_none, List.find?_isSome]
    constructor
    · rintro ⟨found, member, same⟩
      obtain ⟨other, within', rooted', contains⟩ := (isPath.mem found).mp member
      rw [eq_of_beq same] at rooted'
      rw [(holds.within within).unique (holds.within within') (rooted.trans rooted'.symm)]
      exact contains
    · intro contains
      exact ⟨above, (isPath.mem above).mpr ⟨part, within, rooted, contains⟩, beq_self_eq_true above⟩

end Climb

end Store

end Unflatten

/-! ## Parent links that can be trusted

`Store.isAttached` follows parent links, although it is the slots that make the tree.  The two
agree in an arena: below the root the nodes form a tree, and a parent link leads to a node that
lists the child. -/

namespace Unflatten

namespace Store

/-- Every parent link leads to a node with the child in a slot. -/
def HasTrueLinks (store : Store) : Prop :=
  ∀ child parent, store.parent (some child) = some parent →
    ∃ shape, store.shape? (some parent) = some shape ∧ some child ∈ shape.slots

structure IsArena (store : Store) (root : NodeId) : Prop where
  tree : store.IsTree root
  top : store.parent (some root) = none
  links : store.HasTrueLinks

section Attached
variable {store : Store} {root id : NodeId} {tree : Tree} {slot : Slot}

/-- Whoever climbs to a node of a tree starts in the tree. -/
theorem HasTrueLinks.mem_of_climb (links : store.HasTrueLinks) (holds : store.Holds tree)
    {test : NodeId → Bool} {steps : Nat} (inside : ∀ above, test above = true → above ∈ tree.names)
    (climbs : (store.climb test steps slot).isSome = true) :
    ∃ id ∈ tree.names, slot = some id := by
  induction steps generalizing slot with
  | zero => cases climbs
  | succ steps ih =>
    cases slot with
    | none => cases climbs
    | some id =>
      rw [climb] at climbs
      split at climbs
      · rename_i found
        exact ⟨id, inside id found, rfl⟩
      · obtain ⟨parent, there, linked⟩ := ih climbs
        obtain ⟨shape, found, listed⟩ := links id parent linked
        exact ⟨id, (holds.slot_mem there found listed).1, rfl⟩

theorem IsArena.mem_of_isAttached (arena : store.IsArena root) (holds : store.Holds tree)
    (rooted : tree.root = some root) (attached : store.isAttached root slot = true) :
    ∃ id ∈ tree.names, slot = some id := by
  refine arena.links.mem_of_climb holds (fun above same => ?_) attached
  rw [eq_of_beq same]
  exact Tree.mem_names_root rooted

theorem IsArena.exists_tree (arena : store.IsArena root) :
    ∃ tree, store.Holds tree ∧ tree.root = some root ∧ tree.names.Nodup ∧
      store.parent tree.root = none := by
  obtain ⟨tree, holds, rooted, nodup⟩ := arena.tree
  exact ⟨tree, holds, rooted, nodup, by rw [rooted, arena.top]⟩

/-- The walk up finds the root from the nodes that the walk down finds, and from no others. -/
theorem IsArena.isAttached_iff (arena : store.IsArena root) :
    store.isAttached root (some id) = true ↔ id ∈ store.descendants (some root) := by
  obtain ⟨tree, holds, rooted, nodup, top⟩ := arena.exists_tree
  rw [← rooted, (holds.descendants_perm nodup).mem_iff]
  constructor
  · intro attached
    obtain ⟨_, inside, same⟩ := arena.mem_of_isAttached holds rooted attached
    cases same
    exact inside
  · intro inside
    have above := holds.isAncestorOrSelf_iff nodup top .whole inside
    rw [rooted] at above
    exact above.mpr inside

end Attached

/-! ## Arenas in full -/

/-- Whether each parent link leads to a node that lists the child. -/
def linksHold (store : Store) : Bool :=
  (List.range store.nodes.size).all fun child =>
    (store.parent (some child)).all fun parent =>
      store.satisfies (some parent) fun shape => shape.slots.contains (some child)

theorem hasTrueLinks_of_linksHold {store : Store} (hold : store.linksHold = true) :
    store.HasTrueLinks := by
  intro child parent linked
  have bound : child < store.nodes.size := by
    by_contra beyond
    rw [parent_eq_none store child (Nat.le_of_not_lt beyond)] at linked
    cases linked
  have listed := List.all_eq_true.mp hold child (List.mem_range.mpr bound)
  rw [linked, Option.all_some, satisfies, Option.any_eq_true] at listed
  obtain ⟨shape, found, contains⟩ := listed
  exact ⟨shape, found, List.contains_iff_mem.mp contains⟩

end Store

end Unflatten
