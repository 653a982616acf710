import Unflatten.Proofs.Syntax.Editing

/-! # Copies

A copy of a tree is made of new nodes and is the same tree but for its names. -/

set_option autoImplicit false

namespace Unflatten

namespace Shape

theorem withSlots_withSlots (shape : Shape) (first second : List Slot) :
    (shape.withSlots first).withSlots second = shape.withSlots second := by
  cases shape <;> rfl

theorem eq_identifier_of_withSlots {shape : Shape} {slots : List Slot} {name : String}
    (same : shape.withSlots slots = .identifier name) : shape = .identifier name := by
  cases shape <;> cases same
  rfl

/-- Renaming the slots renames the children. -/
theorem visible_withSlots (shape : Shape) (rename : Slot → Slot) :
    (shape.withSlots (shape.slots.map rename)).visible = shape.visible.map rename := by
  have renamed := shape.slots_withSlots (shape.slots.map rename) (List.length_map _)
  cases shape
  case loop kind _ _ _ _ => cases kind <;> rfl
  all_goals exact renamed

end Shape

namespace Tree

mutual

/-- The tree without its names. -/
def bare : Tree → Tree
  | .nothing => .nothing
  | .node _ shape below => .node 0 (shape.withSlots []) (bareAll below)

/-- The trees without their names. -/
def bareAll : List Tree → List Tree
  | [] => []
  | tree :: rest => tree.bare :: bareAll rest

end

theorem bareAll_eq (trees : List Tree) : bareAll trees = trees.map bare := by
  induction trees with
  | nil => rfl
  | cons tree rest ih => rw [bareAll, ih, List.map_cons]

theorem nodup_namesAll_iff {trees : List Tree} :
    (namesAll trees).Nodup ↔
      (∀ tree ∈ trees, tree.names.Nodup) ∧
        trees.Pairwise fun first second => first.names.Disjoint second.names := by
  rw [namesAll_eq]
  exact List.nodup_flatMap

theorem root_not_mem_inner {tree : Tree} {id : NodeId} (nodup : tree.names.Nodup)
    (rooted : tree.root = some id) : id ∉ tree.inner := by
  cases tree with
  | nothing => cases rooted
  | node =>
    cases rooted
    exact (List.nodup_cons.mp nodup).1

end Tree

namespace Store

/-- The one store goes on from the other: all nodes keep their shapes and parents. -/
structure Grown (store later : Store) : Prop where
  size : store.nodes.size ≤ later.nodes.size
  shape : ∀ id, id < store.nodes.size → later.shape? (some id) = store.shape? (some id)
  parent : ∀ id, id < store.nodes.size → later.parent (some id) = store.parent (some id)

/-- A new tree that is the same as another but for its names. -/
structure IsCopy (store later : Store) (tree copied : Tree) : Prop where
  holds : later.Holds copied
  bare : copied.bare = tree.bare
  nodup : copied.names.Nodup
  fresh : ∀ id ∈ copied.names, store.nodes.size ≤ id

section Grown
variable {store middle later : Store} {tree : Tree}

theorem Grown.refl (store : Store) : Grown store store :=
  ⟨Nat.le_refl _, fun _ _ => rfl, fun _ _ => rfl⟩

theorem Grown.trans (first : Grown store middle) (second : Grown middle later) :
    Grown store later := by
  refine ⟨Nat.le_trans first.size second.size, ?_, ?_⟩
  · intro id bound
    rw [second.shape id (Nat.lt_of_lt_of_le bound first.size), first.shape id bound]
  · intro id bound
    rw [second.parent id (Nat.lt_of_lt_of_le bound first.size), first.parent id bound]

theorem Grown.unfoldsTo (grown : Grown store later) (unfolds : store.UnfoldsTo tree) :
    later.UnfoldsTo tree := by
  induction unfolds with
  | nothing => exact .nothing
  | node found regular roots _ ih =>
    exact .node ((grown.shape _ (lt_size_of_shape? found)).trans found) regular roots ih

theorem Grown.holds (grown : Grown store later) (holds : store.Holds tree) : later.Holds tree :=
  holds.transfer (fun id member => grown.shape id (holds.lt_size member))
    fun id member => grown.parent id (holds.lt_size (tree.inner_subset member))

theorem grown_make {shape : Shape} (fresh : ∀ id, some id ∈ shape.slots → store.nodes.size ≤ id) :
    Grown store (store.make shape).1 := by
  refine ⟨?_, ?_, ?_⟩
  · rw [size_make]
    exact Nat.le_succ _
  · intro id bound
    rw [shape?_make, if_neg (Nat.ne_of_lt bound)]
  · intro id bound
    rw [parent_make store shape id bound, if_neg fun member => absurd (fresh id member) (Nat.not_le_of_lt bound)]

theorem IsCopy.carry {copied : Tree} (isCopy : IsCopy store middle tree copied)
    (grown : Grown middle later) : IsCopy store later tree copied :=
  ⟨grown.holds isCopy.holds, isCopy.bare, isCopy.nodup, isCopy.fresh⟩

theorem IsCopy.since {copied : Tree} {before : Store} (isCopy : IsCopy store later tree copied)
    (size : before.nodes.size ≤ store.nodes.size) : IsCopy before later tree copied :=
  ⟨isCopy.holds, isCopy.bare, isCopy.nodup,
    fun id member => Nat.le_trans size (isCopy.fresh id member)⟩

end Grown

/-! ## Copying the children -/

/-- Copies nodes one after the other and notes each with its copy, last ones first. -/
def copyChildren (depth : Nat) (ids : List NodeId) (state : Store × List (NodeId × Slot)) :
    Store × List (NodeId × Slot) :=
  ids.foldl (fun state child =>
    let (store, copy) := state.1.copyTo depth child
    (store, (child, copy) :: state.2)) state

/-- The slot of a shape once its children have been copied. -/
def renameSlot (copies : List (NodeId × Slot)) (slot : Slot) : Slot :=
  slot.bind fun child => (copies.lookup child).getD slot

/-- The copy of a node is made when those of its children are there. -/
theorem copyTo_node (store later : Store) (depth : Nat) (id : NodeId) {shape : Shape} {node : Node}
    {copies : List (NodeId × Slot)} (found : store.shape? (some id) = some shape)
    (copied : copyChildren depth shape.children (store, []) = (later, copies))
    (there : later.node? (some id) = some node) (same : node.shape = shape) :
    store.copyTo (depth + 1) id =
      (((later.push (shape.withSlots (shape.slots.map (renameSlot copies)))
          { node.flags with synthesized := true } node.start node.stop).1.setParents
        ((shape.withSlots (shape.slots.map (renameSlot copies))).children.map some)
        (some later.nodes.size)), some later.nodes.size) := by
  have listed : store.children id = shape.children := by simp [children, found]
  have folded : List.foldl (fun (state : Store × List (NodeId × Slot)) child =>
      let (store, copy) := state.1.copyTo depth child
      (store, (child, copy) :: state.2)) (store, []) shape.children = (later, copies) := copied
  rw [copyTo, listed, folded]
  simp only [there, same]
  rfl

theorem copyTo_succ (store later : Store) (depth : Nat) (id : NodeId) {shape : Shape}
    {copies : List (NodeId × Slot)} (found : store.shape? (some id) = some shape)
    (copied : copyChildren depth shape.children (store, []) = (later, copies))
    (kept : later.shape? (some id) = some shape) :
    ∃ flags start stop, store.copyTo (depth + 1) id =
      (((later.push (shape.withSlots (shape.slots.map (renameSlot copies)))
          flags start stop).1.setParents
        ((shape.withSlots (shape.slots.map (renameSlot copies))).children.map some)
        (some later.nodes.size)), some later.nodes.size) := by
  obtain ⟨node, there, same⟩ := Option.map_eq_some_iff.mp kept
  exact ⟨_, _, _, copyTo_node store later depth id found copied there same⟩

/-- What has been copied: each node with the copy of its tree, last ones first. -/
structure Copied (store later : Store) (trees : NodeId → Tree → Prop) (made : List (NodeId × Tree)) :
    Prop where
  grown : Grown store later
  copies : ∀ pair ∈ made, ∀ tree, trees pair.1 tree → IsCopy store later tree pair.2
  nodup : (Tree.namesAll (made.map Prod.snd)).Nodup
  held : ∀ pair ∈ made, later.Holds pair.2 ∧ pair.2.root.isSome ∧
    ∀ id ∈ pair.2.names, store.nodes.size ≤ id

/-- The pairs of a node with the root of its copy. -/
def roots (made : List (NodeId × Tree)) : List (NodeId × Slot) :=
  made.map fun pair => (pair.1, pair.2.root)

theorem lookup_roots (made : List (NodeId × Tree)) (id : NodeId) :
    (roots made).lookup id = (made.lookup id).map Tree.root := by
  induction made with
  | nil => rfl
  | cons pair rest ih =>
    rw [roots, List.map_cons, List.lookup_cons, List.lookup_cons]
    cases id == pair.1 with
    | true => rfl
    | false => exact ih

section Copy
variable {store later : Store} {depth : Nat} {trees : NodeId → Tree → Prop}

/-- The nodes copied one after the other are copied. -/
theorem copyChildren_copied {ids : List NodeId} {before : Store} {made : List (NodeId × Tree)}
    (each : ∀ id ∈ ids, ∃ tree, trees id tree)
    (copies : ∀ {store : Store} {id : NodeId} {tree : Tree}, Grown before store → trees id tree →
      ∃ copied, Grown store (store.copyTo depth id).1 ∧
        IsCopy store (store.copyTo depth id).1 tree copied ∧
        (store.copyTo depth id).2 = copied.root ∧ copied.root.isSome)
    (unique : ∀ {id tree other}, trees id tree → trees id other → tree = other)
    (done : Copied before store trees made) :
    ∃ added, (∀ id ∈ ids, ∃ copied, (id, copied) ∈ added) ∧
      (copyChildren depth ids (store, roots made)).2 = roots (added ++ made) ∧
      (∀ pair ∈ added, pair.1 ∈ ids) ∧
      Copied before (copyChildren depth ids (store, roots made)).1 trees (added ++ made) := by
  induction ids generalizing store made with
  | nil => exact ⟨[], by simp, rfl, by simp, done⟩
  | cons id rest ih =>
    obtain ⟨tree, there⟩ := each id List.mem_cons_self
    obtain ⟨copied, grown, isCopy, root, present⟩ := copies done.grown there
    have more : Copied before (store.copyTo depth id).1 trees ((id, copied) :: made) := by
      refine ⟨done.grown.trans grown, ?_, ?_, ?_⟩
      · intro pair member other other_
        rcases List.mem_cons.mp member with rfl | old
        · rw [unique other_ there]
          exact isCopy.since done.grown.size
        · exact (done.copies pair old other other_).carry grown
      · rw [List.map_cons, Tree.namesAll, List.nodup_append']
        refine ⟨isCopy.nodup, done.nodup, fun name here there => ?_⟩
        obtain ⟨other, member, inside⟩ := Tree.mem_namesAll.mp there
        obtain ⟨pair, old, rfl⟩ := List.mem_map.mp member
        exact absurd ((done.held pair old).1.lt_size inside) (Nat.not_lt_of_le (isCopy.fresh name here))
      · intro pair member
        rcases List.mem_cons.mp member with rfl | old
        · exact ⟨isCopy.holds, present,
            fun name inside => Nat.le_trans done.grown.size (isCopy.fresh name inside)⟩
        · obtain ⟨holds, present, fresh⟩ := done.held pair old
          exact ⟨grown.holds holds, present, fresh⟩
    obtain ⟨added, all, same, within, copied_⟩ :=
      ih (fun id member => each id (List.mem_cons_of_mem _ member)) more
    have step : copyChildren depth (id :: rest) (store, roots made) =
        copyChildren depth rest ((store.copyTo depth id).1, roots ((id, copied) :: made)) := by
      have first : roots ((id, copied) :: made) = (id, (store.copyTo depth id).2) :: roots made := by
        rw [root]
        rfl
      rw [first]
      rfl
    refine ⟨added ++ [(id, copied)], ?_, ?_, ?_, ?_⟩
    · intro name member
      rcases List.mem_cons.mp member with rfl | later
      · exact ⟨copied, List.mem_append_right _ List.mem_cons_self⟩
      · obtain ⟨other, inside⟩ := all name later
        exact ⟨other, List.mem_append_left _ inside⟩
    · rw [step, same, List.append_assoc]
      rfl
    · intro pair member
      rcases List.mem_append.mp member with old | new
      · exact List.mem_cons_of_mem _ (within pair old)
      · rw [List.mem_singleton.mp new]
        exact List.mem_cons_self
    · rw [step, List.append_assoc]
      exact copied_

theorem exists_lookup {made : List (NodeId × Tree)} {id : NodeId} {copied : Tree}
    (member : (id, copied) ∈ made) : ∃ found, made.lookup id = some found ∧ (id, found) ∈ made := by
  induction made with
  | nil => cases member
  | cons pair rest ih =>
    rw [List.lookup_cons]
    cases same : id == pair.1 with
    | true =>
      refine ⟨pair.2, rfl, ?_⟩
      rw [eq_of_beq same]
      exact List.mem_cons_self
    | false =>
      rcases List.mem_cons.mp member with here | later
      · rw [← here] at same
        exact absurd rfl (ne_of_beq_false same)
      · obtain ⟨found, looked, there⟩ := ih later
        exact ⟨found, looked, List.mem_cons_of_mem _ there⟩

/-- The tree that stands for the copy of a tree. -/
def copyIn (made : List (NodeId × Tree)) (tree : Tree) : Tree :=
  (tree.root.bind fun id => made.lookup id).getD .nothing

section Renamed
variable {shape : Shape} {copies : List (NodeId × Slot)}

theorem filterMap_renameSlot (copies : List (NodeId × Slot)) (slots : List Slot) :
    (slots.map (renameSlot copies)).filterMap id =
      (slots.filterMap id).filterMap fun child => renameSlot copies (some child) := by
  induction slots with
  | nil => rfl
  | cons slot rest ih =>
    cases slot with
    | none => exact ih
    | some child =>
      rw [List.map_cons, List.filterMap_cons_some (f := id) rfl, List.filterMap_cons,
        List.filterMap_cons, ih]
      rfl

theorem children_renamed (shape : Shape) (copies : List (NodeId × Slot)) :
    (shape.withSlots (shape.slots.map (renameSlot copies))).children =
      shape.children.filterMap fun child => renameSlot copies (some child) := by
  rw [Shape.children, Shape.visible_withSlots, filterMap_renameSlot]
  rfl

theorem isRegular_renamed (regular : shape.IsRegular) :
    (shape.withSlots (shape.slots.map (renameSlot copies))).IsRegular := by
  rw [Shape.IsRegular, children_renamed, Shape.slots_withSlots _ _ (List.length_map _),
    filterMap_renameSlot]
  exact List.Perm.filterMap _ regular

end Renamed

/-- What is copied for the trees below a node. -/
theorem copyIn_copy {made : List (NodeId × Tree)} {below : List Tree} {tree : Tree}
    (copied : Copied store later (fun child tree => tree ∈ below ∧ tree.root = some child) made)
    (all : ∀ tree ∈ below, ∀ child, tree.root = some child → ∃ copied, (child, copied) ∈ made)
    (member : tree ∈ below) :
    renameSlot (roots made) tree.root = (copyIn made tree).root ∧
      IsCopy store later tree (copyIn made tree) ∧
      ∀ child, tree.root = some child → (child, copyIn made tree) ∈ made := by
  cases rooted : tree.root with
  | none =>
    cases tree with
    | nothing =>
      exact ⟨rfl, ⟨.nothing, rfl, .nil, fun _ inside => nomatch inside⟩, fun _ impossible => nomatch impossible⟩
    | node => cases rooted
  | some child =>
    obtain ⟨other, inside⟩ := all tree member child rooted
    obtain ⟨found, looked, there⟩ := exists_lookup inside
    have same : copyIn made tree = found := by
      rw [copyIn, rooted, Option.bind_some, looked, Option.getD_some]
    rw [same]
    refine ⟨?_, copied.copies _ there tree ⟨member, rooted⟩, ?_⟩
    · rw [renameSlot, Option.bind_some, lookup_roots, looked, Option.map_some, Option.getD_some]
    · intro _ equal
      cases equal
      exact there

/-- The copies of different trees have no node in common. -/
theorem nodup_copies {made : List (NodeId × Tree)} {below : List Tree}
    (copied : Copied store later (fun child tree => tree ∈ below ∧ tree.root = some child) made)
    (all : ∀ tree ∈ below, ∀ child, tree.root = some child → ∃ copied, (child, copied) ∈ made)
    (nodup : (Tree.namesAll below).Nodup) :
    (Tree.namesAll (below.map (copyIn made))).Nodup := by
  have symm : Std.Symm fun first second : NodeId × Tree => first.2.names.Disjoint second.2.names :=
    ⟨fun _ _ apart => apart.symm⟩
  have apart : made.Pairwise fun first second => first.2.names.Disjoint second.2.names := by
    have listed := (Tree.nodup_namesAll_iff.mp copied.nodup).2
    rwa [List.pairwise_map] at listed
  rw [Tree.nodup_namesAll_iff]
  refine ⟨?_, List.pairwise_map.mpr ?_⟩
  · intro tree member
    obtain ⟨origin, there, rfl⟩ := List.mem_map.mp member
    exact (copyIn_copy copied all there).2.1.nodup
  · refine (Tree.nodup_namesAll_iff.mp nodup).2.imp_of_mem fun {first second} here there disjoint => ?_
    obtain ⟨_, _, firstMade⟩ := copyIn_copy copied all here
    obtain ⟨_, _, secondMade⟩ := copyIn_copy copied all there
    cases rootFirst : first.root with
    | none => simp [copyIn, rootFirst, Tree.names]
    | some left =>
      cases rootSecond : second.root with
      | none => simp [copyIn, rootSecond, Tree.names]
      | some right =>
        have other : left ≠ right := by
          rintro rfl
          exact disjoint (Tree.mem_names_root rootFirst) (Tree.mem_names_root rootSecond)
        exact apart.forall (firstMade left rootFirst) (secondMade right rootSecond)
          fun equal => other (congrArg Prod.fst equal)

/-- A node over the copies of the trees below another is a copy of the whole. -/
theorem copyNode_copies {made : List (NodeId × Tree)} {below : List Tree} {id : NodeId}
    {shape : Shape} (whole : store.UnfoldsTo (.node id shape below))
    (copied : Copied store later (fun child tree => tree ∈ below ∧ tree.root = some child) made)
    (all : ∀ tree ∈ below, ∀ child, tree.root = some child → ∃ copied, (child, copied) ∈ made)
    (nodup : (Tree.namesAll below).Nodup) (flags : Flags) (start stop : Nat) :
    let renamed := shape.withSlots (shape.slots.map (renameSlot (roots made)))
    let final := (later.push renamed flags start stop).1.setParents
      (renamed.children.map some) (some later.nodes.size)
    Grown store final ∧
      IsCopy store final (.node id shape below)
        (.node later.nodes.size renamed (below.map (copyIn made))) ∧
      some later.nodes.size =
        (Tree.node later.nodes.size renamed (below.map (copyIn made))).root ∧
      (Tree.node later.nodes.size renamed (below.map (copyIn made))).root.isSome := by
  intro renamed final
  have slots : renamed.slots = (below.map (copyIn made)).map Tree.root := by
    cases whole with
    | node _ _ origin _ =>
      rw [Shape.slots_withSlots _ _ (List.length_map _), origin, List.map_map, List.map_map]
      exact List.map_congr_left fun tree member => (copyIn_copy copied all member).1
  have regular : renamed.IsRegular := by
    cases whole with
    | node _ regular _ _ => exact isRegular_renamed regular
  have child_iff : ∀ child, some child ∈ renamed.children.map some ↔
      ∃ tree ∈ below, (copyIn made tree).root = some child := by
    intro child
    have listed : child ∈ renamed.children ↔ some child ∈ renamed.slots := by
      rw [regular.mem_iff, List.mem_filterMap]
      exact ⟨fun ⟨_, there, same⟩ => same ▸ there, fun there => ⟨_, there, rfl⟩⟩
    rw [List.mem_map_of_injective (Option.some_injective _), listed, slots, List.map_map,
      List.mem_map]
    rfl
  have isCopy : ∀ tree ∈ below, IsCopy store later tree (copyIn made tree) :=
    fun tree member => (copyIn_copy copied all member).2.1
  have size : final.nodes.size = later.nodes.size + 1 := by
    rw [size_setParents, push_size]
  have shapes : ∀ id, id < later.nodes.size → final.shape? (some id) = later.shape? (some id) := by
    intro id bound
    rw [shape?_setParents, shape?_push, if_neg (Nat.ne_of_lt bound)]
  have parents : ∀ id, id < later.nodes.size → final.parent (some id) =
      if some id ∈ renamed.children.map some then some later.nodes.size
      else later.parent (some id) := by
    intro id bound
    rw [parent_setParents, push_size, parent_push, if_neg (Nat.ne_of_lt bound)]
    simp only [Nat.lt_succ_of_lt bound, and_true]
  have grown : Grown store final := by
    refine ⟨?_, ?_, ?_⟩
    · rw [size]
      exact Nat.le_succ_of_le copied.grown.size
    · intro id bound
      rw [shapes id (Nat.lt_of_lt_of_le bound copied.grown.size), copied.grown.shape id bound]
    · intro id bound
      rw [parents id (Nat.lt_of_lt_of_le bound copied.grown.size), if_neg ?_,
        copied.grown.parent id bound]
      intro member
      obtain ⟨tree, there, rooted⟩ := (child_iff id).mp member
      exact absurd bound (Nat.not_lt_of_le ((isCopy tree there).fresh id
        (Tree.mem_names_root rooted)))
  have copies : ∀ tree ∈ below, final.Holds (copyIn made tree) := by
    intro tree member
    have held := (isCopy tree member).holds
    refine held.transfer (fun id inside => shapes id (held.lt_size inside)) fun id inside => ?_
    rw [parents id (held.lt_size (Tree.inner_subset _ inside)), if_neg ?_]
    intro linked
    obtain ⟨other, there, rooted⟩ := (child_iff id).mp linked
    by_cases same : copyIn made other = copyIn made tree
    · rw [same] at rooted
      exact Tree.root_not_mem_inner (isCopy tree member).nodup rooted inside
    · have symm : Std.Symm fun first second : Tree => first.names.Disjoint second.names :=
        ⟨fun _ _ apart => apart.symm⟩
      exact (Tree.nodup_namesAll_iff.mp (nodup_copies copied all nodup)).2.forall
        (List.mem_map_of_mem there) (List.mem_map_of_mem member) same
        (Tree.mem_names_root rooted) (Tree.inner_subset _ inside)
  refine ⟨grown, ⟨.node ?_ regular slots ?_ ?_, ?_, ?_, ?_⟩, rfl, rfl⟩
  · rw [shape?_setParents, shape?_push, if_pos rfl]
  · intro child member present
    obtain ⟨id, rooted⟩ := Option.isSome_iff_exists.mp present
    obtain ⟨tree, there, rfl⟩ := List.mem_map.mp member
    rw [rooted, parents id ((isCopy tree there).holds.lt_size (Tree.mem_names_root rooted)),
      if_pos ((child_iff id).mpr ⟨tree, there, rooted⟩)]
  · intro child member
    obtain ⟨tree, there, rfl⟩ := List.mem_map.mp member
    exact copies tree there
  · rw [Tree.bare, Tree.bare, Shape.withSlots_withSlots, Tree.bareAll_eq, Tree.bareAll_eq,
      List.map_map]
    congr 1
    exact List.map_congr_left fun tree member => (isCopy tree member).bare
  · refine List.nodup_cons.mpr ⟨fun inside => ?_, nodup_copies copied all nodup⟩
    obtain ⟨child, member, there⟩ := Tree.mem_namesAll.mp inside
    obtain ⟨tree, origin, rfl⟩ := List.mem_map.mp member
    exact absurd ((isCopy tree origin).holds.lt_size there) (Nat.lt_irrefl _)
  · intro id inside
    rcases List.mem_cons.mp inside with rfl | deeper
    · exact copied.grown.size
    · obtain ⟨child, member, there⟩ := Tree.mem_namesAll.mp deeper
      obtain ⟨tree, origin, rfl⟩ := List.mem_map.mp member
      exact (isCopy tree origin).fresh id there

/-- A tree can be copied if its nodes are distinct and it is no higher than the bound. -/
theorem copyTo_copies {tree : Tree} {id : NodeId} (unfolds : store.UnfoldsTo tree)
    (root : tree.root = some id) (nodup : tree.names.Nodup) (deep : tree.height ≤ depth) :
    ∃ copied, Grown store (store.copyTo depth id).1 ∧
      IsCopy store (store.copyTo depth id).1 tree copied ∧
      (store.copyTo depth id).2 = copied.root ∧ copied.root.isSome := by
  induction depth generalizing store tree id with
  | zero =>
    cases tree with
    | nothing => cases root
    | node => exact absurd deep (Nat.not_succ_le_zero _)
  | succ depth ih =>
    cases unfolds with
    | nothing => cases root
    | @node name shape below found regular slots inner =>
      cases root
      have whole := UnfoldsTo.node found regular slots inner
      have children : shape.children.Perm (below.filterMap Tree.root) := by
        have listed := whole.children_eq
        rwa [show store.children id = shape.children by simp [Store.children, found]] at listed
      have child_iff : ∀ child, child ∈ shape.children ↔ ∃ tree ∈ below, tree.root = some child :=
        fun child => children.mem_iff.trans List.mem_filterMap
      obtain ⟨below_nodup, bound⟩ : (Tree.namesAll below).Nodup ∧ ∀ tree ∈ below, tree.height ≤ depth :=
        ⟨(List.nodup_cons.mp nodup).2, fun tree member => Nat.lt_succ_iff.mp
          (Nat.lt_of_lt_of_le (@Tree.height_lt_node _ id shape _ member) deep)⟩
      obtain ⟨made, all, same, -, copied⟩ := @copyChildren_copied store depth
        (fun child tree => tree ∈ below ∧ tree.root = some child) shape.children store []
        (fun child member => (child_iff child).mp member)
        (fun grown there => ih (grown.unfoldsTo (inner _ there.1)) there.2
          (Tree.nodup_of_mem_namesAll below_nodup there.1) (bound _ there.1))
        (fun here there => (inner _ here.1).unique (inner _ there.1) (here.2.trans there.2.symm))
        ⟨.refl store, by simp, .nil, by simp⟩
      have nothing : roots [] = [] := rfl
      rw [List.append_nil, nothing] at same copied
      have everyCopy : ∀ tree ∈ below, ∀ child, tree.root = some child →
          ∃ copied, (child, copied) ∈ made :=
        fun tree member child rooted => all child ((child_iff child).mpr ⟨tree, member, rooted⟩)
      generalize folded : copyChildren depth shape.children (store, []) = state at same copied
      obtain ⟨later, copies⟩ := state
      change copies = roots made at same
      subst same
      have kept : later.shape? (some id) = some shape := by
        rw [copied.grown.shape id (lt_size_of_shape? found), found]
      obtain ⟨flags, start, stop, result⟩ := copyTo_succ store later depth id found folded kept
      rw [result]
      exact ⟨_, copyNode_copies whole copied everyCopy below_nodup flags start stop⟩

/-- A tree of distinct nodes can be copied, wherever the links of its nodes lead. -/
theorem copy_unfolded {tree : Tree} {slot : Slot} (unfolds : store.UnfoldsTo tree)
    (root : tree.root = slot) (nodup : tree.names.Nodup) :
    ∃ copied, Grown store (store.copy slot).1 ∧ IsCopy store (store.copy slot).1 tree copied ∧
      (store.copy slot).2 = copied.root := by
  cases slot with
  | none =>
    cases tree with
    | nothing =>
      exact ⟨.nothing, .refl store, ⟨.nothing, rfl, .nil, fun _ inside => nomatch inside⟩, rfl⟩
    | node => cases root
  | some id =>
    obtain ⟨copied, grown, isCopy, same, _⟩ :=
      copyTo_copies unfolds root nodup (Nat.le_succ_of_le (unfolds.height_le nodup))
    exact ⟨copied, grown, isCopy, same⟩

/-- A tree of distinct nodes can be copied. -/
theorem copy_copies {tree : Tree} {slot : Slot} (holds : store.Holds tree) (root : tree.root = slot)
    (nodup : tree.names.Nodup) :
    ∃ copied, Grown store (store.copy slot).1 ∧ IsCopy store (store.copy slot).1 tree copied ∧
      (store.copy slot).2 = copied.root := copy_unfolded holds.unfoldsTo root nodup

/-- Copies trees one after the other, behind slots that are there already. -/
def copyOnto (slots : List Slot) (state : Store × List Slot) : Store × List Slot :=
  slots.foldl (fun state slot =>
    let (store, copy) := state.1.copy slot
    (store, state.2 ++ [copy])) state

theorem copyOnto_copies {origins : List Tree} {slots : List Slot}
    (holds : ∀ tree ∈ origins, store.Holds tree) (nodup : ∀ tree ∈ origins, tree.names.Nodup) :
    ∃ copies, Grown store (copyOnto (origins.map Tree.root) (store, slots)).1 ∧
      (copyOnto (origins.map Tree.root) (store, slots)).2 = slots ++ copies.map Tree.root ∧
      List.Forall₂ (IsCopy store (copyOnto (origins.map Tree.root) (store, slots)).1)
        origins copies ∧
      (Tree.namesAll copies).Nodup := by
  induction origins generalizing store slots with
  | nil => exact ⟨[], .refl store, (List.append_nil slots).symm, .nil, .nil⟩
  | cons tree rest ih =>
    obtain ⟨copied, grown, isCopy, same⟩ := copy_copies (holds tree List.mem_cons_self) rfl
      (nodup tree List.mem_cons_self)
    obtain ⟨copies, more, listed, each, distinct⟩ := @ih (store.copy tree.root).1
      (slots ++ [(store.copy tree.root).2])
      (fun other member => grown.holds (holds other (List.mem_cons_of_mem _ member)))
      (fun other member => nodup other (List.mem_cons_of_mem _ member))
    have first : copyOnto ((tree :: rest).map Tree.root) (store, slots) =
        copyOnto (rest.map Tree.root) ((store.copy tree.root).1,
          slots ++ [(store.copy tree.root).2]) := rfl
    refine ⟨copied :: copies, ?_, ?_, ?_, ?_⟩
    · rw [first]
      exact grown.trans more
    · rw [first, listed, same, List.append_assoc]
      rfl
    · rw [first]
      exact .cons (isCopy.carry more) (each.imp fun _ _ copy => copy.since grown.size)
    · rw [Tree.namesAll, List.nodup_append']
      refine ⟨isCopy.nodup, distinct, fun id here there => ?_⟩
      obtain ⟨other, member, inside⟩ := Tree.mem_namesAll.mp there
      obtain ⟨_, _, made⟩ := exists_of_mem_forall₂ each member
      exact absurd (isCopy.holds.lt_size here) (Nat.not_lt_of_le (made.fresh id inside))

/-- Trees of distinct nodes can be copied one after the other. -/
theorem copyAll_copies {origins : List Tree} (holds : ∀ tree ∈ origins, store.Holds tree)
    (nodup : ∀ tree ∈ origins, tree.names.Nodup) :
    ∃ copies, Grown store (store.copyAll (origins.map Tree.root)).1 ∧
      (store.copyAll (origins.map Tree.root)).2 = copies.map Tree.root ∧
      List.Forall₂ (IsCopy store (store.copyAll (origins.map Tree.root)).1) origins copies ∧
      (Tree.namesAll copies).Nodup :=
  copyOnto_copies holds nodup

end Copy

end Store

end Unflatten
