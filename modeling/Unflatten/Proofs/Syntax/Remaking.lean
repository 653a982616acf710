import Unflatten.Proofs.Syntax.Rebuilding

/-! # Remaking a tree

An edit gives one node of a tree other children, made of what stood below the node and of new
nodes.  The tree around the node stays.  `Remakes` is what all edits of a tree have in common;
what an edit takes out of the tree and puts nowhere stands beside it. -/

set_option autoImplicit false

namespace Unflatten

namespace Tree

/-- A part of a tree has given way to another.  The nodes above are the same but for their slots. -/
inductive Placed (part new : Tree) : Tree → Tree → Prop
  | here : Placed part new part new
  | deeper {id : NodeId} {shape changed : Shape} {front back : List Tree} {whole result : Tree}
      (placed : Placed part new whole result) (same : changed.withSlots [] = shape.withSlots []) :
      Placed part new (.node id shape (front ++ whole :: back))
        (.node id changed (front ++ result :: back))

section Placed
variable {part new inner other whole result : Tree} {id : NodeId}

theorem Placed.trans (first : Placed part new inner other) (second : Placed inner other whole result) :
    Placed part new whole result := by
  induction second with
  | here => exact first
  | deeper _ same ih => exact ih.deeper same

theorem Placed.within (placed : Placed part new whole result) : Within part whole := by
  induction placed with
  | here => exact .whole
  | deeper _ _ ih => exact .deeper (List.mem_append_right _ List.mem_cons_self) ih

theorem Placed.names_subset (placed : Placed part new whole result) : new.names ⊆ result.names := by
  induction placed with
  | here => exact List.Subset.refl _
  | deeper _ _ ih =>
    exact fun id there => List.mem_cons_of_mem _ (mem_namesAll_middle.mpr (.inr (.inl (ih there))))

theorem Placed.mem_or (placed : Placed part new whole result) (there : id ∈ whole.names) :
    id ∈ part.names ∨ id ∈ result.names := by
  induction placed with
  | here => exact .inl there
  | deeper _ _ ih =>
    rcases List.mem_cons.mp there with rfl | deep
    · exact .inr List.mem_cons_self
    · rcases mem_namesAll_middle.mp deep with before | here | behind
      · exact .inr (List.mem_cons_of_mem _ (mem_namesAll_middle.mpr (.inl before)))
      · exact (ih here).imp_right fun still =>
          List.mem_cons_of_mem _ (mem_namesAll_middle.mpr (.inr (.inl still)))
      · exact .inr (List.mem_cons_of_mem _ (mem_namesAll_middle.mpr (.inr (.inr behind))))

end Placed

end Tree

namespace Store

namespace Rebuilds

section Reshaping
variable {store middle later : Store} {trees built parts rest others below : List Tree}
  {id : NodeId} {shape changed : Shape} {removed new : List Slot}

theorem permBefore (rebuilds : Rebuilds store later trees built) (perm : trees.Perm parts) :
    Rebuilds store later parts built := by
  have same : ∀ id, id ∈ Tree.namesAll parts ↔ id ∈ Tree.namesAll trees :=
    fun id => (Tree.namesAll_perm perm).symm.mem_iff
  have origin : ∀ {id}, id ∈ Tree.namesAll trees ∨ store.nodes.size ≤ id ↔
      id ∈ Tree.namesAll parts ∨ store.nodes.size ≤ id := or_congr (same _).symm Iff.rfl
  refine ⟨rebuilds.before.perm perm, rebuilds.all, rebuilds.touches.mono fun id => (same id).mpr,
    fun id inside => origin.mp (rebuilds.names id inside), rebuilds.links, rebuilds.tidy,
    rebuilds.kinds, fun id inside shape found child listed => ?_,
    fun id parent old linked => (rebuilds.adopters id parent old linked).imp_right origin.mp,
    rebuilds.framed, fun loop inside => rebuilds.spent loop ((same loop).mp inside),
    fun links list inside => rebuilds.emptied links list (origin.mpr inside)⟩
  exact (rebuilds.listed id (origin.mpr inside) shape found child listed).imp_right origin.mp

end Reshaping

end Rebuilds

theorem Reshapes.refl {store : Store} {id : NodeId} {shape : Shape}
    (found : store.shape? (some id) = some shape) : Reshapes store store id shape [] [] := by
  refine ⟨lt_size_of_shape? found, rfl, fun other => ?_, fun child _ => ?_⟩
  · by_cases same : other = id
    · rw [if_pos same, same, found]
    · rw [if_neg same]
  · rw [if_neg List.not_mem_nil, if_neg fun both => List.not_mem_nil both.1]

namespace Rebuilds

section Reshaping
variable {store middle later : Store} {parts rest others below : List Tree}
  {id : NodeId} {shape changed : Shape} {removed new : List Slot}

/-- What makes the parts the children of a node that had others. -/
structure Closes (middle : Store) (id : NodeId) (shape changed : Shape) (parts : List Tree)
    (removed new : List Slot) : Prop where
  kind : changed.kind = shape.kind
  slots : changed.slots = parts.map Tree.root
  regular : changed.IsRegular
  adopted : ∀ part ∈ parts, ∀ child, part.root = some child →
    some child ∈ new ∨ middle.parent (some child) = some id ∧ some child ∉ removed
  come : ∀ slot ∈ new, slot ∈ changed.slots
  gone : ∀ slot ∈ removed, slot ∈ shape.slots
  kept : ∀ slot ∈ shape.slots, slot ∈ changed.slots ∨ slot ∈ removed
  answers : middle.IsTidy → middle.Admits changed

theorem holds_of_reshapes (reshapes : Reshapes middle later id changed removed new)
    (all : middle.HoldsAll (parts ++ others)) (outside : id ∉ Tree.namesAll (parts ++ others))
    (closes : Closes middle id shape changed parts removed new) :
    later.HoldsAll (.node id changed parts :: others) := by
  have inner : ∀ tree ∈ parts ++ others, later.Holds tree := by
    intro tree member
    have holds := all.holds tree member
    have apart : ∀ name ∈ tree.names, name ≠ id := by
      rintro name inside rfl
      exact outside (Tree.mem_namesAll.mpr ⟨tree, member, inside⟩)
    refine holds.transfer (fun name inside => ?_) fun name inside => ?_
    · rw [reshapes.shapes, if_neg (apart name inside)]
    · have within := tree.inner_subset inside
      have notRoot := Tree.not_mem_roots_of_inner all.nodup member inside
      rw [reshapes.parents name (holds.lt_size within), if_neg fun come => notRoot ?_, if_neg ?_]
      · -- the parent of what lies deeper in a tree belongs to the tree
        rintro ⟨-, linked⟩
        obtain ⟨parent, there, same⟩ := holds.parent_mem inside
        rw [linked] at same
        cases same
        exact apart _ there rfl
      · rw [List.map_append]
        exact List.mem_append_left _ (closes.slots ▸ closes.come _ come)
  refine ⟨fun tree member => ?_, ?_⟩
  · rcases List.mem_cons.mp member with rfl | there
    · refine .node (by rw [reshapes.shapes, if_pos rfl]) closes.regular closes.slots ?_
        fun tree member => inner tree (List.mem_append_left _ member)
      intro part member present
      obtain ⟨child, rooted⟩ := Option.isSome_iff_exists.mp present
      have holds := all.holds part (List.mem_append_left _ member)
      rw [rooted, reshapes.parents child (holds.lt_size (Tree.mem_names_root rooted))]
      rcases closes.adopted part member child rooted with come | ⟨linked, stays⟩
      · rw [if_pos come]
      · by_cases come : some child ∈ new
        · rw [if_pos come]
        · rw [if_neg come, if_neg fun both => stays both.1, linked]
    · exact inner tree (List.mem_append_right _ there)
  · rw [Tree.namesAll, Tree.names, List.cons_append, ← Tree.namesAll_append]
    exact List.nodup_cons.mpr ⟨outside, all.nodup⟩

theorem namesAll_node_cons (id : NodeId) (shape : Shape) (parts others : List Tree) :
    Tree.namesAll (.node id shape parts :: others) = id :: Tree.namesAll (parts ++ others) := by
  rw [Tree.namesAll, Tree.names, List.cons_append, ← Tree.namesAll_append]

/-- What comes of the children comes of the node. -/
theorem origin_node {name : NodeId}
    (origin : name ∈ Tree.namesAll (below ++ rest) ∨ store.nodes.size ≤ name) :
    name ∈ Tree.namesAll (.node id shape below :: rest) ∨ store.nodes.size ≤ name := by
  rw [namesAll_node_cons]
  exact origin.imp_left (List.mem_cons_of_mem _)

theorem origin_below {name : NodeId} (other : name ≠ id)
    (origin : name ∈ Tree.namesAll (.node id shape below :: rest) ∨ store.nodes.size ≤ name) :
    name ∈ Tree.namesAll (below ++ rest) ∨ store.nodes.size ≤ name := by
  rw [namesAll_node_cons] at origin
  exact origin.imp_left fun inside => (List.mem_cons.mp inside).resolve_left other

/-- A node is given children that have been rebuilt. -/
structure Regrows (store middle later : Store) (id : NodeId) (shape changed : Shape)
    (below parts rest others : List Tree) (removed new : List Slot) : Prop where
  all : store.HoldsAll (.node id shape below :: rest)
  work : Rebuilds store middle (below ++ rest) (parts ++ others)
  reshapes : Reshapes middle later id changed removed new
  closes : Closes middle id shape changed parts removed new

namespace Regrows
variable {name : NodeId} {slot : Slot}
  (regrows : Regrows store middle later id shape changed below parts rest others removed new)
include regrows

theorem apart : id ∉ Tree.namesAll (below ++ rest) :=
  regrows.all.below.2

theorem bound : id < store.nodes.size :=
  regrows.all.lt_size (by rw [namesAll_node_cons]; exact List.mem_cons_self)

theorem distinct (origin : name ∈ Tree.namesAll (below ++ rest) ∨ store.nodes.size ≤ name) :
    name ≠ id := by
  rintro rfl
  rcases origin with inside | beyond
  · exact regrows.apart inside
  · exact absurd regrows.bound (Nat.not_lt_of_le beyond)

theorem outside : id ∉ Tree.namesAll (parts ++ others) := fun inside =>
  regrows.distinct (regrows.work.names id inside) rfl

theorem shape_before : store.shape? (some id) = some shape ∧ shape.slots = below.map Tree.root := by
  cases regrows.all.holds _ List.mem_cons_self with
  | node found _ roots => exact ⟨found, roots⟩

theorem found : middle.shape? (some id) = some shape := by
  rw [regrows.work.touches.shape id regrows.bound regrows.apart, regrows.shape_before.1]

theorem mem_below (listed : slot ∈ shape.slots) (same : slot = some name) :
    name ∈ Tree.namesAll (below ++ rest) := by
  rw [regrows.shape_before.2, same] at listed
  rw [Tree.namesAll_append]
  exact List.mem_append_left _ (Tree.mem_namesAll_of_root listed)

theorem mem_parts (listed : slot ∈ changed.slots) (same : slot = some name) :
    name ∈ Tree.namesAll (parts ++ others) := by
  rw [regrows.closes.slots, same] at listed
  rw [Tree.namesAll_append]
  exact List.mem_append_left _ (Tree.mem_namesAll_of_root listed)

theorem keepsKinds : middle.KeepsKinds later :=
  regrows.reshapes.keepsKinds regrows.found regrows.closes.kind

theorem link : later.parent (some id) = store.parent (some id) := by
  rw [regrows.reshapes.parents id regrows.reshapes.bound,
    if_neg fun come => regrows.outside (regrows.mem_parts (regrows.closes.come _ come) rfl),
    if_neg fun both => regrows.apart (regrows.mem_below (regrows.closes.gone _ both.1) rfl),
    regrows.work.touches.parent id regrows.bound regrows.apart]

/-- The links that are there later and were not before lead to the node. -/
theorem earlier {parent : NodeId} (old : name < store.nodes.size)
    (linked : later.parent (some name) = some parent) (other : parent ≠ id) :
    middle.parent (some name) = some parent := by
  rw [regrows.reshapes.parents name (Nat.lt_of_lt_of_le old regrows.work.touches.size)] at linked
  split at linked
  · cases linked
    exact absurd rfl other
  · split at linked
    · cases linked
    · exact linked

theorem touches : Touches store later (Tree.namesAll (.node id shape below :: rest)) := by
  have last : Touches middle later (id :: (removed ++ new).filterMap (fun slot => slot)) := by
    refine ⟨Nat.le_of_eq regrows.reshapes.size.symm, fun name _ outside => ?_,
      fun name old outside => ?_⟩
    · have other : name ≠ id := fun same => outside (same ▸ List.mem_cons_self)
      rw [regrows.reshapes.shapes, if_neg other]
    · have absent : some name ∉ removed ++ new := fun member =>
        outside (List.mem_cons_of_mem _ (List.mem_filterMap.mpr ⟨some name, member, rfl⟩))
      rw [List.mem_append, not_or] at absent
      rw [regrows.reshapes.parents name old, if_neg absent.2, if_neg fun both => absent.1 both.1]
  rw [namesAll_node_cons]
  refine (regrows.work.touches.mono (List.subset_cons_self _ _)).trans last fun name changedHere => ?_
  rcases List.mem_cons.mp changedHere with rfl | child
  · exact .inl List.mem_cons_self
  · obtain ⟨slot, member, rfl⟩ := List.mem_filterMap.mp child
    rcases List.mem_append.mp member with left | came
    · exact .inl (List.mem_cons_of_mem _ (regrows.mem_below (regrows.closes.gone _ left) rfl))
    · exact (regrows.work.names name (regrows.mem_parts (regrows.closes.come _ came) rfl)).imp_left
        (List.mem_cons_of_mem _)

theorem names (inside : name ∈ Tree.namesAll (.node id changed parts :: others)) :
    name ∈ Tree.namesAll (.node id shape below :: rest) ∨ store.nodes.size ≤ name := by
  rw [namesAll_node_cons] at inside ⊢
  rcases List.mem_cons.mp inside with rfl | there
  · exact .inl List.mem_cons_self
  · exact (regrows.work.names name there).imp_left (List.mem_cons_of_mem _)

theorem listed {child : NodeId} {found : Shape}
    (origin : name ∈ Tree.namesAll (.node id shape below :: rest) ∨ store.nodes.size ≤ name)
    (shaped : later.shape? (some name) = some found) (listed : some child ∈ found.slots) :
    child < later.nodes.size ∧
      (child ∈ Tree.namesAll (.node id shape below :: rest) ∨ store.nodes.size ≤ child) := by
  rw [regrows.reshapes.size]
  by_cases same : name = id
  · rw [regrows.reshapes.shapes, if_pos same] at shaped
    cases shaped
    have there := regrows.mem_parts listed rfl
    exact ⟨regrows.work.all.lt_size there, origin_node (regrows.work.names child there)⟩
  · rw [regrows.reshapes.shapes, if_neg same] at shaped
    exact (regrows.work.listed name (origin_below same origin) found shaped child listed).imp_right
      origin_node

/-- The bodies of other loops are not the node itself. -/
theorem framed_other {prelude : NodeId} (other : name ≠ id)
    (inside : name ∈ Tree.namesAll (parts ++ others)) (old : name < store.nodes.size)
    (framed : store.IsFramed name prelude) : later.IsFramed name prelude := by
  refine (regrows.work.framed name inside old prelude framed).carry regrows.keepsKinds
    fun body hasBody => ?_
  have apart := regrows.distinct
    (regrows.work.bodies (regrows.work.mem_of_lt inside old) hasBody (.inl rfl))
  obtain ⟨kind, initializer, condition, incrementor, shaped⟩ := hasBody
  refine ⟨⟨kind, initializer, condition, incrementor, ?_⟩, ?_⟩
  · rw [regrows.reshapes.shapes, if_neg other, shaped]
  · rw [regrows.reshapes.shapes, if_neg apart]

theorem spent (inside : name ∈ Tree.namesAll (.node id shape below :: rest))
    (gone : name ∉ Tree.namesAll (.node id changed parts :: others)) :
    later.IsSpent (Tree.namesAll (.node id changed parts :: others)) name := by
  intro body hasBody
  rw [namesAll_node_cons] at inside gone ⊢
  rw [List.mem_cons, not_or] at gone
  have there := (List.mem_cons.mp inside).resolve_left gone.1
  have hadBody : middle.HasBody name body := by
    obtain ⟨kind, initializer, condition, incrementor, shaped⟩ := hasBody
    rw [regrows.reshapes.shapes, if_neg gone.1] at shaped
    exact ⟨kind, initializer, condition, incrementor, shaped⟩
  have other := regrows.distinct (regrows.work.bodies there hadBody (.inl rfl))
  have statements : later.statementsOf (some body) = middle.statementsOf (some body) := by
    rw [statementsOf, statementsOf, statements?, statements?, regrows.reshapes.shapes, if_neg other]
  obtain ⟨old, absent, each⟩ := regrows.work.spent name there gone.2 body hadBody
  rw [regrows.reshapes.size, List.mem_cons, not_or, statements]
  refine ⟨old, ⟨other, absent⟩, fun statement listed => ?_⟩
  obtain ⟨older, dispatches⟩ := each statement listed
  refine ⟨older, fun selects => ?_⟩
  rw [List.mem_cons, not_or]
  exact ⟨regrows.distinct (regrows.work.bodies there hadBody (.inr listed)),
    dispatches (regrows.keepsKinds.isSwitch_before older selects)⟩

theorem emptied (links : store.HasTrueLinks) {declaration : NodeId}
    (origin : name ∈ Tree.namesAll (.node id shape below :: rest) ∨ store.nodes.size ≤ name)
    (gone : name ∉ Tree.namesAll (.node id changed parts :: others))
    (old : declaration < store.nodes.size) (linked : later.parent (some declaration) = some name) :
    later.IsEmptied (Tree.namesAll (.node id changed parts :: others)) name := by
  intro isStatement declarations shaped child listed
  rw [namesAll_node_cons, List.mem_cons, not_or] at gone
  rw [regrows.reshapes.shapes, if_neg gone.1] at shaped
  have before := origin_below gone.1 origin
  obtain ⟨older, absent⟩ := regrows.work.emptied links name before gone.2 declaration old
    (regrows.earlier old linked gone.1) isStatement declarations shaped child listed
  obtain ⟨-, source⟩ := regrows.work.listed name before _ shaped child listed
  rw [regrows.reshapes.size, namesAll_node_cons, List.mem_cons, not_or]
  exact ⟨older, regrows.distinct source, absent⟩

end Regrows

/-- A node whose children have been rebuilt gets them. -/
theorem reshaping (all : store.HoldsAll (.node id shape below :: rest))
    (work : Rebuilds store middle (below ++ rest) (parts ++ others))
    (reshapes : Reshapes middle later id changed removed new)
    (closes : Closes middle id shape changed parts removed new)
    (framed : ∀ prelude, store.IsFramed id prelude → later.IsFramed id prelude) :
    Rebuilds store later (.node id shape below :: rest) (.node id changed parts :: others) ∧
      later.parent (some id) = store.parent (some id) := by
  have regrows : Regrows store middle later id shape changed below parts rest others removed new :=
    ⟨all, work, reshapes, closes⟩
  refine ⟨⟨all, holds_of_reshapes reshapes work.all regrows.outside closes, regrows.touches,
    fun name inside => regrows.names inside, fun links => ?_, fun tidy => ?_,
    work.kinds.trans regrows.keepsKinds,
    fun name origin found shaped child listed => regrows.listed origin shaped listed,
    fun name parent old linked => ?_, fun loop inside old prelude isFramed => ?_,
    fun loop inside gone => regrows.spent inside gone,
    fun links list origin gone declaration old linked => regrows.emptied links origin gone old linked⟩,
    regrows.link⟩
  · exact reshapes.hasTrueLinks regrows.found closes.kept closes.come (work.links links)
  · exact reshapes.isTidy regrows.keepsKinds (work.tidy tidy) (closes.answers (work.tidy tidy))
  · by_cases same : parent = id
    · rw [namesAll_node_cons, same]
      exact .inr (.inl List.mem_cons_self)
    · exact (work.adopters name parent old (regrows.earlier old linked same)).imp_right origin_node
  · rw [namesAll_node_cons] at inside
    by_cases same : loop = id
    · exact same ▸ framed prelude (same ▸ isFramed)
    · exact regrows.framed_other same ((List.mem_cons.mp inside).resolve_left same) old isFramed

/-- A node over a rebuilt tree: the node itself stays as it is. -/
theorem around {front back : List Tree} {part remade : Tree} {extras : List Tree}
    (all : store.HoldsAll (.node id shape (front ++ part :: back) :: rest))
    (work : Rebuilds store later (part :: rest) (remade :: extras)) (root : remade.root = part.root)
    (link : later.parent part.root = store.parent part.root)
    (framed : ∀ prelude, store.IsFramed id prelude → later.IsFramed id prelude) :
    Rebuilds store later (.node id shape (front ++ part :: back) :: rest)
        (.node id shape (front ++ remade :: back) :: extras) ∧
      later.parent (some id) = store.parent (some id) := by
  obtain ⟨inner, outside⟩ := all.below
  have regroup : ∀ (tree : Tree) (others : List Tree),
      (front ++ tree :: back ++ others).Perm (tree :: others ++ (front ++ back)) := by
    intro tree others
    have swapped : (front ++ back ++ others).Perm (others ++ (front ++ back)) := List.perm_append_comm
    exact (List.perm_middle.append_right others).trans (swapped.cons tree)
  obtain ⟨-, held, apart⟩ := holdsAll_append.mp (inner.perm (regroup part rest))
  have beside := ((work.beside (inner.perm (regroup part rest))).permBefore
    (regroup part rest).symm).perm (regroup remade extras).symm
  have notPart : id ∉ Tree.namesAll (part :: rest) := fun inside =>
    outside (by
      rw [(Tree.namesAll_perm (regroup part rest)).mem_iff, Tree.namesAll_append]
      exact List.mem_append_left _ inside)
  obtain ⟨found, regular, roots, links⟩ : store.shape? (some id) = some shape ∧ shape.IsRegular ∧
      shape.slots = (front ++ part :: back).map Tree.root ∧
      ∀ tree ∈ front ++ part :: back, tree.root.isSome → store.parent tree.root = some id := by
    cases all.holds _ List.mem_cons_self with
    | node found regular roots links => exact ⟨found, regular, roots, links⟩
  have foundLater : later.shape? (some id) = some shape := by
    rw [work.touches.shape id (lt_size_of_shape? found) notPart, found]
  have siblings : ∀ other ∈ front ++ back, later.parent other.root = store.parent other.root :=
    fun other member => work.touches.parent_root (held.holds other member) fun name inside there =>
      apart name there (Tree.mem_namesAll.mpr ⟨other, member, inside⟩)
  have linked : ∀ other ∈ front ++ remade :: back, other.root.isSome →
      later.parent other.root = some id := by
    intro other member present
    have kept : other ∈ front ++ back → later.parent other.root = some id := by
      intro sibling
      rw [siblings other sibling]
      refine links other ?_ present
      simp only [List.mem_append, List.mem_cons] at sibling ⊢
      exact sibling.imp_right .inr
    rcases List.mem_append.mp member with before | behind
    · exact kept (List.mem_append_left _ before)
    · rcases List.mem_cons.mp behind with rfl | after
      · rw [root] at present ⊢
        rw [link]
        exact links part (by simp) present
      · exact kept (List.mem_append_right _ after)
  have closes : Closes later id shape shape (front ++ remade :: back) [] [] := by
    refine ⟨rfl, ?_, regular, fun other member child rooted => .inr ⟨?_, List.not_mem_nil⟩,
      List.forall_mem_nil _, List.forall_mem_nil _, fun slot member => .inl member,
      fun tidy => tidy id shape foundLater⟩
    · rw [roots, List.map_append, List.map_append, List.map_cons, List.map_cons, root]
    · have there := linked other member (by rw [rooted]; rfl)
      rwa [rooted] at there
  exact reshaping all beside (.refl foundLater) closes framed

end Reshaping

end Rebuilds

/-! ## Work on some children -/

/-- Some children of a node are worked on; its other children stay as they are. -/
structure Works (store middle : Store) (id : NodeId) (shape : Shape)
    (below parts siblings : List Tree) : Prop where
  holds : store.Holds (.node id shape below)
  nodup : (Tree.node id shape below).names.Nodup
  perm : below.Perm (parts ++ siblings)
  touches : Touches store middle (Tree.namesAll parts)

namespace Works
variable {store middle : Store} {id child : NodeId} {shape : Shape}
  {below parts siblings built extras : List Tree} {sibling : Tree}

theorem alone (works : Works store middle id shape below parts siblings) :
    store.HoldsAll [.node id shape below] :=
  ⟨List.forall_mem_singleton.mpr works.holds,
    by rw [Tree.namesAll, Tree.namesAll, List.append_nil]; exact works.nodup⟩

theorem inner (works : Works store middle id shape below parts siblings) :
    store.HoldsAll (parts ++ siblings) := by
  have all := works.alone.below.1
  rw [List.append_nil] at all
  exact all.perm works.perm

theorem outside (works : Works store middle id shape below parts siblings) :
    id ∉ Tree.namesAll parts := fun inside =>
  (List.nodup_cons.mp works.nodup).1 ((Tree.namesAll_perm works.perm).mem_iff.mpr (by
    rw [Tree.namesAll_append]
    exact List.mem_append_left _ inside))

theorem found (works : Works store middle id shape below parts siblings) :
    store.shape? (some id) = some shape ∧ middle.shape? (some id) = some shape := by
  cases works.holds with
  | node found =>
    exact ⟨found, by rw [works.touches.shape id (lt_size_of_shape? found) works.outside, found]⟩

theorem mem_below (works : Works store middle id shape below parts siblings)
    (member : sibling ∈ siblings) : sibling ∈ below :=
  works.perm.mem_iff.mpr (List.mem_append_right _ member)

/-- What belongs to another child does not belong to those that are worked on. -/
theorem apart (works : Works store middle id shape below parts siblings) (member : sibling ∈ siblings)
    (rooted : sibling.root = some child) : child ∉ Tree.namesAll parts := fun there =>
  (holdsAll_append.mp works.inner).2.2 child there
    (Tree.mem_namesAll.mpr ⟨sibling, member, Tree.mem_names_root rooted⟩)

theorem lt_size (works : Works store middle id shape below parts siblings)
    (member : sibling ∈ siblings) (rooted : sibling.root = some child) : child < store.nodes.size :=
  (works.inner.holds sibling (List.mem_append_right _ member)).lt_size (Tree.mem_names_root rooted)

theorem shape?_sibling (works : Works store middle id shape below parts siblings)
    (member : sibling ∈ siblings) (rooted : sibling.root = some child) :
    middle.shape? (some child) = store.shape? (some child) :=
  works.touches.shape child (works.lt_size member rooted) (works.apart member rooted)

theorem parent_sibling (works : Works store middle id shape below parts siblings)
    (member : sibling ∈ siblings) (rooted : sibling.root = some child) :
    middle.parent (some child) = some id := by
  rw [works.touches.parent child (works.lt_size member rooted) (works.apart member rooted)]
  cases works.holds with
  | node _ _ _ links _ =>
    have linked := links sibling (works.mem_below member) (by rw [rooted]; rfl)
    rwa [rooted] at linked

theorem ne_root (works : Works store middle id shape below parts siblings)
    (member : sibling ∈ siblings) (rooted : sibling.root = some child) : child ≠ id := by
  rintro rfl
  exact (List.nodup_cons.mp works.nodup).1 (Tree.mem_namesAll.mpr
    ⟨sibling, works.mem_below member, Tree.mem_names_root rooted⟩)

/-- The other children are beside what the parts become. -/
theorem rebuilds (works : Works store middle id shape below parts siblings)
    (work : Rebuilds store middle parts (built ++ extras)) :
    Rebuilds store middle (below ++ []) (built ++ siblings ++ extras) := by
  rw [List.append_nil]
  refine ((work.beside works.inner).permBefore works.perm.symm).perm ?_
  rw [List.append_assoc, List.append_assoc]
  exact List.perm_append_comm.append_left built

end Works

/-! ## Edits of a tree -/

/-- A tree is remade in its place, and the extras are taken out of it. -/
structure Remakes (store later : Store) (tree remade : Tree) (extras : List Tree) : Prop where
  rebuilds : Rebuilds store later [tree] (remade :: extras)
  root : remade.root = tree.root
  text : remade.text? = tree.text?
  link : later.parent tree.root = store.parent tree.root
  headed : ∀ body prelude, tree.root = some body → store.IsFramedBody body prelude →
    later.IsFramedBody body prelude
  needs : tree.NeedsNoMore remade

namespace Remakes

section Around
variable {store middle later : Store} {tree remade part whole : Tree} {extras : List Tree}
  {front back : List Tree} {id : NodeId} {shape : Shape}

theorem refl (holds : store.Holds tree) (nodup : tree.names.Nodup) :
    Remakes store store tree tree [] where
  rebuilds := .refl ⟨List.forall_mem_singleton.mpr holds,
    by rw [Tree.namesAll, Tree.namesAll, List.append_nil]; exact nodup⟩
  root := rfl
  text := rfl
  link := rfl
  headed _ _ _ framed := framed
  needs := .refl tree

theorem trans {other : Tree} (first : Remakes store middle tree remade [])
    (second : Remakes middle later remade other extras) : Remakes store later tree other extras where
  rebuilds := first.rebuilds.trans second.rebuilds
  root := second.root.trans first.root
  text := second.text.trans first.text
  link := by
    rw [← first.link, ← first.root]
    exact second.link
  headed body prelude rooted framed :=
    second.headed body prelude (first.root.trans rooted) (first.headed body prelude rooted framed)
  needs := first.needs.trans second.needs

/-- A node over a remade tree: the node itself stays as it is. -/
theorem below (remakes : Remakes store later part remade extras)
    (holds : store.Holds (.node id shape (front ++ part :: back)))
    (nodup : (Tree.node id shape (front ++ part :: back)).names.Nodup) :
    Remakes store later (.node id shape (front ++ part :: back))
      (.node id shape (front ++ remade :: back)) extras := by
  have works : Works store later id shape (front ++ part :: back) [part] (front ++ back) :=
    ⟨holds, nodup, List.perm_middle, remakes.rebuilds.touches⟩
  obtain ⟨found, foundLater⟩ := works.found
  have framed : ∀ prelude, store.IsFramed id prelude → later.IsFramed id prelude := by
    rintro prelude ⟨body, ⟨kind, initializer, condition, incrementor, shaped⟩, isFramed⟩
    rw [found] at shaped
    cases shaped
    refine ⟨body, ⟨kind, initializer, condition, incrementor, foundLater⟩, ?_⟩
    have listed : some body ∈ (front ++ part :: back).map Tree.root := by
      cases holds with
      | node _ _ roots =>
        exact roots ▸ List.mem_cons_of_mem _ (List.mem_cons_of_mem _ (List.mem_cons_of_mem _
          List.mem_cons_self))
    obtain ⟨other, member, rooted⟩ := List.mem_map.mp listed
    by_cases same : other = part
    · exact remakes.headed body prelude (same ▸ rooted) isFramed
    · have sibling : other ∈ front ++ back := by
        simp only [List.mem_append, List.mem_cons, same, false_or] at member ⊢
        exact member
      exact isFramed.carry remakes.rebuilds.kinds (works.shape?_sibling sibling rooted)
  obtain ⟨rebuilds, link⟩ := Rebuilds.around works.alone remakes.rebuilds remakes.root
    remakes.link framed
  refine ⟨rebuilds, rfl, Tree.text?_node _ _, link, ?_, remakes.needs.node remakes.text⟩
  rintro body prelude same isFramed
  cases same
  exact isFramed.carry remakes.rebuilds.kinds (foundLater.trans found.symm)

/-- An edit deep in a tree leaves what is around it. -/
theorem within_placed (remakes : Remakes store later part remade extras)
    (inside : Tree.Within part whole) (holds : store.Holds whole) (nodup : whole.names.Nodup) :
    ∃ result, Remakes store later whole result extras ∧ Tree.Placed part remade whole result := by
  induction inside with
  | whole => exact ⟨remade, remakes, .here⟩
  | @deeper id shape below tree member deeper ih =>
    obtain ⟨front, back, rfl⟩ := List.append_of_mem member
    have nodupBelow := (List.nodup_cons.mp nodup).2
    have held : store.Holds tree := by
      cases holds with
      | node _ _ _ _ inner => exact inner tree member
    obtain ⟨result, remakes', placed⟩ := ih held (Tree.nodup_of_mem_namesAll nodupBelow member)
    exact ⟨_, remakes'.below holds nodup, placed.deeper rfl⟩

theorem within (remakes : Remakes store later part remade extras) (inside : Tree.Within part whole)
    (holds : store.Holds whole) (nodup : whole.names.Nodup) :
    ∃ result, Remakes store later whole result extras ∧
      (∀ id ∈ whole.names, id ∈ part.names ∨ id ∈ result.names) ∧ remade.names ⊆ result.names := by
  obtain ⟨result, whole, placed⟩ := remakes.within_placed inside holds nodup
  exact ⟨result, whole, fun id there => placed.mem_or there, placed.names_subset⟩

end Around

end Remakes

end Store

end Unflatten
