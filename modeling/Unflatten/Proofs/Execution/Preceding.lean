import Unflatten.Parser.Expression
import Unflatten.Proofs.Execution.Ordering
import Unflatten.Proofs.Syntax.Standing

/-! # What is run before a node

A part of an expression precedes a node if it stands in front of the part in which the node is, and
is run.  Where all nodes around are strict, that is what is run before the node, and the walk through
the store, parents first, meets it before the node (`Tree.Precedes.mem_takeWhile`). -/

set_option autoImplicit false

namespace Unflatten

namespace Tree

/-- A part is run before another, later one. -/
inductive Precedes (part later : Tree) : Tree → Prop
  | beside {id : NodeId} {shape : Shape} {lead between back : List Tree} {child : Tree}
      (within : Within later child) (runs : shape.runsPart lead.length = true) :
      Precedes part later (.node id shape (lead ++ part :: (between ++ child :: back)))
  | deeper {id : NodeId} {shape : Shape} {front back : List Tree} {child : Tree}
      (precedes : Precedes part later child) :
      Precedes part later (.node id shape (front ++ child :: back))

/-- Every node around a node runs its parts in order. -/
def IsStrictAround (whole : Tree) (id : NodeId) : Prop :=
  ∀ name shape below, Within (.node name shape below) whole → id ∈ namesAll below →
    shape.isStrict = true

section Precedes
variable {part later inner whole child : Tree} {id name : NodeId} {shape : Shape} {front back : List Tree}

theorem Precedes.within (precedes : Precedes part later whole) :
    Within part whole ∧ Within later whole := by
  induction precedes with
  | beside within => exact ⟨.deeper (by simp) .whole, .deeper (by simp) within⟩
  | deeper _ ih => exact ⟨.deeper (by simp) ih.1, .deeper (by simp) ih.2⟩

theorem precedes_pair {second : Tree} (runs : shape.runsPart 0 = true) :
    Precedes part second (.node id shape [part, second]) :=
  @Precedes.beside part second id shape [] [] [] second .whole runs

/-- What precedes a part precedes all that is in the part. -/
theorem Precedes.into (precedes : Precedes part later whole) (within : Within inner later) :
    Precedes part inner whole := by
  induction precedes with
  | beside around runs => exact .beside (within.trans around) runs
  | deeper _ ih => exact .deeper ih

/-- What precedes within a part precedes in all that is around the part. -/
theorem Precedes.around (precedes : Precedes part later inner) (within : Within inner whole) :
    Precedes part later whole := by
  induction within with
  | whole => exact precedes
  | deeper member _ ih =>
    obtain ⟨front, back, rfl⟩ := List.append_of_mem member
    exact .deeper ih

theorem Precedes.of_front {place : Nat} (placed : place < front.length)
    (runs : shape.runsPart place = true) (within : Within later child) :
    Precedes front[place] later (.node id shape (front ++ child :: back)) := by
  have parted : front ++ child :: back =
      front.take place ++ front[place] :: (front.drop (place + 1) ++ child :: back) := by
    rw [← List.cons_append, List.getElem_cons_drop, ← List.append_assoc, List.take_append_drop]
  rw [parted]
  refine .beside within ?_
  rwa [List.length_take, min_eq_left (Nat.le_of_lt placed)]

theorem IsStrictAround.below (strict : (Tree.node name shape (front ++ child :: back)).IsStrictAround id) :
    child.IsStrictAround id :=
  fun other outer below within => strict other outer below (.deeper (by simp) within)

theorem IsStrictAround.here (strict : (Tree.node name shape (front ++ child :: back)).IsStrictAround id)
    (inside : id ∈ child.names) : shape.isStrict = true :=
  strict name shape _ .whole (mem_namesAll.mpr ⟨child, by simp, inside⟩)

/-- Nothing stands around the root. -/
theorem isStrictAround_root (nodup : whole.names.Nodup) (rooted : whole.root = some id) :
    whole.IsStrictAround id := by
  intro other outer below within inside
  have outside := root_not_mem_inner nodup rooted
  cases within with
  | whole => exact absurd inside outside
  | deeper member within =>
    exact absurd (mem_namesAll.mpr
      ⟨_, member, within.names_subset (List.mem_cons_of_mem other inside)⟩) outside

/-- What stands around a node is its parent, and what stands around that. -/
theorem IsStrictAround.downward {store : Store} {parent : NodeId} (strict : whole.IsStrictAround parent)
    (holds : store.Holds whole) (linked : store.parent (some id) = some parent)
    (here : ∀ shape, store.shape? (some parent) = some shape → shape.isStrict = true) :
    whole.IsStrictAround id := by
  intro other outer below within inside
  obtain ⟨above, among, same⟩ := (holds.within within).parent_mem inside
  rw [linked] at same
  cases same
  rcases List.mem_cons.mp among with rfl | deeper
  · exact here outer (holds.within within).shape?_node
  · exact strict other outer below within deeper

/-- A part that precedes another has no node in common with it. -/
theorem Precedes.apart (precedes : Precedes part later whole) (nodup : whole.names.Nodup) :
    part.names.Disjoint later.names := by
  induction precedes with
  | @beside id shape lead between back child within runs =>
    intro name first second
    have below := (List.nodup_cons.mp nodup).2
    rw [namesAll_append] at below
    have others := (List.nodup_append.mp below).2.1
    rw [namesAll] at others
    exact (List.nodup_append.mp others).2.2 name first name
      (mem_namesAll.mpr ⟨child, by simp, within.names_subset second⟩) rfl
  | deeper _ ih => exact ih (nodup_of_mem_namesAll (List.nodup_cons.mp nodup).2 (by simp))

end Precedes

end Tree

namespace Store

section Walk
variable {store : Store} {part later whole : Tree} {id name : NodeId} {shape : Shape} {below : List Tree}
  {depth : Nat}

theorem children_of_isStrict (holds : store.Holds (.node id shape below))
    (strict : shape.isStrict = true) : store.children id = below.filterMap Tree.root := by
  cases holds with
  | node found _ roots =>
    have visible : shape.visible = shape.slots := by
      cases shape
      case loop => cases strict
      all_goals rfl
    rw [children, found, Option.map_some, Option.getD_some, Shape.children, visible, roots,
      List.filterMap_map]
    rfl

/-- The walk through some trees, one after the other. -/
def walkAll (store : Store) (depth : Nat) (trees : List Tree) : List NodeId :=
  (trees.filterMap Tree.root).flatMap fun child => store.preorderOnto depth child []

theorem walkAll_singleton (depth : Nat) (rooted : whole.root = some id) :
    store.walkAll depth [whole] = store.preorderOnto depth id [] := by
  rw [walkAll, List.filterMap_cons_some rooted, List.filterMap_nil, List.flatMap_singleton]

theorem walkAll_append (depth : Nat) (first second : List Tree) :
    store.walkAll depth (first ++ second) = store.walkAll depth first ++ store.walkAll depth second := by
  rw [walkAll, List.filterMap_append, List.flatMap_append]
  rfl

theorem walkAll_cons (depth : Nat) (tree : Tree) (rest : List Tree) :
    store.walkAll depth (tree :: rest) = store.walkAll depth [tree] ++ store.walkAll depth rest :=
  store.walkAll_append depth [tree] rest

theorem mem_walkAll {trees : List Tree} (holds : ∀ tree ∈ trees, store.Holds tree)
    (deep : ∀ tree ∈ trees, tree.height ≤ depth) :
    name ∈ store.walkAll depth trees ↔ name ∈ Tree.namesAll trees := by
  rw [walkAll, List.mem_flatMap, Tree.mem_namesAll]
  constructor
  · rintro ⟨child, listed, visited⟩
    obtain ⟨tree, member, rooted⟩ := List.mem_filterMap.mp listed
    exact ⟨tree, member,
      ((holds tree member).preorder_perm (deep tree member) rooted).mem_iff.mp visited⟩
  · rintro ⟨tree, member, inside⟩
    cases rooted : tree.root with
    | none =>
      cases tree with
      | nothing => cases inside
      | node => cases rooted
    | some child =>
      exact ⟨child, List.mem_filterMap.mpr ⟨tree, member, rooted⟩,
        ((holds tree member).preorder_perm (deep tree member) rooted).mem_iff.mpr inside⟩

theorem preorderOnto_of_isStrict (holds : store.Holds (.node id shape below))
    (strict : shape.isStrict = true) (depth : Nat) :
    store.preorderOnto (depth + 1) id [] = id :: store.walkAll depth below := by
  rw [preorderOnto_succ, children_of_isStrict holds strict]
  rfl

theorem walkAll_node (holds : store.Holds (.node id shape below)) (strict : shape.isStrict = true)
    (depth : Nat) :
    store.walkAll (depth + 1) [.node id shape below] = id :: store.walkAll depth below := by
  rw [store.walkAll_singleton (depth + 1) rfl, preorderOnto_of_isStrict holds strict]

theorem mem_takeWhile_append {test : NodeId → Bool} {first : List NodeId}
    (member : name ∈ first.takeWhile test) (second : List NodeId) :
    name ∈ (first ++ second).takeWhile test := by
  rw [List.takeWhile_append]
  split
  · exact List.mem_append_left _ ((List.takeWhile_prefix test).subset member)
  · exact member

/-- On the way to a node in the rest of the parts, the walk goes through the first parts. -/
theorem takeWhile_walkAll {first rest : List Tree}
    (holds : store.Holds (.node name shape (first ++ rest)))
    (nodup : (Tree.node name shape (first ++ rest)).names.Nodup) (strict : shape.isStrict = true)
    (deep : (Tree.node name shape (first ++ rest)).height ≤ depth + 1)
    (among : id ∈ Tree.namesAll rest) :
    (∀ other, other ∈ store.walkAll depth first ↔ other ∈ Tree.namesAll first) ∧
      (store.walkAll (depth + 1) [.node name shape (first ++ rest)]).takeWhile (· != id) =
        name :: store.walkAll depth first ++ (store.walkAll depth rest).takeWhile (· != id) := by
  have walked : ∀ other, other ∈ store.walkAll depth first ↔ other ∈ Tree.namesAll first := fun _ =>
    mem_walkAll (fun tree member => holds.within (.deeper (List.mem_append_left _ member) .whole))
      fun tree member => Nat.lt_succ_iff.mp (Nat.lt_of_lt_of_le
        (Tree.height_lt_node (List.mem_append_left _ member)) deep)
  obtain ⟨outside, below⟩ := List.nodup_cons.mp nodup
  rw [Tree.namesAll_append] at outside below
  have absent : id ∉ name :: store.walkAll depth first := by
    intro member
    rcases List.mem_cons.mp member with same | member
    · exact outside (same ▸ List.mem_append_right _ among)
    · exact (List.nodup_append.mp below).2.2 id ((walked id).mp member) id among rfl
  refine ⟨walked, ?_⟩
  rw [walkAll_node holds strict, walkAll_append, ← List.cons_append]
  exact List.takeWhile_append_of_pos fun other member =>
    bne_iff_ne.mpr fun same => absent (same ▸ member)

/-- The walk meets what precedes a node before the node. -/
theorem mem_takeWhile_walkAll (precedes : Tree.Precedes part later whole) (holds : store.Holds whole)
    (nodup : whole.names.Nodup) (strict : whole.IsStrictAround id) (rooted : later.root = some id)
    (deep : whole.height ≤ depth) (inside : name ∈ part.names) :
    name ∈ (store.walkAll depth [whole]).takeWhile (· != id) := by
  induction precedes generalizing depth with
  | @beside root shape lead between back child within runs =>
    cases depth with
    | zero => exact absurd deep (Nat.not_succ_le_zero _)
    | succ depth =>
      have there : id ∈ child.names := within.names_subset (Tree.mem_names_root rooted)
      have among : id ∈ Tree.namesAll (between ++ child :: back) :=
        Tree.mem_namesAll.mpr ⟨child, by simp, there⟩
      have parted : lead ++ part :: (between ++ child :: back) =
          (lead ++ [part]) ++ (between ++ child :: back) := by simp
      rw [parted] at holds nodup strict deep ⊢
      have shaped : shape.isStrict = true :=
        strict root shape _ .whole (Tree.mem_namesAll.mpr ⟨child, by simp, there⟩)
      obtain ⟨walked, same⟩ := takeWhile_walkAll holds nodup shaped deep among
      rw [same]
      exact List.mem_append_left _ (List.mem_cons_of_mem _ ((walked name).mpr
        (Tree.mem_namesAll.mpr ⟨part, by simp, inside⟩)))
  | @deeper root shape front back child precedes ih =>
    cases depth with
    | zero => exact absurd deep (Nat.not_succ_le_zero _)
    | succ depth =>
      have there : id ∈ child.names := precedes.within.2.names_subset (Tree.mem_names_root rooted)
      have childNodup : child.names.Nodup :=
        Tree.nodup_of_mem_namesAll (List.nodup_cons.mp nodup).2 (by simp)
      have fits : child.height ≤ depth := Nat.lt_succ_iff.mp
        (Nat.lt_of_lt_of_le (Tree.height_lt_node (by simp)) deep)
      obtain ⟨-, same⟩ := takeWhile_walkAll holds nodup (strict.here there) deep
        (Tree.mem_namesAll.mpr ⟨child, by simp, there⟩)
      rw [same, walkAll_cons]
      exact List.mem_append_right _ (mem_takeWhile_append
        (ih (holds.within (.deeper (by simp) .whole)) childNodup strict.below fits) _)

end Walk

end Store

namespace Shape

theorem isQuiet_withSlots (shape : Shape) (slots : List Slot) :
    (shape.withSlots slots).isQuiet = shape.isQuiet := by
  rw [isQuiet, kind_withSlots, isQuiet]

theorem isActive_withSlots (shape : Shape) (slots : List Slot) :
    (shape.withSlots slots).isActive = shape.isActive := by
  cases shape <;> rfl

theorem isFunction_withSlots (shape : Shape) (slots : List Slot) :
    (shape.withSlots slots).isFunction = shape.isFunction := by
  cases shape <;> rfl

theorem quietSlots_of_isStrict {shape : Shape} (strict : shape.isStrict = true) :
    shape.quietSlots = shape.slots := by
  cases shape <;> first | rfl | cases strict

end Shape

/-- An expression that neither has an effect nor names a variable. -/
structure Store.IsSilent (store : Store) (name : String) (tree : Tree) : Prop where
  quiet : store.IsQuietAt tree.root
  silent : ∀ id ∈ tree.names, Hoist.observes store name id = false

namespace Execution.Machine

section Silent
variable {m : Type → Type} {ν : Type} [Monad m] {machine : Machine m ν} {store : Store}
  {tree part later whole : Tree} {α : Type} {name : String} {action : m α} {id : NodeId}

theorem meaning_node (id : NodeId) (shape : Shape) (below : List Tree) :
    machine.meaning (.node id shape below) =
      machine.node (shape.withSlots []) (below.map machine.meaning) := Tree.fold_node _ _ _ _ _

theorem passive_of_observes {shape : Shape} (found : store.shape? (some id) = some shape)
    (silent : Hoist.observes store name id = false) :
    shape.isActive = false ∧ shape ≠ .identifier name := by
  rw [Hoist.observes, found] at silent
  cases shape
  case identifier text =>
    refine ⟨rfl, fun same => ?_⟩
    cases same
    exact absurd silent (by simp)
  case call => cases silent
  case binary | unary => exact ⟨silent, nofun⟩
  all_goals exact ⟨rfl, nofun⟩

/-- A silent expression swaps with what concerns the variable only. -/
theorem Concerns.meaning [LawfulMonad m] (concerns : machine.Concerns name action)
    (holds : store.Holds tree) (tidy : store.IsTidy) (silent : store.IsSilent name tree) :
    machine.Spares (machine.meaning tree) action := by
  induction tree with
  | nothing => exact concerns.others .omitted [] rfl rfl nofun
  | node id shape below ih =>
    have found := holds.shape?_node
    obtain ⟨passive, differs⟩ := passive_of_observes found (silent.silent id List.mem_cons_self)
    have calm : shape.isQuiet = true := by
      have satisfied := silent.quiet id rfl
      rwa [Store.satisfies, found, Option.any_some] at satisfied
    rw [meaning_node]
    refine concerns.node (by rw [shape.isQuiet_withSlots, calm])
      (by rw [shape.isActive_withSlots, passive])
      (fun same => differs (Shape.eq_identifier_of_withSlots same)) fun noFunction part member => ?_
    obtain ⟨child, inside, rfl⟩ := List.mem_map.mp member
    rw [shape.isFunction_withSlots] at noFunction
    refine ih child inside (holds.within (.deeper inside .whole)) ⟨?_, fun other there => ?_⟩
    · refine tidy.quietAt found ?_
      rw [Shape.quietSlots_of_isQuiet calm noFunction]
      cases holds with
      | node _ _ roots => exact roots ▸ List.mem_map_of_mem inside
    · exact silent.silent other
        (List.mem_cons_of_mem _ (Tree.mem_namesAll.mpr ⟨child, inside, there⟩))

end Silent

end Execution.Machine

namespace Store

/-- What precedes a node is an expression. -/
theorem isQuietAt_of_precedes {store : Store} {part later whole : Tree} {id : NodeId}
    (precedes : Tree.Precedes part later whole) (holds : store.Holds whole) (tidy : store.IsTidy)
    (strict : whole.IsStrictAround id) (rooted : later.root = some id) :
    store.IsQuietAt part.root := by
  induction precedes with
  | @beside root shape lead between back child within runs =>
    have shaped : shape.isStrict = true := strict root shape _ .whole (Tree.mem_namesAll.mpr
      ⟨child, by simp, within.names_subset (Tree.mem_names_root rooted)⟩)
    refine tidy.quietAt holds.shape?_node ?_
    rw [Shape.quietSlots_of_isStrict shaped]
    cases holds with
    | node _ _ roots => exact roots ▸ List.mem_map_of_mem (by simp)
  | deeper _ ih => exact ih (holds.within (.deeper (by simp) .whole)) strict.below

/-- What is assigned to is a name or a member, and what is not run, as the name of a member, has no
parts. -/
def isAimedAt (store : Store) (id : NodeId) : Bool :=
  (store.shape? (some id)).all fun shape => shape.slots.zipIdx.all fun (slot, place) =>
    (!shape.aimsAt place || store.satisfies slot Parser.isAssignable) &&
      (shape.runsPart place || (store.shape? slot).all fun inner => inner.slots.isEmpty)

/-- A tree without parts has no node but its root. -/
theorem Holds.root_of_leaf {store : Store} {tree : Tree} {id : NodeId} (holds : store.Holds tree)
    (inside : id ∈ tree.names)
    (leaf : ∀ shape, store.shape? tree.root = some shape → shape.slots = []) : tree.root = some id := by
  cases holds with
  | nothing => cases inside
  | node found _ roots =>
    have empty := List.map_eq_nil_iff.mp (roots.symm.trans (leaf _ found))
    subst empty
    rw [Tree.root_node, List.mem_singleton.mp inside]

theorem isAimedAt_spec {store : Store} {id : NodeId} {shape : Shape} {front back : List Tree}
    {child : Tree} (holds : store.Holds (.node id shape (front ++ child :: back)))
    (aimed : store.isAimedAt id = true) :
    (shape.aimsAt front.length = true → store.satisfies child.root Parser.isAssignable = true) ∧
      (shape.runsPart front.length = false →
        ∀ inner, store.shape? child.root = some inner → inner.slots = []) := by
  cases holds with
  | node found _ roots =>
    rw [isAimedAt, found, Option.all_some, List.all_eq_true] at aimed
    have listed : (child.root, front.length) ∈ shape.slots.zipIdx := by
      rw [List.mk_mem_zipIdx_iff_getElem?, roots]
      simp
    have both := aimed _ listed
    simp only [Bool.and_eq_true, Bool.or_eq_true, Bool.not_eq_true'] at both
    refine ⟨fun aims => both.1.resolve_left (by rw [aims]; exact Bool.noConfusion), fun still inner there => ?_⟩
    have leaf := both.2.resolve_left (by rw [still]; exact Bool.noConfusion)
    rw [there, Option.all_some, List.isEmpty_iff] at leaf
    exact leaf

end Store

namespace Execution.Machine

section Delays
variable {m : Type → Type} {ν : Type} [Monad m] [LawfulMonad m] {machine : Machine m ν} {store : Store}
  {part new whole result : Tree} {action : m ν} {id : NodeId}

/-- An action that a part does first is done first by an expression around it, if what precedes the
part swaps with the action. -/
theorem InOrder.placed (inOrder : machine.InOrder) (placed : Tree.Placed part new whole result)
    (holds : store.Holds whole) (rooted : part.root = some id)
    (full : ∀ shape, store.shape? (some id) = some shape → shape.slots ≠ [])
    (strict : whole.IsStrictAround id) (aimed : ∀ name ∈ whole.names, store.isAimedAt name = true)
    (same : machine.meaning part = (machine.meaning new).behind action)
    (spares : ∀ before, Tree.Precedes before part whole →
      machine.Spares (machine.meaning before) action) :
    machine.Delays action (machine.meaning whole) (machine.meaning result) ∧
      (store.satisfies whole.root Parser.isAssignable = true →
        (machine.meaning whole).place = ((machine.meaning result).behind action).place) := by
  induction placed with
  | here => exact ⟨delays_of_eq same, fun _ => congrArg Meaning.place same⟩
  | @deeper name shape changed front back child child' placed slots ih =>
    have within : Tree.Within part child := placed.within
    have inside : id ∈ child.names := within.names_subset (Tree.mem_names_root rooted)
    obtain ⟨delays, placeOf⟩ := ih (holds.within (.deeper (by simp) .whole)) strict.below
      (fun other there => aimed other (List.mem_cons_of_mem _ (Tree.mem_namesAll.mpr ⟨child, by simp, there⟩)))
      fun before precedes => spares before (.deeper precedes)
    have shaped := strict.here inside
    obtain ⟨aims, leaf⟩ := Store.isAimedAt_spec holds (aimed name List.mem_cons_self)
    have length : (front.map machine.meaning).length = front.length := List.length_map ..
    have runs : shape.runsPart (front.map machine.meaning).length = true := by
      rw [length]
      by_contra still
      -- a part that is not run is a leaf, and then it is the node itself
      have held : store.Holds child := holds.within (.deeper (by simp) .whole)
      have empty := leaf (Bool.eq_false_of_not_eq_true still)
      have itself := held.root_of_leaf inside empty
      obtain ⟨inner, found⟩ := Store.exists_shape? (held.lt_size inside)
      exact full inner found (empty inner (itself.symm ▸ found))
    have spared : ∀ place (inside : place < (front.map machine.meaning).length),
        shape.runsPart place = true → machine.Spares (front.map machine.meaning)[place] action := by
      intro place there run
      rw [List.getElem_map]
      exact spares _ (.of_front (length ▸ there) run within)
    rw [meaning_node, meaning_node, slots, List.map_append, List.map_cons, List.map_append,
      List.map_cons]
    refine ⟨inOrder.node shaped runs spared delays fun aim => placeOf (aims (length ▸ aim)), ?_⟩
    intro assignable
    rw [Tree.root_node, Store.satisfies, holds.shape?_node, Option.any_some] at assignable
    cases shape
    case access isElement object property =>
      have two : (front.map machine.meaning).length + (back.map machine.meaning).length = 1 := by
        have roots : [object, property] = (front ++ child :: back).map Tree.root := by
          cases holds with
          | node _ _ roots => exact roots
        have lengths := congrArg List.length roots
        simp only [List.length_cons, List.length_nil, List.length_map, List.length_append] at lengths ⊢
        omega
      exact node_member_place two runs spared delays.value
    case identifier => cases shaped
    all_goals cases assignable

end Delays

end Execution.Machine

end Unflatten
