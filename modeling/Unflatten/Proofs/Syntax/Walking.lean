import Unflatten.Parser.Statement
import Unflatten.Proofs.Syntax.Branching
import Unflatten.Syntax.Walk

/-! # Walks that come to an end

A walk takes each item off its stack with all that comes of it before it gets to the items below
(`Walk.Finds`): whatever lies on the stack waits and is gone through afterwards.  So a walk that
comes to an end below each item finds what a recursion over the items finds.  The walk down has an
answer exactly if all ways down end (`Store.walkDown_isSome_iff`).

Where the nodes under a slot are a tree, the walks down and up come to an end with the two orders of
the tree, and both list every node once (`Store.walks_list_tree`). -/

set_option autoImplicit false

namespace Unflatten

namespace Walk

/-- The walk goes through some items and all that comes of them, and this is what it finds. -/
inductive Finds {α β : Type} (walk : Walk α β) : List α → List β → Prop
  | nil : Finds walk [] []
  | cons {item : α} {items : List α} {below behind : List β} (inner : Finds walk (walk.next item) below)
      (others : Finds walk items behind) :
      Finds walk (item :: items) ((walk.found? item).toList ++ below ++ behind)

section Finds
variable {α β : Type} {walk : Walk α β} {items : List α} {found : List β}

/-- What lies below on the stack waits for the items to be gone through. -/
theorem Finds.loop_eq (finds : walk.Finds items found) (stack : List α) (before : Array β) :
    walk.loop (items ++ stack) before = walk.loop stack (before ++ found.toArray) := by
  induction finds generalizing stack before with
  | nil => simp
  | @cons item items below behind _ _ inner others =>
    have taken : (walk.found? item).elim before before.push =
        before ++ (walk.found? item).toList.toArray := by
      cases walk.found? item <;> simp
    rw [List.cons_append, loop, taken, inner, others]
    simp only [← List.append_toArray, Array.append_assoc]

theorem Finds.run_eq (finds : walk.Finds items found) : walk.run items = some found := by
  have ended := finds.loop_eq [] #[]
  rw [List.append_nil, loop] at ended
  simp [run, ended]

/-- One item is gone through with all that comes of it. -/
theorem Finds.single {item : α} {below : List β} (inner : walk.Finds (walk.next item) below) :
    walk.Finds [item] ((walk.found? item).toList ++ below) := by
  simpa using inner.cons .nil

theorem Finds.append {others : List α} {rest : List β} (finds : walk.Finds items found)
    (also : walk.Finds others rest) : walk.Finds (items ++ others) (found ++ rest) := by
  induction finds with
  | nil => exact also
  | cons inner _ _ ih =>
    rw [List.append_assoc]
    exact .cons inner ih

theorem Finds.split {first second : List α} (finds : walk.Finds (first ++ second) found) :
    ∃ below behind, walk.Finds first below ∧ walk.Finds second behind ∧ found = below ++ behind := by
  induction first generalizing found with
  | nil => exact ⟨[], found, .nil, finds, rfl⟩
  | cons item rest ih =>
    cases finds with
    | @cons _ _ below behind inner others =>
      obtain ⟨upper, lower, one, two, rfl⟩ := ih others
      exact ⟨_, lower, .cons inner one, two, by simp only [List.append_assoc]⟩

/-- A walk that has come to an end has gone through all items. -/
theorem loop_spec {before after : Array β} (ended : walk.loop items before = some after) :
    ∃ found, walk.Finds items found ∧ after = before ++ found.toArray := by
  refine loop.partial_correctness walk (fun items before after =>
    ∃ found, walk.Finds items found ∧ after = before ++ found.toArray) ?_ items before after ended
  intro loop goesOn items before after ended
  cases items with
  | nil =>
    cases ended
    exact ⟨[], .nil, by simp⟩
  | cons item items =>
    obtain ⟨found, finds, rfl⟩ := goesOn _ _ _ ended
    obtain ⟨below, behind, inner, others, rfl⟩ := finds.split
    refine ⟨_, inner.cons others, ?_⟩
    cases walk.found? item <;> simp

/-- What a walk finds is what there is to find from its items on, and it has no answer if there is
no end to that. -/
theorem run_eq_some_iff : walk.run items = some found ↔ walk.Finds items found := by
  refine ⟨fun ended => ?_, Finds.run_eq⟩
  obtain ⟨after, looped, rfl⟩ := Option.map_eq_some_iff.mp ended
  obtain ⟨found, finds, rfl⟩ := loop_spec looped
  simpa using finds

/-- Items are gone through one by one. -/
theorem finds_flatMap {listed : α → List β} (each : ∀ item ∈ items, walk.Finds [item] (listed item)) :
    walk.Finds items (items.flatMap listed) := by
  induction items with
  | nil => exact .nil
  | cons item rest ih =>
    rw [List.flatMap_cons, ← List.singleton_append]
    exact (each item List.mem_cons_self).append
      (ih fun other member => each other (List.mem_cons_of_mem item member))

end Finds

end Walk

namespace Store
variable {store : Store} {root : Slot} {depth : Nat} {id : NodeId}

/-! ## Walks down and up -/

theorem EndsWithin.finds_downward (ends : store.EndsWithin depth id) :
    store.downward.Finds [id] (store.preorderOnto depth id []) := by
  induction ends with
  | @node depth id _ ih =>
    rw [preorderOnto_succ]
    exact (Walk.finds_flatMap ih).single

/-- A node that was opened is listed behind its children. -/
theorem EndsWithin.finds_upward (ends : store.EndsWithin depth id) :
    store.upward.Finds [(id, false)] (store.postorderOnto depth id []) := by
  induction ends with
  | @node depth id _ ih =>
    have again : store.upward.Finds [(id, true)] [id] := Walk.Finds.nil.single
    have below : store.upward.Finds ((store.children id).map (·, false))
        (((store.children id).map (·, false)).flatMap fun item => store.postorderOnto depth item.1 []) :=
      Walk.finds_flatMap (List.forall_mem_map.mpr ih)
    rw [List.flatMap_map] at below
    rw [postorderOnto_succ]
    exact (below.append again).single

theorem endsWithin_of_finds {ids found : List NodeId} (finds : store.downward.Finds ids found) :
    ∀ id ∈ ids, ∃ depth, store.EndsWithin depth id := by
  induction finds with
  | nil => exact List.forall_mem_nil _
  | cons _ _ inner others =>
    obtain ⟨depth, below⟩ := exists_endsWithin inner
    exact List.forall_mem_cons.mpr ⟨⟨depth + 1, .node below⟩, others⟩

/-- The walk down comes to an end if all ways down do. -/
theorem walkDown_isSome_iff :
    (store.walkDown (some id)).isSome = true ↔ ∃ depth, store.EndsWithin depth id := by
  constructor
  · intro ended
    obtain ⟨found, ran⟩ := Option.isSome_iff_exists.mp ended
    exact endsWithin_of_finds (Walk.run_eq_some_iff.mp ran) id (List.mem_singleton_self id)
  · rintro ⟨depth, ends⟩
    exact Option.isSome_of_eq_some ends.finds_downward.run_eq

/-- The walk down has no answer if it comes to a node that stands below itself. -/
theorem walkDown_eq_none {top child : NodeId} (leads : store.LeadsDown top id)
    (member : child ∈ store.children id) (back : store.LeadsDown child id) :
    store.walkDown (some top) = none := by
  rw [← Option.not_isSome_iff_eq_none, walkDown_isSome_iff]
  rintro ⟨depth, ends⟩
  obtain ⟨_, below⟩ := ends.leads leads
  exact below.acyclic member back

theorem Branches.walkDown_eq (branches : store.Branches root) :
    store.walkDown root = some (store.descendants root) := by
  cases root with
  | none => exact Walk.Finds.nil.run_eq
  | some top => exact (branches.endsWithin (isUnder_some.mpr .refl)).finds_downward.run_eq

theorem Branches.walkUp_eq (branches : store.Branches root) :
    store.walkUp root = some (store.postorder root) := by
  cases root with
  | none => exact Walk.Finds.nil.run_eq
  | some top => exact (branches.endsWithin (isUnder_some.mpr .refl)).finds_upward.run_eq

/-! ## The orders as recursions -/

theorem Branches.descendants_eq (branches : store.Branches root) (under : store.IsUnder root id) :
    store.descendants (some id) =
      id :: (store.children id).flatMap fun child => store.descendants (some child) :=
  @Branches.unbounded store root id branches under (fun depth id => store.preorderOnto depth id [])
    List.cons store.preorderOnto_succ

theorem Branches.postorder_eq (branches : store.Branches root) (under : store.IsUnder root id) :
    store.postorder (some id) =
      ((store.children id).flatMap fun child => store.postorder (some child)) ++ [id] :=
  @Branches.unbounded store root id branches under (fun depth id => store.postorderOnto depth id [])
    (fun id below => below ++ [id]) store.postorderOnto_succ

/-- Where the nodes under a slot are a tree, the walks down and up come to an end.  They list what
the recursions over the children list: every node under the slot once, before all that stand below it
or behind all that stand below it. -/
theorem walks_list_tree (branches : store.Branches root) :
    store.walkDown root = some (store.descendants root) ∧
    store.walkUp root = some (store.postorder root) ∧
    (∀ id, store.IsUnder root id →
      store.descendants (some id) =
        id :: (store.children id).flatMap (fun child => store.descendants (some child)) ∧
      store.postorder (some id) =
        (store.children id).flatMap (fun child => store.postorder (some child)) ++ [id]) ∧
    ((store.descendants root).Nodup ∧ ∀ id, id ∈ store.descendants root ↔ store.IsUnder root id) ∧
    (store.postorder root).Perm (store.descendants root) ∧
    ∀ above id, store.IsUnder root above → store.LeadsDown above id → above ≠ id →
      [above, id].Sublist (store.descendants root) ∧ [id, above].Sublist (store.postorder root) := by
  refine ⟨branches.walkDown_eq, branches.walkUp_eq,
    fun id under => ⟨branches.descendants_eq under, branches.postorder_eq under⟩, ?_⟩
  cases root with
  | none =>
    refine ⟨⟨.nil, fun id => by simp [descendants, IsUnder]⟩, .refl _, fun above id under => ?_⟩
    simp [IsUnder] at under
  | some top =>
    have under : store.IsUnder (some top) top := isUnder_some.mpr .refl
    have ends := branches.endsWithin under
    refine ⟨⟨branches.nodup_preorder under ends, fun id => ends.mem_preorder.trans isUnder_some.symm⟩,
      store.postorderOnto_perm _ top, fun above id one down apart => ?_⟩
    have leads := isUnder_some.mp one
    exact ⟨ends.before leads down apart, ends.behind leads down apart⟩

/-- A loop with a conditional in it, whose nodes are listed from both ends. -/
theorem loop_walked :
    let program := parse "while (a) { if (b) c(); else d = e; }".toList
    program.store.Branches (some program.root) ∧
      program.store.walkDown (some program.root) = some (program.store.descendants (some program.root)) ∧
      program.store.walkUp (some program.root) = some (program.store.postorder (some program.root)) := by
  intro program
  have isTree : program.store.IsTree program.root :=
    @isTree_of_isGrown _ 9 _ (by decide +kernel) (by decide +kernel)
  obtain ⟨down, up, -⟩ := walks_list_tree isTree.branches
  exact ⟨isTree.branches, down, up⟩

end Store

end Unflatten
