import Unflatten.Proofs.Syntax.Guarding

/-! # Spared nodes

An edit of one part of a store spares the nodes outside that part: each keeps its shape, its
marks, its place and its parent.  Copying spares every node there is. -/

set_option autoImplicit false

namespace Unflatten

namespace Store

/-- All nodes that differ belong to some part of the store. -/
def Spares (own : NodeId → Prop) (store later : Store) : Prop :=
  ∀ id, ¬ own id → later.nodes[id]? = store.nodes[id]?

section Spares
variable {own : NodeId → Prop} {store middle later : Store} {id parent : NodeId} {slot : Slot}
  {slots : List Slot} {shape : Shape}

theorem Spares.refl (store : Store) : Spares own store store := fun _ _ => rfl

theorem Spares.trans (first : Spares own store middle) (second : Spares own middle later) :
    Spares own store later := fun id outside => (second id outside).trans (first id outside)

theorem spares_setParent (inside : ∀ id, slot = some id → own id) (parent : Slot) :
    Spares own store (store.setParent slot parent) := by
  intro id outside
  cases slot with
  | none => rfl
  | some child =>
    have other : child ≠ id := by
      rintro rfl
      exact outside (inside child rfl)
    simp only [setParent, Array.getElem?_modify, if_neg other]

theorem spares_setParents (inside : ∀ slot ∈ slots, ∀ id, slot = some id → own id) (parent : Slot) :
    Spares own store (store.setParents slots parent) := by
  unfold setParents
  induction slots generalizing store with
  | nil => exact .refl store
  | cons first rest ih =>
    rw [List.foldl_cons]
    exact (spares_setParent (inside first List.mem_cons_self) parent).trans
      (ih fun other member => inside other (List.mem_cons_of_mem first member))

theorem spares_release (inside : ∀ id, slot = some id → own id) (parent : NodeId) :
    Spares own store (store.release slot parent) := by
  unfold release
  split
  · exact spares_setParent inside none
  · exact .refl store

theorem spares_releaseAll (inside : ∀ slot ∈ slots, ∀ id, slot = some id → own id)
    (parent : NodeId) : Spares own store (store.releaseAll slots parent) := by
  unfold releaseAll
  induction slots generalizing store with
  | nil => exact .refl store
  | cons first rest ih =>
    rw [List.foldl_cons]
    exact (spares_release (inside first List.mem_cons_self) parent).trans
      (ih fun other member => inside other (List.mem_cons_of_mem first member))

theorem spares_setShape (inside : own id) (shape : Shape) :
    Spares own store (store.setShape id shape) := by
  intro other outside
  have apart : id ≠ other := by
    rintro rfl
    exact outside inside
  simp only [setShape, Array.getElem?_modify, if_neg apart]

theorem spares_push (fresh : ∀ id, store.nodes.size ≤ id → own id) (shape : Shape) (flags : Flags)
    (start stop : Nat) : Spares own store (store.push shape flags start stop).1 := by
  intro id outside
  have other : id ≠ store.nodes.size := by
    rintro rfl
    exact outside (fresh _ (Nat.le_refl _))
  simp only [push, Array.getElem?_push, if_neg other]

theorem spares_make (fresh : ∀ id, store.nodes.size ≤ id → own id)
    (inside : ∀ slot ∈ shape.slots, ∀ id, slot = some id → own id) :
    Spares own store (store.make shape).1 :=
  (spares_push fresh shape _ _ _).trans (spares_setParents inside _)

theorem spares_makeBreak (fresh : ∀ id, store.nodes.size ≤ id → own id) :
    Spares own store store.makeBreak.1 := by
  refine spares_make fresh fun slot member id same => ?_
  rw [List.mem_singleton.mp member] at same
  cases same

/-- A container of the part gets other statements of the part. -/
theorem spares_setStatements {names : List String} (guarded : Guarded names own store)
    (inside : ∀ id, slot = some id → own id)
    (insideNew : ∀ statement ∈ slots, ∀ id, statement = some id → own id) :
    Spares own store (store.setStatements slot slots).1 := by
  unfold setStatements
  split
  · rename_i container shape found
    split
    · rename_i removed changed had _
      have insideOld : ∀ statement ∈ removed, ∀ id, statement = some id → own id := by
        rintro _ member id rfl
        exact (guarded.slots container shape id (inside container rfl) found
          (Shape.statements?_subset had member)).1
      exact ((spares_setShape (inside container rfl) changed).trans
        (spares_releaseAll insideOld container)).trans (spares_setParents insideNew _)
    · exact .refl store
  · exact .refl store

end Spares

/-! ## Copies -/

section Copies
variable {store later : Store} {depth : Nat} {ids : List NodeId}

/-- Only nodes beyond those of a store differ from it. -/
abbrev Sustains (store later : Store) : Prop := Spares (store.nodes.size ≤ ·) store later

theorem Sustains.size (sustains : Sustains store later) : store.nodes.size ≤ later.nodes.size := by
  by_contra less
  have bound : later.nodes.size < store.nodes.size := Nat.lt_of_not_le less
  have same := sustains later.nodes.size (Nat.not_le_of_lt bound)
  rw [Array.getElem?_eq_none (Nat.le_refl _), Array.getElem?_eq_getElem bound] at same
  cases same

theorem Sustains.trans {middle : Store} (first : Sustains store middle)
    (second : Sustains middle later) : Sustains store later := by
  intro id old
  refine (second id fun beyond => old ?_).trans (first id old)
  exact Nat.le_trans first.size beyond

theorem Sustains.shape? (sustains : Sustains store later) {id : NodeId} {shape : Shape}
    (found : store.shape? (some id) = some shape) : later.shape? (some id) = some shape := by
  have same := sustains id (Nat.not_le_of_lt (lt_size_of_shape? found))
  simp only [Store.shape?, node?, Option.bind_some] at found ⊢
  rw [same, found]

/-- Copies made one after the other: each node has one, which is new. -/
structure CopiesOf (store later : Store) (ids : List NodeId) (copies : List (NodeId × Slot)) :
    Prop where
  sustains : Sustains store later
  fresh : ∀ pair ∈ copies, ∀ copy, pair.2 = some copy → store.nodes.size ≤ copy
  all : ∀ id ∈ ids, ∃ slot, (id, slot) ∈ copies

theorem copyChildren_copiesOf {copies : List (NodeId × Slot)}
    (each : ∀ (store : Store) (id : NodeId), Sustains store (store.copyTo depth id).1 ∧
      ∀ copy, (store.copyTo depth id).2 = some copy → store.nodes.size ≤ copy)
    {done : List NodeId} (before : CopiesOf store later done copies) :
    CopiesOf store (copyChildren depth ids (later, copies)).1 (done ++ ids)
      (copyChildren depth ids (later, copies)).2 := by
  induction ids generalizing later copies done with
  | nil =>
    rw [List.append_nil]
    exact before
  | cons id rest ih =>
    obtain ⟨sustains, fresh⟩ := each later id
    have next : CopiesOf store (later.copyTo depth id).1 (done ++ [id])
        ((id, (later.copyTo depth id).2) :: copies) := by
      refine ⟨before.sustains.trans sustains, fun pair member copy same => ?_, fun other member => ?_⟩
      · rcases List.mem_cons.mp member with rfl | old
        · exact Nat.le_trans before.sustains.size (fresh copy same)
        · exact before.fresh pair old copy same
      · rcases List.mem_append.mp member with old | here
        · obtain ⟨slot, listed⟩ := before.all other old
          exact ⟨slot, List.mem_cons_of_mem _ listed⟩
        · rw [List.mem_singleton.mp here]
          exact ⟨_, List.mem_cons_self⟩
    rw [List.append_cons]
    exact ih next

/-- A copied child is renamed to its copy. -/
theorem CopiesOf.fresh_renameSlot {copies : List (NodeId × Slot)}
    (copied : CopiesOf store later ids copies) {id copy : NodeId} (member : id ∈ ids)
    (renamed : renameSlot copies (some id) = some copy) : store.nodes.size ≤ copy := by
  obtain ⟨slot, listed⟩ := copied.all id member
  rw [renameSlot, Option.bind_some] at renamed
  cases looked : copies.lookup id with
  | none =>
    have absent := List.lookup_eq_none_iff.mp looked (id, slot) listed
    simp at absent
  | some found =>
    rw [looked, Option.getD_some] at renamed
    exact copied.fresh _ (mem_of_lookup looked) copy renamed

theorem copyTo_sustains (store : Store) (depth : Nat) (id : NodeId) :
    Sustains store (store.copyTo depth id).1 ∧
      ∀ copy, (store.copyTo depth id).2 = some copy → store.nodes.size ≤ copy := by
  induction depth generalizing store id with
  | zero => exact ⟨.refl store, fun copy impossible => by cases impossible⟩
  | succ depth ih =>
    cases found : store.shape? (some id) with
    | none =>
      have nothing : store.node? (some id) = none := Option.map_eq_none_iff.mp found
      have childless : store.children id = [] := by simp [children, found]
      rw [copyTo, childless]
      simp only [List.foldl_nil, nothing]
      exact ⟨.refl store, fun copy impossible => by cases impossible⟩
    | some shape =>
      have copied := @copyChildren_copiesOf store store depth shape.children [] ih []
        ⟨.refl store, List.forall_mem_nil _, List.forall_mem_nil _⟩
      generalize folded : copyChildren depth shape.children (store, []) = result at copied
      obtain ⟨later, copies⟩ := result
      have kept := copied.sustains.shape? found
      obtain ⟨flags, start, stop, unfolded⟩ := copyTo_succ store later depth id found folded kept
      rw [unfolded]
      have grows : store.nodes.size ≤ later.nodes.size := copied.sustains.size
      have fresh : ∀ id, later.nodes.size ≤ id → store.nodes.size ≤ id :=
        fun _ beyond => Nat.le_trans grows beyond
      generalize renamed : shape.withSlots (shape.slots.map (renameSlot copies)) = made
      have inside : ∀ slot ∈ made.children.map some, ∀ id, slot = some id →
          store.nodes.size ≤ id := by
        rintro _ member id rfl
        obtain ⟨_, listed, same⟩ := List.mem_map.mp member
        cases same
        rw [← renamed, children_renamed] at listed
        obtain ⟨child, visible, same⟩ := List.mem_filterMap.mp listed
        exact copied.fresh_renameSlot visible same
      refine ⟨?_, fun copy same => by cases same; exact grows⟩
      exact (Spares.trans copied.sustains (spares_push fresh made flags start stop)).trans
        (spares_setParents inside _)

theorem copy_sustains (store : Store) (slot : Slot) : Sustains store (store.copy slot).1 := by
  cases slot with
  | none => exact .refl store
  | some id => exact (copyTo_sustains store store.depthBound id).1

theorem copyAll_sustains (store : Store) (slots : List Slot) :
    Sustains store (store.copyAll slots).1 := by
  have onto : ∀ (done : List Slot) (later : Store), Sustains store later →
      Sustains store (copyOnto slots (later, done)).1 := by
    induction slots with
    | nil => exact fun _ _ sustains => sustains
    | cons slot rest ih =>
      exact fun done later sustains => ih _ _ (sustains.trans (copy_sustains later slot))
  exact onto [] store (.refl store)

end Copies

end Store

end Unflatten
