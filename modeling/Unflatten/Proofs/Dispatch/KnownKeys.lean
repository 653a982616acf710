import Unflatten.Proofs.Dispatch.Collapsing

/-! # What stays true of a key

A key is found once and taken on later, when other passes have been at work on its loop.  What was
found out then is still true: a loop that can be taken on has kept its form as long as it is in the
program, and neither a `switch` nor a declaration of it has come back into the program without it.

That holds also where the edit is of a node that has left the program: a key is removed with its
declaration wherever that is. -/

set_option autoImplicit false

namespace Unflatten

open Store

/-- A key that can still be taken on. -/
def DispatchKey.IsOpen (key : DispatchKey) : Prop :=
  key.isVisited = false ∧ key.obstacle = none ∧ key.histogram.isEmpty = false

/-- What is true of a key at all times. -/
structure Known (store : Store) (tree : Tree) (key : DispatchKey) : Prop where
  loop : key.loop < store.nodes.size
  declaration : key.declaration < store.nodes.size
  place : key.place = key.prelude.toList.length
  declares : ∀ prelude, key.prelude = some prelude →
    store.kind? (some prelude) = some .variableStatement
  framed : key.IsOpen → key.loop ∈ tree.names → ∀ prelude,
    key.prelude = none ∨ key.prelude = some prelude → store.IsFramed key.loop prelude
  spent : key.loop ∉ tree.names → store.IsSpent tree.names key.loop
  emptied : ∀ list, store.parent (some key.declaration) = some list → list ∉ tree.names →
    store.IsEmptied tree.names list

/-- One tree of a program becomes another, and what is known of keys stays true. -/
structure Proceeds (store later : Store) (root : NodeId) (tree remade : Tree) : Prop where
  stands : later.Stands root remade
  needs : tree.NeedsNoMore remade
  known : ∀ {key : DispatchKey}, Known store tree key → Known later remade key

section Known
variable {store middle later : Store} {root id : NodeId} {tree remade other : Tree}
  {key : DispatchKey} {shape changed : Shape} {removed new : List Slot}

theorem Proceeds.refl (stands : store.Stands root tree) : Proceeds store store root tree tree :=
  ⟨stands, .refl tree, fun known => known⟩

theorem Proceeds.trans (first : Proceeds store middle root tree remade)
    (second : Proceeds middle later root remade other) : Proceeds store later root tree other :=
  ⟨second.stands, first.needs.trans second.needs, fun known => second.known (first.known known)⟩

theorem namesAll_singleton (tree : Tree) : Tree.namesAll [tree] = tree.names := by
  rw [Tree.namesAll, Tree.namesAll, List.append_nil]

/-- A remade tree proceeds. -/
theorem Store.Stands.proceeds (stands : store.Stands root tree)
    (remakes : Remakes store later tree remade []) : Proceeds store later root tree remade := by
  have rebuilds := remakes.rebuilds
  have size := rebuilds.touches.size
  have names := rebuilds.names
  have emptied := rebuilds.emptied
  have spent := rebuilds.spent
  have framed := rebuilds.framed
  have touches := rebuilds.touches
  rw [namesAll_singleton] at touches
  simp only [namesAll_singleton] at names emptied spent framed
  refine ⟨stands.remade remakes, remakes.needs, fun {key} known => ?_⟩
  have still : ∀ {id}, id < store.nodes.size → id ∈ remade.names → id ∈ tree.names :=
    fun old inside => (names _ inside).resolve_right (Nat.not_le_of_lt old)
  refine ⟨Nat.lt_of_lt_of_le known.loop size, Nat.lt_of_lt_of_le known.declaration size, known.place,
    fun prelude given => rebuilds.kinds _ _ (known.declares prelude given),
    fun isOpen inside prelude given => framed key.loop inside known.loop prelude
      (known.framed isOpen (still known.loop inside) prelude given),
    fun gone => ?_, fun list linked gone => ?_⟩
  · by_cases inside : key.loop ∈ tree.names
    · exact spent key.loop inside gone
    · exact (known.spent inside).carry rebuilds.kinds size known.loop inside
        (fun id old outside => touches.shape id old outside) names
  · by_cases inside : list ∈ tree.names ∨ store.nodes.size ≤ list
    · exact emptied stands.links list inside gone key.declaration known.declaration linked
    · rw [not_or] at inside
      have before := (rebuilds.adopters key.declaration list known.declaration linked).resolve_right
        (by rw [namesAll_singleton, not_or]; exact inside)
      have old := Nat.lt_of_not_le inside.2
      intro isStatement declarations found child listed
      rw [touches.shape list old inside.1] at found
      obtain ⟨bound, outside⟩ := known.emptied list before inside.1 isStatement declarations found child
        listed
      exact ⟨Nat.lt_of_lt_of_le bound size, fun there => outside (still bound there)⟩

/-- What an edit of a node outside the program must answer for. -/
structure Trims (store : Store) (tree : Tree) (shape changed : Shape) (removed new : List Slot) :
    Prop where
  kind : changed.kind = shape.kind
  noLoop : changed.isLoop = false
  fewer : changed.slots ⊆ shape.slots
  statements : changed.statements?.getD [] ⊆ shape.statements?.getD []
  kept : ∀ slot ∈ shape.slots, slot ∈ changed.slots ∨ slot ∈ removed
  come : new ⊆ changed.slots
  answers : store.IsTidy → store.Admits changed
  apart : new = [] ∨ ∀ child, some child ∈ changed.slots →
    child < store.nodes.size ∧ child ∉ tree.names

/-- A node outside the program is edited. -/
theorem Store.Stands.aside (stands : store.Stands root tree)
    (found : store.shape? (some id) = some shape) (outside : id ∉ tree.names)
    (reshapes : Reshapes store later id changed removed new)
    (trims : Trims store tree shape changed removed new) : Proceeds store later root tree tree := by
  have kinds := reshapes.keepsKinds found trims.kind
  have same : ∀ {other}, other ∈ tree.names → later.shape? (some other) = store.shape? (some other) := by
    intro other inside
    rw [reshapes.shapes, if_neg]
    rintro rfl
    exact outside inside
  have notNew : ∀ {child}, child ∈ tree.names → some child ∉ new := by
    intro child inside member
    rcases trims.apart with none | apart
    · rw [none] at member
      cases member
    · exact (apart child (trims.come member)).2 inside
  have rootInside := Tree.mem_names_root stands.rooted
  refine ⟨⟨stands.holds.transfer (fun other inside => same inside) fun child inside => ?_,
    stands.rooted, stands.nodup, ?_, ?_, ?_, kinds _ _ stands.file⟩, .refl tree, fun {key} known => ?_⟩
  · -- the parent of what lies deeper in the program belongs to it
    have within := tree.inner_subset inside
    rw [reshapes.parents child (stands.holds.lt_size within), if_neg (notNew within), if_neg]
    rintro ⟨-, linked⟩
    obtain ⟨parent, there, also⟩ := stands.holds.parent_mem inside
    rw [linked] at also
    cases also
    exact outside there
  · rw [reshapes.parents root (stands.holds.lt_size rootInside), if_neg (notNew rootInside)]
    split
    · rfl
    · exact stands.top
  · exact reshapes.hasTrueLinks found trims.kept trims.come stands.links
  · exact reshapes.isTidy kinds stands.tidy (trims.answers stands.tidy)
  · refine ⟨by rw [reshapes.size]; exact known.loop, by rw [reshapes.size]; exact known.declaration,
      known.place, fun prelude given => kinds _ _ (known.declares prelude given),
      fun isOpen inside prelude given => ?_, fun gone body hasBody => ?_, fun list linked gone => ?_⟩
    · refine (known.framed isOpen inside prelude given).carry kinds fun body hasBody => ?_
      have there := (stands.holds.hasBody_mem inside hasBody).1
      obtain ⟨kind, initializer, condition, incrementor, shaped⟩ := hasBody
      exact ⟨⟨kind, initializer, condition, incrementor, (same inside).trans shaped⟩, same there⟩
    · obtain ⟨kind, initializer, condition, incrementor, shaped⟩ := hasBody
      have before : store.HasBody key.loop body := by
        rw [reshapes.shapes] at shaped
        split at shaped
        · cases shaped
          cases trims.noLoop
        · exact ⟨kind, initializer, condition, incrementor, shaped⟩
      obtain ⟨bound, absent, statements⟩ := known.spent gone body before
      refine ⟨by rw [reshapes.size]; exact bound, absent, fun statement listed => ?_⟩
      have listedBefore : some statement ∈ store.statementsOf (some body) := by
        rw [statementsOf, statements?, reshapes.shapes] at listed
        by_cases edited : body = id
        · rw [if_pos edited] at listed
          rw [statementsOf, statements?, edited, found]
          exact trims.statements listed
        · rw [if_neg edited] at listed
          exact listed
      obtain ⟨old, dispatches⟩ := statements statement listedBefore
      exact ⟨by rw [reshapes.size]; exact old, fun selects =>
        dispatches (kinds.isSwitch_before old selects)⟩
    · rw [reshapes.parents key.declaration known.declaration] at linked
      intro isStatement declarations shaped child listed
      rw [reshapes.size]
      by_cases edited : list = id
      · rw [reshapes.shapes, if_pos edited] at shaped
        cases shaped
        by_cases come : some key.declaration ∈ new
        · rcases trims.apart with none | apart
          · rw [none] at come
            cases come
          · exact apart child listed
        · rw [if_neg come] at linked
          split at linked
          · cases linked
          · -- the list had more declarations before
            obtain ⟨declared, shape_eq⟩ : ∃ declared, shape = .declarationList isStatement declared := by
              have kind := trims.kind
              cases isStatement <;> fun_cases Shape.kind shape <;>
                simp_all [Shape.kind]
            rw [edited] at linked
            rw [shape_eq] at found
            exact known.emptied id linked outside isStatement declared found child
              (by have slots := trims.fewer listed; rwa [shape_eq] at slots)
      · rw [reshapes.shapes, if_neg edited] at shaped
        split at linked
        · cases linked
          exact absurd rfl edited
        · split at linked
          · cases linked
          · exact known.emptied list linked gone isStatement declarations shaped child listed

end Known

end Unflatten
