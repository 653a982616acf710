import Unflatten.Proofs.Binding.Respelling
import Unflatten.Proofs.Dispatch.KnownKeys

/-! # A program with other names

Writing texts into identifiers leaves the tree of a program as it is, and with it what is known of
the keys. -/

set_option autoImplicit false

namespace Unflatten

namespace Shape

variable (text : String) (shape : Shape)

@[simp] theorem quietSlots_spell : (shape.spell text).quietSlots = shape.quietSlots := by
  cases shape <;> rfl

@[simp] theorem bodySlots_spell : (shape.spell text).bodySlots = shape.bodySlots := by
  cases shape <;> rfl

@[simp] theorem isHollow_spell : (shape.spell text).isHollow = shape.isHollow := by
  cases shape <;> rfl

theorem isRegular_spell (regular : shape.IsRegular) : (shape.spell text).IsRegular := by
  rw [IsRegular, children_spell, slots_spell]
  exact regular

end Shape

namespace Tree

mutual

/-- The tree with other texts in its identifiers. -/
def spell (text : NodeId → String) : Tree → Tree
  | .nothing => .nothing
  | .node id shape below => .node id (shape.spell (text id)) (spellAll text below)

/-- The trees with other texts in their identifiers. -/
def spellAll (text : NodeId → String) : List Tree → List Tree
  | [] => []
  | tree :: rest => tree.spell text :: spellAll text rest

end

section Spelling
variable (text : NodeId → String) (tree : Tree)

theorem spellAll_eq (trees : List Tree) : spellAll text trees = trees.map (spell text) := by
  induction trees with
  | nil => rfl
  | cons tree rest ih => rw [spellAll, ih, List.map_cons]

@[simp] theorem root_spell : (tree.spell text).root = tree.root := by
  cases tree <;> rfl

@[simp] theorem names_spell : (tree.spell text).names = tree.names := by
  induction tree with
  | nothing => rfl
  | node id shape below ih =>
    rw [spell, names, names, spellAll_eq, namesAll_eq, namesAll_eq, List.flatMap_map]
    exact congrArg _ (List.flatMap_congr fun child member => ih child member)

end Spelling

end Tree

namespace Store

section Respelled
variable {store : Store} {root id loop body prelude : NodeId} {tree : Tree}
  (text : NodeId → String)

theorem Holds.respell (holds : store.Holds tree) : (store.respell text).Holds (tree.spell text) := by
  induction holds with
  | nothing => exact .nothing
  | @node id shape below found regular roots links inner ih =>
    rw [Tree.spell, Tree.spellAll_eq]
    refine .node (by rw [shape?_respell, found, Option.map_some]) (shape.isRegular_spell _ regular) ?_ ?_ ?_
    · rw [Shape.slots_spell, roots, List.map_map]
      exact List.map_congr_left fun child _ => (child.root_spell text).symm
    · intro child member present
      obtain ⟨before, there, rfl⟩ := List.mem_map.mp member
      rw [Tree.root_spell] at present ⊢
      rw [parent_respell]
      exact links before there present
    · intro child member
      obtain ⟨before, there, rfl⟩ := List.mem_map.mp member
      exact ih before there

theorem exists_shape?_respell {shape : Shape}
    (found : (store.respell text).shape? (some id) = some shape) :
    ∃ before, store.shape? (some id) = some before ∧ shape = before.spell (text id) := by
  rw [shape?_respell] at found
  obtain ⟨before, there, rfl⟩ := Option.map_eq_some_iff.mp found
  exact ⟨before, there, rfl⟩

/-- Nothing but identifiers changes. -/
theorem shape?_of_respell {shape : Shape}
    (found : (store.respell text).shape? (some id) = some shape)
    (other : ∀ word, shape ≠ .identifier word) : store.shape? (some id) = some shape := by
  obtain ⟨before, there, same⟩ := exists_shape?_respell text found
  rw [there, same]
  cases before
  case identifier => exact absurd same (other _)
  all_goals rfl

theorem satisfies_respell {test : Shape → Bool}
    (byKind : ∀ first second : Shape, first.kind = second.kind → test first = test second) :
    (store.respell text).satisfies (some id) test = store.satisfies (some id) test := by
  rw [satisfies, satisfies, shape?_respell]
  cases store.shape? (some id) with
  | none => rfl
  | some shape => exact byKind _ _ (shape.kind_spell _)

theorem HasTrueLinks.respell (links : store.HasTrueLinks) : (store.respell text).HasTrueLinks := by
  intro child parent linked
  rw [parent_respell] at linked
  obtain ⟨shape, found, listed⟩ := links child parent linked
  exact ⟨shape.spell (text parent), by rw [shape?_respell, found, Option.map_some],
    by rwa [Shape.slots_spell]⟩

theorem IsTidy.respell (tidy : store.IsTidy) : (store.respell text).IsTidy := by
  intro id shape found
  obtain ⟨before, there, rfl⟩ := exists_shape?_respell text found
  obtain ⟨quiet, bodied, full, regular⟩ := tidy id before there
  refine ⟨fun child listed => ?_, fun child listed => ?_, ?_, Shape.isRegular_spell _ _ regular⟩
  · rw [Shape.quietSlots_spell] at listed
    rw [satisfies_respell text isQuiet_byKind]
    exact quiet child listed
  · rw [Shape.bodySlots_spell] at listed
    rw [satisfies_respell text isBody_byKind]
    exact bodied child listed
  · rw [Shape.isHollow_spell]
    exact full

theorem Stands.respell (stands : store.Stands root tree) :
    (store.respell text).Stands root (tree.spell text) where
  holds := stands.holds.respell text
  rooted := by rw [Tree.root_spell]; exact stands.rooted
  nodup := by rw [Tree.names_spell]; exact stands.nodup
  top := by rw [parent_respell]; exact stands.top
  links := stands.links.respell text
  tidy := stands.tidy.respell text
  file := by rw [kind?_respell]; exact stands.file

theorem hasBody_respell : (store.respell text).HasBody loop body ↔ store.HasBody loop body := by
  constructor
  · rintro ⟨kind, initializer, condition, incrementor, found⟩
    exact ⟨kind, initializer, condition, incrementor,
      shape?_of_respell text found fun _ => Shape.noConfusion⟩
  · rintro ⟨kind, initializer, condition, incrementor, found⟩
    exact ⟨kind, initializer, condition, incrementor, by rw [shape?_respell, found]; rfl⟩

theorem IsFramed.respell (framed : store.IsFramed loop prelude) :
    (store.respell text).IsFramed loop prelude := by
  obtain ⟨body, hasBody, slots, found, steady, short⟩ := framed
  refine ⟨body, (hasBody_respell text).mpr hasBody, slots, by rw [shape?_respell, found]; rfl,
    fun statement member => ?_, short.imp_right fun ⟨dispatcher, listed, kind⟩ =>
      ⟨dispatcher, listed, by rw [kind?_respell]; exact kind⟩⟩
  have passes := steady statement member
  cases statement with
  | none => cases passes
  | some id =>
    rw [satisfies_respell text isSteady_byKind]
    exact passes

end Respelled

end Store

open Store

/-- What is known of a key stays true. -/
theorem Known.respell {store : Store} {tree : Tree} {key : DispatchKey} (known : Known store tree key)
    (text : NodeId → String) :
    Known (store.respell text) (tree.spell text) key where
  loop := by rw [size_respell]; exact known.loop
  declaration := by rw [size_respell]; exact known.declaration
  place := known.place
  declares prelude given := by rw [kind?_respell]; exact known.declares prelude given
  framed isOpen inside prelude given := by
    rw [Tree.names_spell] at inside
    exact (known.framed isOpen inside prelude given).respell text
  spent gone body hasBody := by
    rw [Tree.names_spell] at gone ⊢
    obtain ⟨bound, outside, statements⟩ :=
      known.spent gone body ((hasBody_respell text).mp hasBody)
    refine ⟨by rw [size_respell]; exact bound, outside, fun statement listed => ?_⟩
    rw [statementsOf, statements?_respell] at listed
    obtain ⟨old, dispatches⟩ := statements statement listed
    refine ⟨by rw [size_respell]; exact old, fun selects => dispatches ?_⟩
    rw [isSwitch_iff, kind?_respell] at selects
    exact isSwitch_iff.mpr selects
  emptied list linked gone isStatement declarations found child listed := by
    rw [parent_respell] at linked
    rw [Tree.names_spell] at gone ⊢
    rw [size_respell]
    exact known.emptied list linked gone isStatement declarations
      (shape?_of_respell text found fun _ => Shape.noConfusion) child listed

end Unflatten
