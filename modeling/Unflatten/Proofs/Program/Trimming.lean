import Unflatten.Proofs.Program.Passes

/-! # Lists that get shorter

A removal takes statements or declarations out of the lists in which they stand and leaves every other
node as it is (`Store.Trims`).  So nothing is referred to afterwards that was not before
(`Store.Trims.references_subset`), and what is lost lies below something that was taken out
(`Store.Sheds`). -/

set_option autoImplicit false

namespace Unflatten

/-- A node keeps some of its statements or declarations. -/
inductive Shape.Trims : Shape → Shape → Prop
  | same (shape : Shape) : Trims shape shape
  | file (source : Source) {all few : List Slot} (fewer : few.Sublist all) :
      Trims (.file source all) (.file source few)
  | block {all few : List Slot} (fewer : few.Sublist all) : Trims (.block all) (.block few)
  | clause (isDefault : Bool) (label : Slot) {all few : List Slot} (fewer : few.Sublist all) :
      Trims (.clause isDefault label all) (.clause isDefault label few)
  | declarationList (isStatement : Bool) {all few : List Slot} (fewer : few.Sublist all) :
      Trims (.declarationList isStatement all) (.declarationList isStatement few)

namespace Shape
variable {shape middle changed : Shape} {all few : List Slot}

theorem Trims.trans (first : shape.Trims middle) (second : middle.Trims changed) :
    shape.Trims changed := by
  cases first with
  | same => exact second
  | file source fewer =>
    cases second with
    | same => exact .file source fewer
    | file _ further => exact .file source (further.trans fewer)
  | block fewer =>
    cases second with
    | same => exact .block fewer
    | block further => exact .block (further.trans fewer)
  | clause isDefault label fewer =>
    cases second with
    | same => exact .clause isDefault label fewer
    | clause _ _ further => exact .clause isDefault label (further.trans fewer)
  | declarationList isStatement fewer =>
    cases second with
    | same => exact .declarationList isStatement fewer
    | declarationList _ further => exact .declarationList isStatement (further.trans fewer)

theorem Trims.slots_subset (trims : shape.Trims changed) : changed.slots ⊆ shape.slots := by
  cases trims with
  | same => exact List.Subset.refl _
  | file _ fewer | block fewer | declarationList _ fewer => exact fewer.subset
  | clause _ _ fewer => exact List.cons_subset_cons _ fewer.subset

end Shape

namespace Store

/-- Lists get shorter, and all other nodes stay as they are. -/
def Trims (store later : Store) : Prop :=
  ∀ id : NodeId, Option.Rel Shape.Trims (store.shape? (some id)) (later.shape? (some id))

section Trimming
variable {store middle later : Store} {root id child : NodeId} {tree remade : Tree}
  {shape changed : Shape} {removed new : List Slot} {name : String}

theorem Trims.refl (store : Store) : store.Trims store := by
  intro id
  generalize store.shape? (some id) = shape
  cases shape with
  | none => exact .none
  | some shape => exact .some (.same shape)

theorem Trims.trans (first : store.Trims middle) (second : middle.Trims later) : store.Trims later := by
  intro id
  have one := first id
  have other := second id
  generalize store.shape? (some id) = before at one ⊢
  generalize middle.shape? (some id) = between at one other
  generalize later.shape? (some id) = after at other ⊢
  cases one with
  | none => exact other
  | some trims =>
    cases other with
    | some further => exact .some (trims.trans further)

theorem Reshapes.trims (reshapes : Reshapes store later id changed removed new)
    (found : store.shape? (some id) = some shape) (trims : shape.Trims changed) : store.Trims later := by
  intro other
  rw [reshapes.shapes]
  split
  · rename_i same
    subst same
    rw [found]
    exact .some trims
  · exact Trims.refl store other

theorem Trims.slotsOf_subset (trims : store.Trims later) (id : NodeId) :
    later.slotsOf id ⊆ store.slotsOf id := by
  have same := trims id
  unfold slotsOf
  generalize store.shape? (some id) = before at same
  generalize later.shape? (some id) = after at same
  cases same with
  | none => exact List.Subset.refl _
  | some trims => exact trims.slots_subset

theorem Trims.reaches (trims : store.Trims later) {top : NodeId} (reaches : later.Reaches top id) :
    store.Reaches top id := by
  induction reaches with
  | root => exact .root
  | child _ listed ih => exact .child ih (trims.slotsOf_subset _ listed)

/-- What is lost lies below something that was taken out of a list. -/
theorem exists_cut (later : Store) (reaches : store.Reaches root id) : later.Reaches root id ∨
    ∃ top parent, some top ∈ store.slotsOf parent ∧ some top ∉ later.slotsOf parent ∧
      store.Reaches top id := by
  -- the first step down that is not there any more is the cut
  induction reaches with
  | root => exact .inl .root
  | @child parent child _ listed ih =>
    rcases ih with still | ⟨top, above, before, after, below⟩
    · by_cases kept : some child ∈ later.slotsOf parent
      · exact .inl (.child still kept)
      · exact .inr ⟨child, parent, listed, kept, .root⟩
    · exact .inr ⟨top, above, before, after, .child below listed⟩

/-- What is below a node is the node or below one of its slots. -/
theorem Reaches.eq_or_deeper (reaches : store.Reaches root id) :
    id = root ∨ ∃ child, some child ∈ store.slotsOf root ∧ store.Reaches child id := by
  induction reaches with
  | root => exact .inl rfl
  | child _ listed ih =>
    rcases ih with rfl | ⟨first, among, deeper⟩
    · exact .inr ⟨_, listed, .root⟩
    · exact .inr ⟨first, among, .child deeper listed⟩

theorem Trims.identifier?_eq (trims : store.Trims later) (slot : Slot) :
    later.identifier? slot = store.identifier? slot := by
  cases slot with
  | none => rfl
  | some id =>
    have same := trims id
    unfold identifier?
    generalize store.shape? (some id) = before at same
    generalize later.shape? (some id) = after at same
    cases same with
    | none => rfl
    | some trims => cases trims <;> rfl

theorem Stands.mem_references (stands : store.Stands root tree) :
    id ∈ store.references (some root) name ↔ store.Reaches root id ∧
      store.isIdentifier (some id) name = true ∧ store.isReference id = true ∧
        store.isDeclarationName id = false := by
  rw [references, List.mem_filter, stands.reaches_iff, ← stands.rooted,
    (stands.holds.descendants_perm stands.nodup).mem_iff, Bool.and_eq_true, Bool.and_eq_true,
    Bool.not_eq_true', and_assoc]

theorem Stands.reaches_parent (stands : store.Stands root tree) (reaches : store.Reaches root id)
    {parent : NodeId} (linked : store.parent (some id) = some parent) : store.Reaches root parent :=
  stands.reaches_iff.mpr (stands.parent_mem (stands.reaches_iff.mp reaches) linked).1

end Trimming

/-! ## Losses -/

/-- Lists get shorter, and each identifier that is lost lies below something that has gone. -/
structure Sheds (store later : Store) (root : NodeId) (gone : NodeId → Prop) : Prop where
  trims : store.Trims later
  lost : ∀ id, store.Reaches root id → (store.identifier? (some id)).isSome = true →
    later.Reaches root id ∨ ∃ top, gone top ∧ store.Reaches top id

section Shedding
variable {store middle later : Store} {root id container list declaration : NodeId}
  {tree remade : Tree} {shape changed : Shape} {removed new front back declarations : List Slot}
  {gone other : NodeId → Prop} {statement : Slot} {name : String}

theorem Sheds.refl (store : Store) (root : NodeId) (gone : NodeId → Prop) :
    Sheds store store root gone :=
  ⟨.refl store, fun _ reaches _ => .inl reaches⟩

theorem Sheds.mono (sheds : Sheds store later root gone) (more : ∀ top, gone top → other top) :
    Sheds store later root other :=
  ⟨sheds.trims, fun id reaches spelled => (sheds.lost id reaches spelled).imp_right
    fun ⟨top, out, below⟩ => ⟨top, more top out, below⟩⟩

theorem Sheds.trans (first : Sheds store middle root gone) (second : Sheds middle later root gone) :
    Sheds store later root gone := by
  refine ⟨first.trims.trans second.trims, fun id reaches spelled => ?_⟩
  rcases first.lost id reaches spelled with still | lost
  · rw [← first.trims.identifier?_eq] at spelled
    exact (second.lost id still spelled).imp_right
      fun ⟨top, out, below⟩ => ⟨top, out, first.trims.reaches below⟩
  · exact .inr lost

theorem slotsOf_eq (found : store.shape? (some id) = some shape) : store.slotsOf id = shape.slots := by
  rw [slotsOf, found]
  rfl

theorem Reshapes.sheds (reshapes : Reshapes store later id changed removed new)
    (found : store.shape? (some id) = some shape) (trims : shape.Trims changed)
    (out : ∀ top, some top ∈ shape.slots → some top ∉ changed.slots → gone top) :
    Sheds store later root gone := by
  refine ⟨reshapes.trims found trims, fun child reaches _ => ?_⟩
  refine (exists_cut later reaches).imp_right fun ⟨top, parent, before, after, below⟩ => ⟨top, ?_, below⟩
  have shaped := reshapes.shapes parent
  split at shaped
  · rename_i same
    subst same
    rw [slotsOf_eq found] at before
    rw [slotsOf_eq shaped] at after
    exact out top before after
  · rw [slotsOf, shaped] at after
    exact absurd before after

end Shedding

end Store

end Unflatten
