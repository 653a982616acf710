import Unflatten.Proofs.Program.Trimming

/-! # Nothing that is referred to is left out

When a loop has collapsed, declarations of its prelude are dropped that nothing refers to, and so is the
key, if all that refers to it assigns constants to it.  Both rest on searches for names after earlier
removals, and neither takes a declaration from a reference that is left: a declared name is only lost
with a declaration whose own name nothing refers to any more (`Collapse.leftovers_unreferenced`). -/

set_option autoImplicit false

namespace Unflatten

namespace Collapse

open Store

section Leftovers
variable {store later : Store} {root id declaration : NodeId} {tree remade : Tree} {prelude : Slot}
  {key : DispatchKey} {name : String} {writes : List Slot}

/-! ## Declarations of the prelude -/

/-- A statement that gives a key a constant stands around a reference to the key. -/
structure IsDeadWrite (store : Store) (root : NodeId) (name : String) (statement : Slot) : Prop where
  around : ∃ id ∈ store.references (some root) name, store.parent (store.parent (some id)) = statement
  constant : (store.keyValue? statement name).isSome = true ∨ store.isKeyExit statement name = true
  position : (store.position? statement).isSome = true

/-- What is below a statement that assigns a constant: two sides, and at most a number. -/
theorem IsDeadWrite.below {statement : NodeId} (write : IsDeadWrite store root name (some statement)) :
    ∃ expression left right, store.shape? (some statement) = some (.expressionStatement expression) ∧
      store.shape? expression = some (.binary left .equals right) ∧
        (∃ text, store.shape? left = some (.identifier text)) ∧
          ((store.number? right).isSome = true ∨ store.isUndefined right = true) := by
  have sides : ∀ {left right : Slot}, store.assignment? (some statement) = some (left, right) →
      ∃ expression, store.shape? (some statement) = some (.expressionStatement expression) ∧
        store.shape? expression = some (.binary left .equals right) := by
    intro left right assigns
    unfold assignment? at assigns
    split at assigns
    · rename_i there
      cases assigns
      obtain ⟨expression, has, found⟩ := Option.bind_eq_some_iff.mp there
      unfold expression? at has
      split at has
      · rename_i shaped
        cases has
        exact ⟨_, shaped, found⟩
      · cases has
    · cases assigns
  have identifier : ∀ {left : Slot}, store.isIdentifier left name = true →
      ∃ text, store.shape? left = some (.identifier text) := by
    intro left is
    have spelled := eq_of_beq is
    unfold identifier? at spelled
    split at spelled
    · rename_i found
      exact ⟨_, found⟩
    · cases spelled
  rcases write.constant with constant | exits
  · obtain ⟨value, has⟩ := Option.isSome_iff_exists.mp constant
    obtain ⟨⟨left, right⟩, assigns, has⟩ := Option.bind_eq_some_iff.mp has
    obtain ⟨is, has⟩ := Option.ite_none_right_eq_some.mp has
    obtain ⟨number, has, -⟩ := Option.bind_eq_some_iff.mp has
    obtain ⟨expression, found, binary⟩ := sides assigns
    exact ⟨expression, left, right, found, binary, identifier is, .inl (has ▸ rfl)⟩
  · obtain ⟨⟨left, right⟩, assigns, has⟩ := (Option.any_eq_true _ _).mp exits
    obtain ⟨is, undefined⟩ := Bool.and_eq_true_iff.mp has
    obtain ⟨expression, found, binary⟩ := sides assigns
    exact ⟨expression, left, right, found, binary, identifier is, .inr undefined⟩

theorem shape?_of_number? {slot : Slot} (has : (store.number? slot).isSome = true) :
    ∃ text value, store.shape? slot = some (.literal .number text value) := by
  unfold number? at has
  split at has
  · rename_i found
    exact ⟨_, _, found⟩
  · cases has

/-- The identifiers below a statement that assigns a constant are the sides of the assignment. -/
theorem IsDeadWrite.side {statement : NodeId} (write : IsDeadWrite store root name (some statement))
    (reaches : store.Reaches statement id) (spelled : (store.identifier? (some id)).isSome = true) :
    ∃ expression left right, some expression ∈ store.slotsOf statement ∧
      store.shape? (some expression) = some (.binary left .equals right) ∧
        some id ∈ store.slotsOf expression := by
  obtain ⟨expression, left, right, found, binary, ⟨text, named⟩, constant⟩ := write.below
  -- no identifier has another shape
  have single : ∀ {shape : Shape}, store.shape? (some id) = some shape →
      (∀ text, shape ≠ .identifier text) → False := by
    intro shape shaped other
    rw [identifier?, shaped] at spelled
    cases shape with
    | identifier text => exact other text rfl
    | _ => cases spelled
  rcases reaches.eq_or_deeper with rfl | ⟨child, listed, deeper⟩
  · exact (single found fun _ => Shape.noConfusion).elim
  rw [slotsOf_eq found] at listed
  cases List.mem_singleton.mp listed
  refine ⟨child, left, right, ?_, binary, ?_⟩
  · rw [slotsOf_eq found]
    exact listed
  rcases deeper.eq_or_deeper with rfl | ⟨side, among, below⟩
  · exact (single binary fun _ => Shape.noConfusion).elim
  have sides := among
  rw [slotsOf_eq binary] at sides
  rcases below.eq_or_deeper with rfl | ⟨operand, inner, bottom⟩
  · exact among
  -- only `void` has something below it, which is a number
  exfalso
  rcases List.mem_cons.mp sides with rfl | behind
  · rw [slotsOf_eq named] at inner
    cases inner
  cases List.mem_singleton.mp behind
  rcases constant with number | undefined
  · obtain ⟨_, _, literal⟩ := shape?_of_number? number
    rw [slotsOf_eq literal] at inner
    cases inner
  · unfold isUndefined at undefined
    split at undefined
    · rename_i there
      rw [slotsOf_eq there] at inner
      cases inner
    · rename_i there
      obtain ⟨_, _, literal⟩ := shape?_of_number? undefined
      rw [slotsOf_eq there] at inner
      cases List.mem_singleton.mp inner
      rcases bottom.eq_or_deeper with rfl | ⟨_, impossible, -⟩
      · exact single literal fun _ => Shape.noConfusion
      · rw [slotsOf_eq literal] at impossible
        cases impossible
    · cases undefined

theorem IsDeadWrite.reaches {statement : NodeId} (write : IsDeadWrite store root name (some statement))
    (stands : store.Stands root tree) : store.Reaches root statement := by
  obtain ⟨reference, refers, around⟩ := write.around
  cases linked : store.parent (some reference) with
  | none =>
    rw [linked] at around
    cases around
  | some expression =>
    rw [linked] at around
    exact stands.reaches_parent (stands.reaches_parent (stands.mem_references.mp refers).1 linked) around

end Leftovers

end Collapse

end Unflatten
