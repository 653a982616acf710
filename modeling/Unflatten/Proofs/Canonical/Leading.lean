import Unflatten.Proofs.Canonical.Lowering
import Unflatten.Proofs.Syntax.Reshaping

/-! # Sequences that give up all but the last item

The leading items go into a statement of their own before the statement that held them. -/

set_option autoImplicit false

namespace Unflatten

open Store

section Leading
variable {store middle later : Store} {root statement container old : NodeId}
  {tree part remade b : Tree} {shape outer : Shape} {lead front back extras : List Tree}

/-- A statement gets another one before it, made of what was taken out of it. -/
theorem Store.Stands.inserting (stands : store.Stands root tree)
    (within : Tree.Within (.node container outer (lead ++ (front ++ part :: back))) tree)
    (leading : outer.leading = lead.map Tree.root)
    (statements : outer.statements? = some ((front ++ part :: back).map Tree.root))
    (rooted : part.root = some statement) (remakes : Remakes store middle part remade (b :: extras))
    (plain : store.satisfies (some statement) Shape.isPlain = true)
    (needs : .stray ∈ part.unmet ∨ b.unmet ⊆ part.unmet) :
    ∃ whole changed,
      Remakes store (middle.insertBefore (some statement) [b.root]).1 tree whole [] ∧
      changed.withSlots [] = outer.withSlots [] ∧
      Tree.Placed (.node container outer (lead ++ (front ++ part :: back)))
        (.node container changed (lead ++ (front ++ b :: remade :: back))) tree whole := by
  have holds := stands.holds.within within
  obtain ⟨later, changed, result, same, whole⟩ := Remakes.inserting holds
    (within.nodup stands.nodup) leading statements rooted remakes plain needs
  obtain ⟨all, remakes, placed⟩ := whole.without.within_placed within stands.holds stands.nodup
  rw [result]
  exact ⟨all, changed, remakes, same, placed⟩

end Leading

namespace Canonical

variable {store : Store} {root statement sequence : NodeId} {tree : Tree} {shape : Shape}
  {items : List Tree}

/-- The leading items, in a sequence unless there is one only. -/
def gatherLeading (store : Store) (first : Slot) (more : List Slot) : Store × Slot :=
  if more.isEmpty then (store, first)
  else
    let (store, sequence) := store.make (.elements .sequence (first :: more))
    (store, some sequence)

theorem gatherLeading_rebuilds {middle : Store} {below rest : List Tree} (first : Tree)
    (more : List Tree) (work : Rebuilds store middle below (first :: more ++ rest))
    (quiet : ∀ item ∈ first :: more, middle.IsQuietAt item.root) :
    ∃ later new, gatherLeading middle first.root (more.map Tree.root) = (later, new.root) ∧
      Rebuilds store later below (new :: rest) ∧ new.unmet = Tree.unmetAll (first :: more) ∧
      middle.KeepsKinds later ∧ later.IsQuietAt new.root ∧ first.Leads more new := by
  cases more with
  | nil =>
    exact ⟨middle, first, rfl, work, by simp, .refl middle, quiet first List.mem_cons_self, rfl⟩
  | cons second others =>
    obtain ⟨later, name, result, work', needs, kinds, foundNew⟩ := work.andNode
      (.elements .sequence ((first :: second :: others).map Tree.root)) (first :: second :: others)
      rest (.refl _) rfl rfl (fun slot listed => by
        obtain ⟨item, member, rfl⟩ := List.mem_map.mp listed
        exact quiet item member) rfl
    refine ⟨later, _, ?_, work', needs, kinds, isQuietAt_of_shape? foundNew rfl, ?_⟩
    · rw [Tree.root_node, gatherLeading, if_neg (by simp), ← List.map_cons, result]
    · rw [Tree.Leads, if_neg (List.cons_ne_nil _ _)]
      exact ⟨name, rfl⟩

theorem hoistLeading_eq (store : Store) (statement : Slot) {expression : Slot} {items more : List Slot}
    {first last : Slot} (listed : sequenceItems? store expression = some items)
    (position : (store.position? statement).isSome = true) (leading : items.dropLast = first :: more)
    (ends : items.getLast? = some last) :
    hoistLeading store statement expression =
      let (store, leading) := gatherLeading store first more
      let (store, before) := store.makeExpressionStatement leading
      let (store, _) := store.insertBefore statement [some before]
      Outcome.ofEdit (store.replaceChild statement expression last) := by
  have present : (store.position? statement).isNone = false := by
    rw [← Option.not_isSome, position]
    rfl
  rw [hoistLeading, listed]
  simp only [present, leading, ends, gatherLeading]
  rfl

/-- The last item takes the place of the sequence, and a statement comes before the one that held
the sequence. -/
theorem moves_leading {middle : Store} {container name : NodeId} {outer : Shape}
    {lead front back before behind : List Tree} {inner last moved : Tree}
    (stands : store.Stands root tree)
    (within : Tree.Within (.node container outer
      (lead ++ (front ++ .node statement shape (before ++ inner :: behind) :: back))) tree)
    (leading : outer.leading = lead.map Tree.root)
    (statements : outer.statements? =
      some ((front ++ .node statement shape (before ++ inner :: behind) :: back).map Tree.root))
    (clear : shape.isClear = true)
    (plain : store.satisfies (some statement) Shape.isPlain = true)
    (rooted : inner.root = some sequence)
    {inside : Shape} (shaped : store.shape? (some sequence) = some inside)
    (innerPlain : inside.isPlain = true)
    (work : Rebuilds store middle [inner] (last :: [moved])) (movedRoot : moved.root = some name)
    (fresh : store.nodes.size ≤ name) (needsLast : last.unmet ⊆ inner.unmet)
    (needsMoved : moved.unmet ⊆ inner.unmet) (quiet : middle.IsQuietAt last.root) :
    ∃ later whole changed remade, (middle.insertBefore (some statement) [some name]).1.replaceChild
        (some statement) (some sequence) last.root = (later, true) ∧
      Remakes store later tree whole [] ∧ changed.withSlots [] = outer.withSlots [] ∧
      remade.withSlots [] = shape.withSlots [] ∧
      Tree.Placed (.node container outer
          (lead ++ (front ++ .node statement shape (before ++ inner :: behind) :: back)))
        (.node container changed (lead ++ (front ++ moved ::
          .node statement remade (before ++ last :: behind) :: back))) tree whole := by
  have holds := stands.holds.within within
  have nodup := within.nodup stands.nodup
  have member : Tree.node statement shape (before ++ inner :: behind) ∈
      lead ++ (front ++ .node statement shape (before ++ inner :: behind) :: back) := by simp
  have partHolds : store.Holds (.node statement shape (before ++ inner :: behind)) :=
    holds.within (.deeper member .whole)
  have partNodup := Tree.nodup_of_mem_namesAll (List.nodup_cons.mp nodup).2 member
  obtain ⟨later, replaces, remakes⟩ := Remakes.replacing partHolds partNodup work rooted shaped
    innerPlain (.inr needsLast) quiet.fits
  obtain ⟨whole, around, inserted, same, placed⟩ := stands.inserting within leading statements rfl
    remakes plain (.inr (by
      rw [Tree.unmet_of_isClear clear, Tree.unmetAll_append, Tree.unmetAll_cons]
      exact fun target needed =>
        List.mem_append_right _ (List.mem_append_left _ (needsMoved needed))))
  -- the program puts the new statement first and then replaces the sequence
  have absent := root_not_mem_front rfl (List.nodup_cons.mp nodup).2
    (rfl : (Tree.node statement shape (before ++ inner :: behind)).root = some statement)
  have innerMember : sequence ∈ inner.names := Tree.mem_names_root rooted
  have listed : (front ++ .node statement shape (before ++ inner :: behind) :: back).map Tree.root =
      front.map Tree.root ++ some statement :: back.map Tree.root := by
    rw [List.map_append, List.map_cons]
    rfl
  have touched : Touches store middle
      (Tree.namesAll [.node statement shape (before ++ inner :: behind)]) :=
    work.touches.mono fun id inside => by
      simp only [Tree.namesAll, Tree.names, List.append_nil] at inside ⊢
      exact List.mem_cons_of_mem _ (Tree.mem_namesAll_middle.mpr (.inr (.inl inside)))
  obtain ⟨thereMiddle, -⟩ := holds.shape?_middle nodup (by simp) touched
  obtain ⟨foundMiddle, link⟩ := partHolds.shape?_middle partNodup (by simp) work.touches
  obtain ⟨thereLater, -⟩ := holds.shape?_middle nodup (by simp)
    remakes.rebuilds.touches
  have linked : store.parent (some statement) = some container := by
    cases holds with
    | node _ _ _ links _ => exact links _ member rfl
  have position : ∀ {some' : Store}, some'.parent (some statement) = some container →
      some'.shape? (some container) = some outer →
      some'.position? (some statement) = some (container, (front.map Tree.root).length) :=
    fun linked found => position?_eq linked found (statements.trans (congrArg some listed)) absent
  have isContainer : outer.isContainer = true := by rw [Shape.isContainer, statements]; rfl
  obtain ⟨changed, changes⟩ := Shape.exists_withStatements? isContainer
    ((front.map Tree.root ++ some statement :: back.map Tree.root).take (front.map Tree.root).length
      ++ [some name] ++ (front.map Tree.root ++ some statement :: back.map Tree.root).drop
        ((front.map Tree.root).length + 0))
  have among : some sequence ∈ shape.slots := by
    cases partHolds with
    | node _ _ roots =>
      rw [roots, ← rooted]
      simp
  obtain ⟨slots, replaced⟩ := exists_replaceFirst among last.root
  have apart : container ≠ statement := by
    rintro rfl
    exact (List.nodup_cons.mp nodup).1 (Tree.mem_namesAll.mpr ⟨_, member, List.mem_cons_self⟩)
  have innerHolds : store.Holds inner := partHolds.within (.deeper (by simp) .whole)
  have notOld : name ≠ sequence := by
    rintro rfl
    exact absurd (innerHolds.lt_size innerMember) (Nat.not_lt_of_le fresh)
  have notInner : some name ≠ last.root := by
    intro same
    have both : middle.HoldsAll ([last] ++ [moved]) := work.all
    exact (holdsAll_append.mp both).2.2 name (Tree.mem_namesAll.mpr ⟨last, List.mem_singleton_self _, Tree.mem_names_root same.symm⟩)
      (Tree.mem_namesAll.mpr ⟨moved, List.mem_singleton_self _, Tree.mem_names_root movedRoot⟩)
  have commutes := insertBefore_replaceChild (position (link.trans linked) thereMiddle) foundMiddle
    thereMiddle (statements.trans (congrArg some listed)) (by simp) changes replaced apart notOld
    notInner (by
      rw [replaces]
      exact position (remakes.link.trans linked) thereLater)
  rw [replaces, ← movedRoot] at commutes
  rw [movedRoot] at commutes
  rw [movedRoot] at inserted
  exact ⟨_, whole, around, _, commutes, inserted, same, Shape.withSlots_withSlots _ _ _, placed⟩

theorem hoistLeading_reworked {rule : Rule} (stands : store.Stands root tree)
    (inside : statement ∈ tree.names) (found : store.shape? (some statement) = some shape)
    (clear : shape.isClear = true) (plain : shape.isPlain = true) (isLed : shape.isLed = true)
    (either : rule = .ifTestSequence ∨ rule = .returnSequence) {expression : Slot} {others : List Slot}
    (held : shape.slots = expression :: others) :
    store.Reworked (hoistLeading store (some statement) expression) tree rule
      ((store.position? (some statement)).isSome = true → sequenceItems? store expression = none) := by
  cases listed : sequenceItems? store expression with
  | none =>
    rw [hoistLeading, listed]
    exact .untouched nofun fun _ => rfl
  | some slots =>
  by_cases position : (store.position? (some statement)).isSome = true
  swap
  · rw [hoistLeading, listed]
    simp only [Option.isSome_iff_ne_none, ne_eq, not_not] at position
    rw [position]
    exact .untouched nofun fun impossible => nomatch impossible
  cases expression with
  | none => cases listed
  | some sequence =>
  have shaped : store.shape? (some sequence) = some (.elements .sequence slots) := by
    unfold sequenceItems? at listed
    split at listed
    · rename_i there
      cases listed
      exact there
    · cases listed
  -- the list, the statement in it, the sequence in that, and the items
  obtain ⟨container, outer, lead, front, part, back, linked, rooted, within, leading, statements⟩ :=
    stands.listed inside position
  have outerHolds := stands.holds.within within
  have outerNodup := within.nodup stands.nodup
  have partMember : part ∈ lead ++ (front ++ part :: back) := by simp
  have partHolds : store.Holds part := by
    cases outerHolds with
    | node _ _ _ _ inner => exact inner part partMember
  have partNodup := Tree.nodup_of_mem_namesAll (List.nodup_cons.mp outerNodup).2 partMember
  obtain ⟨below, rfl, roots⟩ := partHolds.eq_node rooted found
  rw [held] at roots
  obtain ⟨inner, behind, rfl, innerRoot, -⟩ := List.map_eq_cons_iff.mp roots.symm
  have member : inner ∈ inner :: behind := List.mem_cons_self
  have innerHolds := (partHolds.holdsAll_below partNodup).holds inner member
  have innerNodup := Tree.nodup_of_mem_namesAll (List.nodup_cons.mp partNodup).2 member
  obtain ⟨items, rfl, itemRoots⟩ := innerHolds.eq_node innerRoot shaped
  cases itemRoots
  have opened := Rebuilds.opening (innerHolds.alone innerNodup) rfl
  rw [List.append_nil] at opened
  have quiet : ∀ item ∈ items, store.IsQuietAt item.root := fun item among =>
    stands.tidy.quietAt shaped (List.mem_map_of_mem among)
  have isPlainStatement : store.satisfies (some statement) Shape.isPlain = true := by
    rw [satisfies, found]
    exact plain
  have needsItems : (Tree.node sequence (.elements .sequence (items.map Tree.root)) items).unmet =
      Tree.unmetAll items := Tree.unmet_of_isClear rfl
  rcases List.eq_nil_or_concat items with rfl | ⟨leads, last, rfl⟩
  · exact Bool.noConfusion (stands.tidy sequence _ shaped).full
  rw [List.concat_eq_append] at *
  have quietLast : store.IsQuietAt last.root := quiet last (by simp)
  cases leads with
  | nil =>
    -- nothing to move
    obtain ⟨later, result, remakes⟩ := @Remakes.replacing store store [] behind [] _ last statement
      sequence shape _ partHolds partNodup opened innerRoot shaped rfl
      (.inr (by rw [needsItems]; simp)) quietLast.fits
    have deep : Tree.Within (.node statement shape _) tree := (Tree.Within.deeper partMember .whole).trans within
    obtain ⟨whole, remade, placed⟩ := remakes.without.within_placed deep stands.holds stands.nodup
    have present : (store.position? (some statement)).isNone = false := by
      rw [← Option.not_isSome, position]
      rfl
    simp only [hoistLeading, listed, present, List.nil_append, List.map_singleton,
      List.dropLast_singleton, List.getLast?_singleton, Bool.false_eq_true, if_false]
    rw [result]
    exact .step remade placed (.single either isLed (Shape.withSlots_withSlots _ _ _))
  | cons first more =>
    obtain ⟨middle, gathered, gathers, gathering, gatheredNeeds, gatherKinds, quietGathered, leads⟩ :=
      gatherLeading_rebuilds first more opened fun item among =>
        quiet item (List.mem_append_left _ among)
    obtain ⟨second, name, made, work, movedNeeds, kinds, -⟩ := gathering.andNode
      (.expressionStatement gathered.root) [gathered] [last] (.refl _) rfl rfl
      (List.forall_mem_singleton.mpr quietGathered) rfl
    have turned := work.perm (List.Perm.swap last (.stated name gathered) [])
    have fresh : store.nodes.size ≤ name := by
      have later : name = middle.nodes.size := (Prod.mk.inj made).2.symm
      exact later ▸ gathering.touches.size
    obtain ⟨later, whole, changed, remade, moves, remakes, same, still, placed⟩ :=
      @moves_leading store root statement sequence tree shape second container name outer lead front
        back [] behind _ last _ stands within leading statements clear isPlainStatement innerRoot _
        shaped rfl turned rfl fresh (by rw [needsItems]; simp)
        (by rw [needsItems, Tree.stated, movedNeeds]; simp [gatheredNeeds])
        ((quietLast.carry gatherKinds).carry kinds)
    have split : (first :: more ++ [last]).map Tree.root =
        (first.root :: more.map Tree.root) ++ [last.root] := by simp
    rw [hoistLeading_eq store (some statement) listed position (by rw [split, List.dropLast_concat])
      (by rw [split, List.getLast?_concat]), gathers]
    simp only [makeExpressionStatement, made, moves]
    exact .step remakes placed (.led either isLed leading
      (by rw [Shape.isContainer, statements]; rfl) rfl leads same still)

theorem ifTestSequence_reworked {id : NodeId} (stands : store.Stands root tree)
    (inside : id ∈ tree.names) : store.Reworked (ifTestSequence store id) tree .ifTestSequence
      ((store.position? (some id)).isSome = true →
        ∀ test, test? store (some id) = some test → sequenceItems? store test = none) := by
  unfold ifTestSequence
  split
  · rename_i none
    exact .untouched nofun fun _ test tested => nomatch none.symm.trans tested
  rename_i test tested
  obtain ⟨thenBody, elseBody, found⟩ := exists_of_test? tested
  refine (hoistLeading_reworked stands inside found rfl rfl rfl (.inl rfl) rfl).imp
    fun none position other also => ?_
  cases tested.symm.trans also
  exact none position

theorem returnSequence_reworked {id : NodeId} (stands : store.Stands root tree)
    (inside : id ∈ tree.names) : store.Reworked (returnSequence store id) tree .returnSequence
      ((store.position? (some id)).isSome = true →
        ∀ value, store.shape? (some id) = some (.exit .returns value) →
          sequenceItems? store value = none) := by
  unfold returnSequence
  split
  · rename_i found
    refine (hoistLeading_reworked stands inside found rfl rfl rfl (.inr rfl) rfl).imp
      fun none position other also => ?_
    cases found.symm.trans also
    exact none position
  · rename_i other
    exact .untouched nofun fun _ value found => absurd found (other value)

end Canonical

end Unflatten
