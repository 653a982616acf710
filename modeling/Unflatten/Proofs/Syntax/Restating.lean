import Unflatten.Proofs.Syntax.Replacing

/-! # Other statements for a list

A stretch of a list of statements gives way to others, made of the stretch and of new nodes. -/

set_option autoImplicit false

namespace Unflatten

namespace Tree

variable {id : NodeId} {shape : Shape} {below : List Tree}

/-- A list of statements helps no jump. -/
theorem unmet_of_isContainer (container : shape.isContainer = true) :
    (Tree.node id shape below).unmet = unmetAll below := by
  refine unmet_of_isClear ?_
  cases shape
  case file | block | clause => rfl
  all_goals cases container

end Tree

/-- A container is of the same shape with other statements. -/
theorem Shape.withSlots_of_withStatements? {shape changed : Shape} {statements : List Slot}
    (changes : shape.withStatements? statements = some changed) (slots : List Slot) :
    changed.withSlots slots = shape.withSlots slots := by
  cases shape <;> cases changes <;> rfl

namespace Store

section Restating
variable {store middle later : Store} {lead front mid back new extras : List Tree} {id : NodeId}
  {shape changed : Shape} {removed inserted : List Slot} {part remade b : Tree} {statement : NodeId}

/-- What becomes of a stretch of statements. -/
structure Restates (middle : Store) (id : NodeId) (mid new : List Tree)
    (removed inserted : List Slot) : Prop where
  adopted : ∀ tree ∈ new, ∀ child, tree.root = some child →
    some child ∈ inserted ∨ middle.parent (some child) = some id ∧ some child ∉ removed
  come : ∀ slot ∈ inserted, slot ∈ new.map Tree.root
  gone : ∀ slot ∈ removed, slot ∈ mid.map Tree.root
  kept : ∀ slot ∈ mid.map Tree.root, slot ∈ new.map Tree.root ∨ slot ∈ removed

/-- The new statements stand among the others. -/
theorem Works.closes_restating
    (works : Works store middle id shape (lead ++ (front ++ mid ++ back)) mid (lead ++ front ++ back))
    (leading : shape.leading = lead.map Tree.root)
    (changes : shape.withStatements? ((front ++ new ++ back).map Tree.root) = some changed)
    (restates : Restates middle id mid new removed inserted) :
    Rebuilds.Closes middle id shape changed (lead ++ (front ++ new ++ back)) removed inserted := by
  obtain ⟨filled, kept⟩ := Shape.slots_of_withStatements? changes
  have changedContainer : changed.isContainer = true := by rw [Shape.isContainer, kept]; rfl
  have roots : shape.slots = (lead ++ (front ++ mid ++ back)).map Tree.root := by
    cases works.holds with
    | node _ _ roots => exact roots
  have changedSlots : changed.slots = (lead ++ (front ++ new ++ back)).map Tree.root := by
    rw [filled, leading, ← List.map_append]
  refine ⟨Shape.kind_withStatements? changes, changedSlots, ?_, fun other member child is => ?_,
    fun slot member => ?_, fun slot member => ?_, fun slot member => ?_,
    fun _ => admits_of_isContainer changedContainer⟩
  · exact Shape.isRegular_of_not_isLoop fun _ _ _ _ _ same => by
      rw [same] at changedContainer
      cases changedContainer
  · by_cases among : other ∈ new
    · exact restates.adopted other among child is
    · have sibling : other ∈ lead ++ front ++ back := by
        simp only [List.mem_append] at member ⊢
        tauto
      exact .inr ⟨works.parent_sibling sibling is, fun gone =>
        works.apart sibling is (Tree.mem_namesAll_of_root (restates.gone _ gone))⟩
  · rw [changedSlots]
    simp only [List.map_append, List.mem_append]
    exact .inr (.inl (.inr (restates.come slot member)))
  · rw [roots]
    simp only [List.map_append, List.mem_append]
    exact .inr (.inl (.inr (restates.gone slot member)))
  · rw [roots] at member
    rw [changedSlots]
    simp only [List.map_append, List.mem_append] at member ⊢
    rcases member with before | (before | here) | behind
    · exact .inl (.inl before)
    · exact .inl (.inr (.inl (.inl before)))
    · exact (restates.kept slot here).imp_left fun still => .inr (.inl (.inr still))
    · exact .inl (.inr (.inr behind))

theorem perm_stretch (lead front mid back : List Tree) :
    (lead ++ (front ++ mid ++ back)).Perm (mid ++ (lead ++ front ++ back)) := by
  have joined : lead ++ (front ++ mid ++ back) = (lead ++ front) ++ (mid ++ back) := by
    simp only [List.append_assoc]
  rw [joined]
  exact List.perm_append_comm_assoc _ _ _

theorem Remakes.restating (holds : store.Holds (.node id shape (lead ++ (front ++ mid ++ back))))
    (nodup : (Tree.node id shape (lead ++ (front ++ mid ++ back))).names.Nodup)
    (leading : shape.leading = lead.map Tree.root)
    (statements : shape.statements? = some ((front ++ mid ++ back).map Tree.root))
    (work : Rebuilds store middle mid (new ++ extras))
    (changes : shape.withStatements? ((front ++ new ++ back).map Tree.root) = some changed)
    (reshapes : Reshapes middle later id changed removed inserted)
    (restates : Restates middle id mid new removed inserted)
    (headed : ∀ prelude, store.IsFramedBody id prelude → later.IsFramedBody id prelude)
    (needs : .stray ∈ Tree.unmetAll mid ∨ Tree.unmetAll new ⊆ Tree.unmetAll mid) :
    Remakes store later (.node id shape (lead ++ (front ++ mid ++ back)))
      (.node id changed (lead ++ (front ++ new ++ back))) extras := by
  have works : Works store middle id shape (lead ++ (front ++ mid ++ back)) mid
      (lead ++ front ++ back) := ⟨holds, nodup, perm_stretch lead front mid back, work.touches⟩
  have container : shape.isContainer = true := by rw [Shape.isContainer, statements]; rfl
  have changedContainer : changed.isContainer = true := by
    rw [Shape.isContainer, (Shape.slots_of_withStatements? changes).2]
    rfl
  have around : Rebuilds store middle (lead ++ (front ++ mid ++ back) ++ [])
      ((lead ++ (front ++ new ++ back)) ++ extras) :=
    (works.rebuilds work).perm ((perm_stretch lead front new back).symm.append_right extras)
  have framed : ∀ prelude, store.IsFramed id prelude → later.IsFramed id prelude := by
    rintro prelude ⟨body, ⟨kind, initializer, condition, incrementor, shaped⟩, -⟩
    rw [works.found.1] at shaped
    cases shaped
    cases container
  obtain ⟨rebuilds, link⟩ := Rebuilds.reshaping works.alone around reshapes
    (works.closes_restating leading changes restates) framed
  refine ⟨rebuilds, rfl, ?_, link, ?_, ?_⟩
  · cases shape
    case file => cases changes; rfl
    case block => cases changes; rfl
    case clause => cases changes; rfl
    all_goals cases container
  · rintro body prelude same isFramed
    cases same
    exact headed prelude isFramed
  · rw [Tree.NeedsNoMore, Tree.unmet_of_isContainer container,
      Tree.unmet_of_isContainer changedContainer]
    simp only [Tree.unmetAll_append]
    refine needs.imp (fun lost => ?_) fun fewer target needed => ?_
    · simp only [List.mem_append]
      exact .inr (.inl (.inr lost))
    · simp only [List.mem_append] at needed ⊢
      exact needed.imp_right (Or.imp_left (Or.imp_right fun here => fewer here))

/-- The trees in the slots of a list of statements, and those before them. -/
theorem Holds.split_statements {below : List Tree} {slots : List Slot}
    (holds : store.Holds (.node id shape below)) (statements : shape.statements? = some slots) :
    ∃ lead old, below = lead ++ old ∧ shape.leading = lead.map Tree.root ∧
      slots = old.map Tree.root := by
  cases holds with
  | node found regular roots links held =>
    rw [Shape.slots_of_statements? statements] at roots
    obtain ⟨lead, old, rfl, first, second⟩ := List.map_eq_append_iff.mp roots.symm
    exact ⟨lead, old, rfl, first.symm, second.symm⟩

theorem Holds.shape?_middle {below parts : List Tree} (holds : store.Holds (.node id shape below))
    (nodup : (Tree.node id shape below).names.Nodup) (parts_subset : parts ⊆ below)
    (work : Touches store middle (Tree.namesAll parts)) :
    middle.shape? (some id) = some shape ∧
      middle.parent (some id) = store.parent (some id) := by
  have outside : id ∉ Tree.namesAll parts := by
    intro inside
    obtain ⟨tree, member, there⟩ := Tree.mem_namesAll.mp inside
    exact (List.nodup_cons.mp nodup).1 (Tree.mem_namesAll.mpr ⟨tree, parts_subset member, there⟩)
  cases holds with
  | node found =>
    have bound := lt_size_of_shape? found
    exact ⟨by rw [work.shape id bound outside, found], work.parent id bound outside⟩

/-- A container gets other statements. -/
theorem Remakes.setting {old : List Tree} (holds : store.Holds (.node id shape (lead ++ old)))
    (nodup : (Tree.node id shape (lead ++ old)).names.Nodup)
    (leading : shape.leading = lead.map Tree.root)
    (statements : shape.statements? = some (old.map Tree.root))
    (work : Rebuilds store middle old (new ++ extras))
    (loose : ∀ prelude, ¬ store.IsFramedBody id prelude)
    (needs : .stray ∈ Tree.unmetAll old ∨ Tree.unmetAll new ⊆ Tree.unmetAll old) :
    ∃ later changed, middle.setStatements (some id) (new.map Tree.root) = (later, true) ∧
      shape.withStatements? (new.map Tree.root) = some changed ∧
      Remakes store later (.node id shape (lead ++ old)) (.node id changed (lead ++ new)) extras := by
  have container : shape.isContainer = true := by rw [Shape.isContainer, statements]; rfl
  obtain ⟨changed, changes⟩ := Shape.exists_withStatements? container (new.map Tree.root)
  obtain ⟨found, -⟩ := holds.shape?_middle nodup (List.subset_append_right _ _) work.touches
  obtain ⟨later, result, reshapes⟩ := setStatements_reshapes found statements changes
  have whole : ∀ trees : List Tree, [] ++ trees ++ [] = trees := by simp
  have remakes := @Remakes.restating store middle later lead [] old [] new extras id shape changed
    (old.map Tree.root) (new.map Tree.root) (by rwa [whole]) (by rwa [whole]) leading
    (by rwa [whole]) work (by rwa [whole]) reshapes
    ⟨fun tree member child is => .inl (is ▸ List.mem_map_of_mem member), fun _ member => member,
      fun _ member => member, fun _ member => .inr member⟩
    (fun prelude framed => absurd framed (loose prelude)) needs
  rw [whole, whole] at remakes
  exact ⟨later, changed, result, changes, remakes⟩

theorem position?_eq {first second : List Slot} (linked : store.parent (some statement) = some id)
    (found : store.shape? (some id) = some shape)
    (statements : shape.statements? = some (first ++ some statement :: second))
    (absent : some statement ∉ first) :
    store.position? (some statement) = some (id, first.length) := by
  have place : (first ++ some statement :: second).findIdx? (· == some statement) =
      some first.length := by
    rw [List.findIdx?_append, List.findIdx?_eq_none_iff.mpr ?_]
    · simp [List.findIdx?_cons]
    · intro slot member
      simp only [beq_eq_false_iff_ne]
      exact fun same => absent (same ▸ member)
  simp [position?, linked, statements?, found, statements, place]

/-- A statement stands at its place in the list of its parent. -/
theorem getElem?_of_position? {statement : Slot} {container place : Nat}
    (found : store.position? statement = some (container, place)) :
    store.parent statement = some container ∧ ∃ shape slots,
      store.shape? (some container) = some shape ∧ shape.statements? = some slots ∧
        slots[place]? = some statement := by
  unfold position? at found
  split at found
  · cases found
  rename_i above linked
  obtain ⟨slots, stated, found⟩ := Option.bind_eq_some_iff.mp found
  obtain ⟨shape, shaped, has⟩ := Option.bind_eq_some_iff.mp stated
  obtain ⟨_, index, same⟩ := Option.map_eq_some_iff.mp found
  cases same
  obtain ⟨short, same, -⟩ := List.findIdx?_eq_some_iff_getElem.mp index
  exact ⟨linked, shape, slots, shaped, has,
    (List.getElem?_eq_getElem short).trans (congrArg some (eq_of_beq same))⟩

theorem root_not_mem_front {below : List Tree} (below_eq : below = lead ++ (front ++ part :: back))
    (nodup : (Tree.namesAll below).Nodup) (rooted : part.root = some statement) :
    some statement ∉ front.map Tree.root := by
  subst below_eq
  intro there
  obtain ⟨other, member, same⟩ := List.mem_map.mp there
  rw [← List.append_assoc] at nodup
  have member' : other ∈ lead ++ front ++ back :=
    List.mem_append_left _ (List.mem_append_right _ member)
  exact apart_of_nodup_middle nodup member' statement (Tree.mem_names_root same)
    (Tree.mem_names_root rooted)

/-- A statement of a list gives way to others. -/
theorem Remakes.replacingStatement
    (holds : store.Holds (.node id shape (lead ++ (front ++ part :: back))))
    (nodup : (Tree.node id shape (lead ++ (front ++ part :: back))).names.Nodup)
    (leading : shape.leading = lead.map Tree.root)
    (statements : shape.statements? = some ((front ++ part :: back).map Tree.root))
    (rooted : part.root = some statement)
    (linked : middle.parent (some statement) = some id)
    (work : Rebuilds store middle [part] (new ++ extras))
    (headed : ∀ later prelude, store.KeepsKinds later →
      later.shape? (some id) = shape.withStatements? ((front ++ new ++ back).map Tree.root) →
      store.IsFramedBody id prelude → later.IsFramedBody id prelude)
    (needs : .stray ∈ part.unmet ∨ Tree.unmetAll new ⊆ part.unmet) :
    ∃ later changed,
      middle.replaceStatement (some statement) (new.map Tree.root) = (later, true) ∧
      shape.withStatements? ((front ++ new ++ back).map Tree.root) = some changed ∧
      Remakes store later (.node id shape (lead ++ (front ++ part :: back)))
        (.node id changed (lead ++ (front ++ new ++ back))) extras := by
  have container : shape.isContainer = true := by rw [Shape.isContainer, statements]; rfl
  obtain ⟨changed, changes⟩ :=
    Shape.exists_withStatements? container ((front ++ new ++ back).map Tree.root)
  obtain ⟨found, -⟩ := holds.shape?_middle nodup (by simp) work.touches
  have absent := root_not_mem_front rfl (List.nodup_cons.mp nodup).2 rooted
  have listed : (front ++ part :: back).map Tree.root =
      front.map Tree.root ++ some statement :: back.map Tree.root := by
    rw [List.map_append, List.map_cons, rooted]
  have position : middle.position? (some statement) = some (id, (front.map Tree.root).length) :=
    position?_eq linked found (statements.trans (congrArg some listed)) absent
  have taken : ((front.map Tree.root ++ some statement :: back.map Tree.root).drop
      (front.map Tree.root).length).take 1 = [some statement] := by
    rw [List.drop_left]
    rfl
  have spliced : (front.map Tree.root ++ some statement :: back.map Tree.root).take
      (front.map Tree.root).length ++ new.map Tree.root ++
        (front.map Tree.root ++ some statement :: back.map Tree.root).drop
          ((front.map Tree.root).length + 1) = (front ++ new ++ back).map Tree.root := by
    rw [List.take_left, ← List.drop_drop, List.drop_left]
    simp
  obtain ⟨later, result, reshapes⟩ := splice_reshapes found (statements.trans (congrArg some listed))
    (by simp : (front.map Tree.root).length ≤ _) ((congrArg _ spliced).trans changes)
  rw [taken] at reshapes
  have kinds := work.kinds.trans (reshapes.keepsKinds found (Shape.kind_withStatements? changes))
  have single : ∀ tree : Tree, front ++ [tree] ++ back = front ++ tree :: back := by simp
  have remakes := @Remakes.restating store middle later lead front [part] back new extras id shape
    changed [some statement] (new.map Tree.root) (by rwa [single]) (by rwa [single]) leading
    (by rwa [single]) work changes reshapes
    ⟨fun tree member child is => .inl (is ▸ List.mem_map_of_mem member), fun _ member => member,
      fun slot member => by rw [List.mem_singleton.mp member, ← rooted]; simp,
      fun slot member => .inr (by
        rw [List.map_singleton, rooted] at member
        exact member)⟩
    (fun prelude => headed later prelude kinds
      (by rw [reshapes.shapes, if_pos rfl, changes]))
    (by simpa using needs)
  rw [single] at remakes
  refine ⟨later, changed, ?_, changes, remakes⟩
  rw [replaceStatement, position]
  exact result

/-- A statement comes before another one, which has been remade. -/
theorem Remakes.inserting
    (holds : store.Holds (.node id shape (lead ++ (front ++ part :: back))))
    (nodup : (Tree.node id shape (lead ++ (front ++ part :: back))).names.Nodup)
    (leading : shape.leading = lead.map Tree.root)
    (statements : shape.statements? = some ((front ++ part :: back).map Tree.root))
    (rooted : part.root = some statement)
    (remakes : Remakes store middle part remade (b :: extras))
    (plain : store.satisfies (some statement) Shape.isPlain = true)
    (needs : .stray ∈ part.unmet ∨ b.unmet ⊆ part.unmet) :
    ∃ later changed, middle.insertBefore (some statement) [b.root] = (later, true) ∧
      changed.withSlots [] = shape.withSlots [] ∧
      Remakes store later (.node id shape (lead ++ (front ++ part :: back)))
        (.node id changed (lead ++ (front ++ b :: remade :: back))) extras := by
  have container : shape.isContainer = true := by rw [Shape.isContainer, statements]; rfl
  have rootedLater := remakes.root.trans rooted
  obtain ⟨changed, changes⟩ :=
    Shape.exists_withStatements? container ((front ++ [b, remade] ++ back).map Tree.root)
  obtain ⟨found, -⟩ := holds.shape?_middle nodup (by simp) remakes.rebuilds.touches
  have absent := root_not_mem_front rfl (List.nodup_cons.mp nodup).2 rooted
  have listed : (front ++ part :: back).map Tree.root =
      front.map Tree.root ++ some statement :: back.map Tree.root := by
    rw [List.map_append, List.map_cons, rooted]
  have linked : middle.parent (some statement) = some id := by
    have link := remakes.link
    rw [rooted] at link
    rw [link]
    cases holds with
    | node _ _ _ links _ =>
      have there := links part (by simp) (by rw [rooted]; rfl)
      rwa [rooted] at there
  have position : middle.position? (some statement) = some (id, (front.map Tree.root).length) :=
    position?_eq linked found (statements.trans (congrArg some listed)) absent
  have spliced : (front.map Tree.root ++ some statement :: back.map Tree.root).take
      (front.map Tree.root).length ++ [b.root] ++
        (front.map Tree.root ++ some statement :: back.map Tree.root).drop
          ((front.map Tree.root).length + 0) = (front ++ [b, remade] ++ back).map Tree.root := by
    rw [List.take_left, Nat.add_zero, List.drop_left, ← rootedLater]
    simp
  obtain ⟨later, result, reshapes⟩ := splice_reshapes found (statements.trans (congrArg some listed))
    (by simp : (front.map Tree.root).length ≤ _) ((congrArg _ spliced).trans changes)
  have loose : ∀ prelude, ¬ store.IsFramedBody id prelude := by
    intro prelude framed
    cases holds with
    | node there =>
      refine framed.not_plain there ?_ plain
      rw [Shape.slots_of_statements? statements, listed]
      simp
  rw [List.take_zero] at reshapes
  have single : ∀ tree : Tree, front ++ [tree] ++ back = front ++ tree :: back := by simp
  have lists : .stray ∈ Tree.unmetAll [part] ∨
      Tree.unmetAll [b, remade] ⊆ Tree.unmetAll [part] := by
    simp only [Tree.unmetAll_cons, Tree.unmetAll_nil, List.append_nil]
    rcases remakes.needs with lost | fewer
    · exact .inl lost
    · exact needs.imp_right fun less => List.append_subset.mpr ⟨less, fewer⟩
  have work : Rebuilds store middle [part] ([b, remade] ++ extras) :=
    remakes.rebuilds.perm (List.Perm.swap b remade extras)
  have result' := @Remakes.restating store middle later lead front [part] back [b, remade] extras id
    shape changed [] [b.root] (by rwa [single]) (by rwa [single]) leading (by rwa [single]) work
    changes reshapes
    ⟨fun tree member child is => ?_, by simp, by simp, fun slot member => .inl ?_⟩
    (fun prelude framed => absurd framed (loose prelude)) lists
  · simp only [List.append_assoc, List.cons_append, List.nil_append] at result'
    refine ⟨later, changed, ?_, Shape.withSlots_of_withStatements? changes [], result'⟩
    rw [insertBefore, position]
    exact result
  · rcases List.mem_cons.mp member with rfl | there
    · exact .inl (List.mem_singleton.mpr is.symm)
    · cases List.mem_singleton.mp there
      rw [rootedLater] at is
      cases is
      exact .inr ⟨linked, List.not_mem_nil⟩
  · rw [List.map_singleton, ← remakes.root] at member
    rw [List.mem_singleton.mp member]
    simp

end Restating

end Store

end Unflatten
