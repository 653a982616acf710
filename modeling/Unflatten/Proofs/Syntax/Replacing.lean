import Unflatten.Proofs.Syntax.Remaking

/-! # One child for another

`Store.replaceChild` puts a new tree where a part of a tree stood.  The new tree is made of the
part and of new nodes. -/

set_option autoImplicit false

namespace Unflatten

theorem replaceFirst_middle {front back : List Slot} {old new : Slot} (absent : old ∉ front) :
    replaceFirst (front ++ old :: back) old new = some (front ++ new :: back) := by
  induction front with
  | nil =>
    simp [replaceFirst]
  | cons first rest ih =>
    have other : first ≠ old := fun same => absent (same ▸ List.mem_cons_self)
    have later : old ∉ rest := fun member => absent (List.mem_cons_of_mem _ member)
    simp [replaceFirst, other, ih later]

namespace Shape

section Middle
variable {shape : Shape} {front back : List Slot} {old new : Slot}

/-- A regular shape stays regular if no slot that is empty gets filled. -/
theorem isRegular_middle (regular : shape.IsRegular) (present : old.isSome = true)
    (slots : shape.slots = front ++ old :: back) :
    (shape.withSlots (front ++ new :: back)).IsRegular := by
  cases shape
  case loop kind initializer condition incrementor body =>
    rw [isRegular_loop_iff] at regular
    change (loop kind _ _ _ _).IsRegular
    rw [isRegular_loop_iff]
    refine regular.imp_right fun ⟨first, third⟩ => ?_
    subst first third
    rcases front with _ | ⟨a, _ | ⟨b, _ | ⟨c, _ | ⟨d, front⟩⟩⟩⟩ <;> simp [Shape.slots] at slots
    · obtain ⟨rfl, -⟩ := slots
      cases present
    · obtain ⟨rfl, -, rfl⟩ := slots
      exact ⟨rfl, rfl⟩
    · obtain ⟨-, -, rfl, -⟩ := slots
      cases present
    · obtain ⟨rfl, rfl, rfl, -⟩ := slots
      exact ⟨rfl, rfl⟩
  all_goals exact isRegular_of_not_isLoop (by simp [withSlots])

/-- The slots for quiet nodes are where they were. -/
theorem mem_quietSlots_middle (slots : shape.slots = front ++ old :: back) {slot : Slot}
    (listed : slot ∈ (shape.withSlots (front ++ new :: back)).quietSlots) :
    slot ∈ shape.quietSlots ∨ slot = new ∧ old ∈ shape.quietSlots := by
  cases shape
  case declarationList =>
    simp_all [Shape.slots, withSlots, quietSlots]
    tauto
  case elements =>
    simp_all [Shape.slots, withSlots, quietSlots]
    tauto
  case call =>
    cases front <;> simp_all [Shape.slots, withSlots, quietSlots] <;> tauto
  case function => cases listed
  all_goals
    rcases front with _ | ⟨a, _ | ⟨b, _ | ⟨c, _ | ⟨d, front⟩⟩⟩⟩ <;>
      first
      | cases slots; simp_all [withSlots, quietSlots] <;> tauto
      | simp [Shape.slots] at slots

theorem mem_bodySlots_middle (slots : shape.slots = front ++ old :: back) {slot : Slot}
    (listed : slot ∈ (shape.withSlots (front ++ new :: back)).bodySlots) :
    slot ∈ shape.bodySlots ∨ slot = new ∧ old ∈ shape.bodySlots := by
  cases shape
  case function isExpression name parameters body =>
    -- the body is the last of the slots
    have long : 1 < (front ++ new :: back).length := by
      have length := congrArg List.length slots
      simp only [Shape.slots, List.length_cons, List.length_append] at length ⊢
      omega
    have last := congrArg List.getLast? slots
    simp only [Shape.slots, ← List.cons_append, List.getLast?_append, List.getLast?_cons,
      List.getLast?_nil, Option.getD_none, Option.some_or, Option.some.injEq] at last
    simp only [bodySlots, withSlots, List.getLast?_drop, if_neg (Nat.not_le_of_lt long),
      List.getLast?_append, List.getLast?_cons, Option.some_or, Option.join_some,
      List.mem_singleton] at listed ⊢
    cases ends : back.getLast? with
    | none =>
      rw [ends] at last listed
      exact .inr ⟨listed, last.symm⟩
    | some slot =>
      rw [ends] at last listed
      exact .inl (listed.trans last.symm)
  all_goals first
    | exact absurd listed List.not_mem_nil
    | rcases front with _ | ⟨a, _ | ⟨b, _ | ⟨c, _ | ⟨d, front⟩⟩⟩⟩ <;>
        first
        | cases slots; simp_all [withSlots, bodySlots] <;> tauto
        | simp [Shape.slots] at slots

end Middle

/-- The body of a loop stays if something else is replaced. -/
theorem body_middle {kind : LoopKind} {initializer condition incrementor body old new : Slot}
    {front back : List Slot}
    (slots : (loop kind initializer condition incrementor body).slots = front ++ old :: back)
    (other : body ≠ old) : ∃ first second third,
      (loop kind initializer condition incrementor body).withSlots (front ++ new :: back) =
        loop kind first second third body := by
  rcases front with _ | ⟨a, _ | ⟨b, _ | ⟨c, _ | ⟨d, front⟩⟩⟩⟩ <;> simp [Shape.slots] at slots
  · obtain ⟨-, rfl⟩ := slots
    exact ⟨_, _, _, rfl⟩
  · obtain ⟨-, -, rfl⟩ := slots
    exact ⟨_, _, _, rfl⟩
  · obtain ⟨-, -, -, rfl⟩ := slots
    exact ⟨_, _, _, rfl⟩
  · exact absurd slots.2.2.2.1 other

/-- A shape that is neither a text, nor a block, nor steady: what stands in the slot can be
replaced and no name is lost and no framed loop found wanting. -/
def isPlain : Shape → Bool
  | .identifier _ | .block _ => false
  | shape => !shape.isSteady

end Shape

namespace Tree

section Replaced
variable {id : NodeId} {shape : Shape} {front back : List Tree} {part new : Tree}

theorem text?_withSlots (slots : List Slot) (first second : List Tree) :
    (Tree.node id (shape.withSlots slots) first).text? = (Tree.node id shape second).text? := by
  cases shape <;> rfl

theorem NeedsNoMore.replaced (needs : NeedsNoMore part new) (text : part.text? = none)
    (present : part.root.isSome = true) (slots : shape.slots = (front ++ part :: back).map root) :
    NeedsNoMore (.node id shape (front ++ part :: back))
      (.node id (shape.withSlots ((front ++ new :: back).map root)) (front ++ new :: back)) := by
  refine needs.middle.elim (fun lost => .inl (stray_mem_unmet_node lost)) fun fewer => ?_
  cases shape
  case jump kind label =>
    -- a label that is no name is a name for nothing
    have alone : front = [] ∧ back = [] := by
      have length := congrArg List.length slots
      simp [Shape.slots] at length
      exact ⟨List.eq_nil_of_length_eq_zero (by omega), List.eq_nil_of_length_eq_zero (by omega)⟩
    obtain ⟨rfl, rfl⟩ := alone
    cases label with
    | none =>
      simp [Shape.slots] at slots
      rw [← slots] at present
      cases present
    | some label =>
      refine .inl ?_
      rw [unmet, List.mem_append]
      refine .inl ?_
      have label : label? [part] = none := text
      cases kind <;> simp [Shape.asks, label]
  case labeled label statement =>
    refine .inr (unmet_node_subset (fun _ asked => asked) (fun target left leaves => ?_) fewer)
    cases front with
    | nil =>
      have label : label? ([] ++ part :: back) = none := text
      rw [label]
      cases target
      case label =>
        simp only [Shape.withSlots, Shape.leaves] at leaves ⊢
        split at leaves
        · cases leaves
        · simpa using leaves
      all_goals exact leaves
    | cons first rest => cases target <;> exact leaves
  all_goals
    refine .inr (unmet_node_subset (fun _ asked => asked) (fun target left leaves => ?_) fewer)
    cases target <;> exact leaves

end Replaced

end Tree

namespace Store

section Replacing
variable {store middle : Store} {front back extras : List Tree} {part new : Tree}
  {id old : NodeId} {shape : Shape}

theorem isPlain_of_satisfies (plain : store.satisfies (some old) Shape.isPlain = true) :
    ∃ shape, store.shape? (some old) = some shape ∧ shape.isSteady = false ∧
      shape.isBlock = false ∧ ∀ text, shape ≠ .identifier text := by
  rw [satisfies, Option.any_eq_true] at plain
  obtain ⟨shape, found, isPlain⟩ := plain
  refine ⟨shape, found, ?_⟩
  cases shape
  case identifier => cases isPlain
  case block => cases isPlain
  all_goals exact ⟨by simpa [Shape.isPlain] using isPlain, rfl, by simp⟩

/-- No name is lost where a plain node goes. -/
theorem Holds.text?_of_isPlain (holds : store.Holds part) (rooted : part.root = some old)
    (plain : store.satisfies (some old) Shape.isPlain = true) : part.text? = none := by
  obtain ⟨shape, found, -, -, noText⟩ := isPlain_of_satisfies plain
  cases holds with
  | nothing => rfl
  | node there =>
    cases rooted
    rw [there] at found
    cases found
    cases shape
    case identifier => exact absurd rfl (noText _)
    all_goals rfl

/-- A framed body has no plain statement. -/
theorem IsFramedBody.not_plain {body prelude : NodeId} (framed : store.IsFramedBody body prelude)
    (found : store.shape? (some body) = some shape) (listed : some old ∈ shape.slots)
    (plain : store.satisfies (some old) Shape.isPlain = true) : False := by
  obtain ⟨statements, there, steady, -⟩ := framed
  rw [there] at found
  cases found
  obtain ⟨other, shaped, notSteady, -⟩ := isPlain_of_satisfies plain
  have isSteady := steady _ listed
  rw [satisfies, shaped, Option.any_some, notSteady] at isSteady
  cases isSteady

section Swapping
variable (works : Works store middle id shape (front ++ part :: back) [part] (front ++ back))
  (rooted : part.root = some old)
include works rooted

theorem Works.slots_middle : shape.slots = front.map Tree.root ++ some old :: back.map Tree.root := by
  cases works.holds with
  | node _ _ roots => rw [roots, List.map_append, List.map_cons, rooted]

theorem Works.replaceFirst_slots (new : Tree) : replaceFirst shape.slots (some old) new.root =
    some ((front ++ new :: back).map Tree.root) := by
  have notFront : some old ∉ front.map Tree.root := by
    intro there
    obtain ⟨other, member, same⟩ := List.mem_map.mp there
    exact works.apart (List.mem_append_left _ member) same (Tree.mem_namesAll_of_root (List.mem_singleton.mpr rooted.symm))
  rw [works.slots_middle rooted, replaceFirst_middle notFront, List.map_append, List.map_cons]

theorem Works.slots_swapped (new : Tree) :
    (shape.withSlots ((front ++ new :: back).map Tree.root)).slots =
      (front ++ new :: back).map Tree.root :=
  Shape.slots_withSlots _ _ (length_replaceFirst (works.replaceFirst_slots rooted new))

/-- The new tree stands in the slot of the old one. -/
theorem Works.closes_swapping
    (quiet : middle.IsTidy → some old ∈ shape.quietSlots → middle.IsQuietAt new.root)
    (bodied : middle.IsTidy → some old ∈ shape.bodySlots → middle.IsBodyAt new.root) :
    Rebuilds.Closes middle id shape (shape.withSlots ((front ++ new :: back).map Tree.root))
      (front ++ new :: back) [some old] [new.root] := by
  have slots := works.slots_middle rooted
  have filled := works.slots_swapped rooted new
  have asMiddle : (front ++ new :: back).map Tree.root =
      front.map Tree.root ++ new.root :: back.map Tree.root := by
    rw [List.map_append, List.map_cons]
  have regular : (shape.withSlots ((front ++ new :: back).map Tree.root)).IsRegular := by
    rw [asMiddle]
    cases works.holds with
    | node _ regular => exact Shape.isRegular_middle regular rfl slots
  refine ⟨Shape.kind_withSlots _ _, filled, regular, fun other member child is => ?_,
    fun slot member => ?_, fun slot member => ?_, fun slot member => ?_, fun tidy => ?_⟩
  · by_cases same : other = new
    · rw [same] at is
      exact .inl (List.mem_singleton.mpr is.symm)
    · have sibling : other ∈ front ++ back := by
        simp only [List.mem_append, List.mem_cons, same, false_or] at member ⊢
        exact member
      refine .inr ⟨works.parent_sibling sibling is, fun removed => ?_⟩
      cases List.mem_singleton.mp removed
      exact works.apart sibling is (Tree.mem_namesAll_of_root (List.mem_singleton.mpr rooted.symm))
  · rw [List.mem_singleton.mp member, filled, asMiddle]
    exact List.mem_append_right _ List.mem_cons_self
  · rw [List.mem_singleton.mp member, slots]
    exact List.mem_append_right _ List.mem_cons_self
  · rw [filled]
    exact ((mem_replaceFirst (works.replaceFirst_slots rooted new)).1 slot member).imp_right
      List.mem_singleton.mpr
  · have admits := tidy id shape works.found.2
    rw [asMiddle] at regular ⊢
    refine ⟨fun child asked => ?_, fun child asked => ?_, ?_, regular⟩
    · rcases Shape.mem_quietSlots_middle slots asked with before | ⟨same, was⟩
      · exact admits.quiet child before
      · exact quiet tidy was child same.symm
    · rcases Shape.mem_bodySlots_middle slots asked with before | ⟨same, was⟩
      · exact admits.body child before
      · exact bodied tidy was child same.symm
    · rw [Shape.isHollow_withSlots (by simp [slots])]
      exact admits.full

/-- The body of a framed loop is no part that gives way, so the loop stays framed. -/
theorem Works.isFramed_swapping {later : Store} {prelude : NodeId}
    (noBlock : store.satisfies (some old) Shape.isBlock = false) (kinds : store.KeepsKinds middle)
    (reshapes : Reshapes middle later id (shape.withSlots ((front ++ new :: back).map Tree.root))
      [some old] [new.root]) (framed : store.IsFramed id prelude) : later.IsFramed id prelude := by
  obtain ⟨body, ⟨kind, initializer, condition, incrementor, shaped⟩, isFramed⟩ := framed
  obtain ⟨found, foundMiddle⟩ := works.found
  have slots := works.slots_middle rooted
  have keeps := kinds.trans (reshapes.keepsKinds foundMiddle (Shape.kind_withSlots _ _))
  rw [found] at shaped
  cases shaped
  have other : some body ≠ some old := by
    intro same
    cases same
    obtain ⟨statements, isBlock, -⟩ := isFramed
    rw [satisfies, isBlock] at noBlock
    cases noBlock
  obtain ⟨first, second, third, changed⟩ := @Shape.body_middle _ _ _ _ _ _ new.root _ _ slots other
  have member : some body ∈ front.map Tree.root ++ back.map Tree.root := by
    have among : some body ∈ front.map Tree.root ++ some old :: back.map Tree.root :=
      slots ▸ (by simp [Shape.slots])
    simpa [other] using among
  rw [← List.map_append] at member
  obtain ⟨sibling, there, same⟩ := List.mem_map.mp member
  refine ⟨body, ⟨kind, first, second, third, ?_⟩, isFramed.carry keeps ?_⟩
  · rw [reshapes.shapes, if_pos rfl, List.map_append, List.map_cons, changed]
  · rw [reshapes.shapes, if_neg (works.ne_root there same), works.shape?_sibling there same]

end Swapping

/-- A new tree takes the place of another one that is no block. -/
theorem Remakes.swapping (holds : store.Holds (.node id shape (front ++ part :: back)))
    (nodup : (Tree.node id shape (front ++ part :: back)).names.Nodup)
    (work : Rebuilds store middle [part] (new :: extras)) (rooted : part.root = some old)
    (noBlock : store.satisfies (some old) Shape.isBlock = false)
    (headed : ∀ later prelude, middle.KeepsKinds later → later.shape? (some id) =
      some (shape.withSlots (front.map Tree.root ++ new.root :: back.map Tree.root)) →
      store.IsFramedBody id prelude → later.IsFramedBody id prelude)
    (needs : (Tree.node id shape (front ++ part :: back)).NeedsNoMore
      (.node id (shape.withSlots ((front ++ new :: back).map Tree.root)) (front ++ new :: back)))
    (quiet : middle.IsTidy → some old ∈ shape.quietSlots → middle.IsQuietAt new.root)
    (bodied : middle.IsTidy → some old ∈ shape.bodySlots → middle.IsBodyAt new.root) :
    ∃ later, middle.replaceChild (some id) (some old) new.root = (later, true) ∧
      Remakes store later (.node id shape (front ++ part :: back))
        (.node id (shape.withSlots ((front ++ new :: back).map Tree.root)) (front ++ new :: back))
        extras := by
  have works : Works store middle id shape (front ++ part :: back) [part] (front ++ back) :=
    ⟨holds, nodup, List.perm_middle, work.touches⟩
  have foundMiddle := works.found.2
  have around : Rebuilds store middle (front ++ part :: back ++ [])
      ((front ++ new :: back) ++ extras) :=
    (@Works.rebuilds _ _ _ _ _ _ _ [new] extras works work).perm
      ((List.perm_middle.symm : (new :: (front ++ back)).Perm _).append_right extras)
  obtain ⟨later, result, reshapes⟩ :=
    replaceChild_reshapes foundMiddle (works.replaceFirst_slots rooted new)
  obtain ⟨rebuilds, link⟩ := Rebuilds.reshaping works.alone around reshapes
    (works.closes_swapping rooted quiet bodied) fun prelude framed =>
      works.isFramed_swapping rooted noBlock work.kinds reshapes framed
  refine ⟨later, result, rebuilds, rfl, Tree.text?_withSlots _ _ _, link, ?_, needs⟩
  rintro body prelude same isFramed
  cases same
  refine headed later prelude (reshapes.keepsKinds foundMiddle (Shape.kind_withSlots _ _)) ?_ isFramed
  rw [reshapes.shapes, if_pos rfl, List.map_append, List.map_cons]

/-- A new tree takes the place of a plain node. -/
theorem Remakes.replacing {inner : Shape}
    (holds : store.Holds (.node id shape (front ++ part :: back)))
    (nodup : (Tree.node id shape (front ++ part :: back)).names.Nodup)
    (work : Rebuilds store middle [part] (new :: extras)) (rooted : part.root = some old)
    (there : store.shape? (some old) = some inner) (plain : inner.isPlain = true)
    (needs : part.NeedsNoMore new) (fits : middle.Fits inner new.root) :
    ∃ later, middle.replaceChild (some id) (some old) new.root = (later, true) ∧
      Remakes store later (.node id shape (front ++ part :: back))
        (.node id (shape.withSlots ((front ++ new :: back).map Tree.root)) (front ++ new :: back))
        extras := by
  have isPlain : store.satisfies (some old) Shape.isPlain = true := by
    rw [satisfies, there]
    exact plain
  obtain ⟨_, found, -, isBlock, -⟩ := isPlain_of_satisfies isPlain
  have noBlock : store.satisfies (some old) Shape.isBlock = false := by
    rw [satisfies, found]
    exact isBlock
  have partHolds : store.Holds part := holds.within (.deeper (by simp) .whole)
  have text : part.text? = none := partHolds.text?_of_isPlain rooted isPlain
  have roots : shape.slots = (front ++ part :: back).map Tree.root ∧
      store.shape? (some id) = some shape := by
    cases holds with
    | node found _ roots => exact ⟨roots, found⟩
  have outside : id ∉ Tree.namesAll [part] := by
    intro inside
    rw [Tree.namesAll, Tree.namesAll, List.append_nil] at inside
    exact (List.nodup_cons.mp nodup).1 (Tree.mem_namesAll.mpr ⟨part, by simp, inside⟩)
  have foundMiddle : middle.shape? (some id) = some shape := by
    rw [work.touches.shape id (lt_size_of_shape? roots.2) outside, roots.2]
  -- the node has kept its kind, and with it what it was fit for
  obtain ⟨later, thereLater, same⟩ := Option.map_eq_some_iff.mp
    (work.kinds old inner.kind (by rw [kind?, there]; rfl))
  refine Remakes.swapping holds nodup work rooted noBlock (fun _ prelude _ _ isFramed => ?_)
    (needs.replaced text (by rw [rooted]; rfl) roots.1) (fun tidy asked => fits.1 ?_)
    fun tidy asked => fits.2 ?_
  · refine (isFramed.not_plain roots.2 ?_ isPlain).elim
    rw [roots.1, ← rooted]
    simp
  · have calm := (tidy id shape foundMiddle).quiet old asked
    rw [satisfies, thereLater] at calm
    exact (isQuiet_byKind inner later same.symm).trans calm
  · have sound := (tidy id shape foundMiddle).body old asked
    rw [satisfies, thereLater] at sound
    exact (isBody_byKind inner later same.symm).trans sound

end Replacing

end Store

end Unflatten
