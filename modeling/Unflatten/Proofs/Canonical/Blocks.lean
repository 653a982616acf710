import Unflatten.Proofs.Canonical.Leading

/-! # Rules for blocks leave programs standing -/

set_option autoImplicit false

namespace Unflatten

theorem Tree.NeedsNoMore.replacedBody {id : NodeId} {shape : Shape} {front back : List Tree}
    {part new : Tree} (isBody : (Canonical.bodies shape).isEmpty = false)
    (needs : new.unmet ⊆ part.unmet) :
    Tree.NeedsNoMore (.node id shape (front ++ part :: back))
      (.node id (shape.withSlots ((front ++ new :: back).map root)) (front ++ new :: back)) := by
  refine (NeedsNoMore.middle (.inr needs)).elim (fun lost => .inl (stray_mem_unmet_node lost))
    fun fewer => ?_
  cases shape
  case conditionalStatement | loop | forIn =>
    refine .inr (unmet_node_subset (fun _ asked => asked) (fun target left leaves => ?_) fewer)
    cases target <;> exact leaves
  all_goals cases isBody

namespace Canonical

open Store

variable {store : Store} {root id : NodeId} {tree : Tree} {shape : Shape} {body : Slot}

theorem bodies_subset (shape : Shape) : bodies shape ⊆ shape.slots := by
  cases shape <;> simp [bodies, Shape.slots]

theorem bodies_withSlots {front back : List Slot} {old new : Slot}
    (slots : shape.slots = front ++ old :: back) :
    ∀ other ∈ bodies shape, other ≠ old →
      other ∈ bodies (shape.withSlots (front ++ new :: back)) := by
  intro other member distinct
  cases shape
  case conditionalStatement | loop | forIn =>
    rcases front with _ | ⟨a, _ | ⟨b, _ | ⟨c, _ | ⟨d, front⟩⟩⟩⟩ <;>
      first
      | cases slots; simp_all [Shape.withSlots, bodies]
      | simp [Shape.slots] at slots
  all_goals cases member

/-- A body stands in no other slot. -/
theorem not_quiet_of_bodies (isBody : body ∈ bodies shape) (once : shape.slots.count body ≤ 1) :
    body ∉ shape.quietSlots := by
  intro asked
  cases shape
  case conditionalStatement | loop | forIn =>
    simp only [bodies, Shape.quietSlots, List.mem_cons, List.not_mem_nil, or_false] at isBody asked
    try subst asked
    try rcases isBody with rfl | rfl
    all_goals simp [Shape.slots, List.count_cons] at once
  all_goals cases isBody

theorem holdsBody_of_bodies {front back : List Slot} {name : NodeId}
    (slots : shape.slots = front ++ some name :: back) (isBody : some name ∈ bodies shape)
    (once : shape.slots.count (some name) ≤ 1) : shape.holdsBody front.length = true := by
  cases shape
  case conditionalStatement test thenBody elseBody =>
    cases front with
    | nil =>
      cases slots
      simp only [Shape.slots, List.count_cons, List.count_nil, BEq.rfl, if_true] at once
      rcases List.mem_pair.mp isBody with rfl | rfl <;> simp at once
    | cons first front => simp [Shape.holdsBody]
  case loop | forIn =>
    cases List.mem_singleton.mp isBody
    rcases front with _ | ⟨first, _ | ⟨second, _ | ⟨third, _ | ⟨fourth, front⟩⟩⟩⟩ <;>
      first
      | rfl
      | cases slots; simp_all [Shape.slots, List.count_cons] <;> omega
      | simp [Shape.slots] at slots
  all_goals cases isBody

/-- A body, or nothing instead of an empty one, goes into a block. -/
theorem wrapping_takes {name : NodeId} {inner : Shape} {statements : List Slot}
    (stands : store.Stands root tree) (inside : id ∈ tree.names)
    (found : store.shape? (some id) = some shape) (isBody : some name ∈ bodies shape)
    (shaped : store.shape? (some name) = some inner) (noBlock : inner.isBlock = false)
    (either : statements = [] ∧ inner = .emptyStatement ∨ statements = [some name]) :
    ∃ remade changed, Rule.ifBody.Takes (store, tree)
        (((store.makeBlock statements).1.replaceChild (some id) (some name)
          (some (store.makeBlock statements).2)).1, remade) ∧
      id ∈ remade.names ∧ ((store.makeBlock statements).1.replaceChild (some id)
        (some name) (some (store.makeBlock statements).2)).1.shape? (some id) = some changed ∧
      (∀ other ∈ bodies shape, other ≠ some name → other ∈ bodies changed) ∧
      ((store.makeBlock statements).1.replaceChild (some id) (some name)
        (some (store.makeBlock statements).2)).2 = true := by
  obtain ⟨below, within, holds, nodup, roots⟩ := stands.opened inside found
  have listed : some name ∈ below.map Tree.root := roots ▸ bodies_subset shape isBody
  obtain ⟨part, member, rooted⟩ := List.mem_map.mp listed
  obtain ⟨front, back, rfl⟩ := List.append_of_mem member
  have partHolds := holds.within (.deeper member .whole)
  have all : store.HoldsAll [part] :=
    partHolds.alone (Tree.nodup_of_mem_namesAll (List.nodup_cons.mp nodup).2 member)
  have isBlock : store.satisfies (some name) Shape.isBlock = false := by
    rw [satisfies, shaped]
    exact noBlock
  have loose : ∀ prelude, ¬ store.IsFramedBody id prelude := by
    rintro prelude ⟨statements, there, -⟩
    rw [found] at there
    cases there
    cases isBody
  have present : (bodies shape).isEmpty = false := by
    rw [List.isEmpty_eq_false_iff]
    exact List.ne_nil_of_mem isBody
  have once : shape.slots.count (some name) ≤ 1 := by
    rw [roots]
    exact Nat.le_trans (Tree.count_roots_le _ name)
      (List.nodup_iff_count_le_one.mp (List.nodup_cons.mp nodup).2 name)
  have slots : shape.slots = front.map Tree.root ++ some name :: back.map Tree.root := by
    rw [roots, ← rooted]
    simp
  have place : shape.holdsBody front.length = true := by
    rw [← List.length_map Tree.root]
    exact holdsBody_of_bodies slots isBody once
  obtain ⟨later, block, new, extras, made, newRoot, work, needs, fits, steps⟩ : ∃ later block new extras,
      store.makeBlock statements = (later, block) ∧ new.root = some block ∧
      Rebuilds store later [part] (new :: extras) ∧ new.unmet ⊆ part.unmet ∧
      later.IsBodyAt new.root ∧ ∀ changed : Shape, changed.withSlots [] = shape.withSlots [] →
        Rewrites store .ifBody (.node id shape (front ++ part :: back))
          (.node id changed (front ++ new :: back)) := by
    obtain ⟨parts, rfl, partRoots⟩ := partHolds.eq_node rooted shaped
    rcases either with ⟨rfl, rfl⟩ | rfl
    · cases List.map_eq_nil_iff.mp partRoots.symm
      obtain ⟨later, block, made, work, needs, -, foundNew⟩ := (Rebuilds.refl all).andNode
        (.block []) [] [.node name .emptyStatement []] (.refl _) rfl rfl (List.forall_mem_nil _) rfl
      exact ⟨later, block, _, _, made, rfl, work, by rw [needs]; exact List.nil_subset _,
        isBodyAt_of_shape? foundNew rfl, fun changed same => .emptied place same⟩
    · obtain ⟨later, block, made, work, needs, -, foundNew⟩ := (Rebuilds.refl all).andNode
        (.block [some name]) [.node name inner parts] [] (.refl _) rfl rfl (List.forall_mem_nil _) rfl
      exact ⟨later, block, _, _, made, rfl, work, by rw [needs]; simp,
        isBodyAt_of_shape? foundNew rfl, fun changed same => .wrapped place noBlock same⟩
  obtain ⟨last, result, remakes⟩ := Remakes.swapping holds nodup work rooted isBlock
    (fun _ prelude _ _ framed => absurd framed (loose prelude)) (.replacedBody present needs)
    (fun _ asked => absurd asked (not_quiet_of_bodies isBody once)) fun _ _ => fits
  obtain ⟨whole, remade, placed⟩ := remakes.without.within_placed within stands.holds stands.nodup
  have descends : store.Descends ((store.makeBlock statements).1.replaceChild (some id) (some name)
      (some (store.makeBlock statements).2)).1 := (descends_make _).trans (descends_replaceChild _ _ _)
  rw [made, ← newRoot, result] at descends ⊢
  refine ⟨whole, shape.withSlots ((front ++ new :: back).map Tree.root),
    ⟨remade, descends, _, _, steps _ (Shape.withSlots_withSlots _ _ _), placed⟩,
    placed.names_subset List.mem_cons_self, ?_, ?_, rfl⟩
  · exact (remakes.rebuilds.all.holds _ List.mem_cons_self).shape?_node
  · rw [List.map_append, List.map_cons]
    exact bodies_withSlots slots

theorem wrapBody_takes (stands : store.Stands root tree) (inside : id ∈ tree.names)
    (found : store.shape? (some id) = some shape) (isBody : body ∈ bodies shape) :
    ((wrapBody store id body).1 = store ∧ (wrapBody store id body).2 = false ∧
        ∀ inner, store.shape? body = some inner → inner.isBlock = true) ∨
      ∃ remade changed, Rule.ifBody.Takes (store, tree) ((wrapBody store id body).1, remade) ∧
        id ∈ remade.names ∧ (wrapBody store id body).1.shape? (some id) = some changed ∧
        (∀ other ∈ bodies shape, other ≠ body → other ∈ bodies changed) ∧
        (wrapBody store id body).2 = true := by
  unfold wrapBody
  split
  · rename_i none
    exact .inl ⟨rfl, rfl, fun inner there => nomatch none.symm.trans there⟩
  · rename_i statements isBlock
    refine .inl ⟨rfl, rfl, fun inner there => ?_⟩
    cases isBlock.symm.trans there
    rfl
  rename_i inner noBlock shaped
  cases body with
  | none => cases shaped
  | some name =>
    have isBlock : inner.isBlock = false := by
      cases inner
      case block => exact absurd rfl (noBlock _)
      all_goals rfl
    refine .inr (wrapping_takes stands inside found isBody shaped isBlock ?_)
    split
    · exact .inl ⟨rfl, rfl⟩
    · exact .inr rfl

theorem ifBody_taken (stands : store.Stands root tree) (inside : id ∈ tree.names) :
    store.Taken (ifBody store id) tree .ifBody
      (∀ shape, store.shape? (some id) = some shape → ∀ body ∈ bodies shape,
        ∀ inner, store.shape? body = some inner → inner.isBlock = true) := by
  unfold ifBody
  cases found : store.shape? (some id) with
  | none => exact .unchanged fun _ impossible => nomatch impossible
  | some shape =>
  have bodiless (none : bodies shape = []) : ∀ other, some shape = some other →
      ∀ body ∈ bodies other, ∀ inner, store.shape? body = some inner → inner.isBlock = true := by
    rintro other ⟨⟩ body member
    rw [none] at member
    cases member
  have single (body : Slot) (only : bodies shape = [body]) :
      store.Taken (Outcome.ofEdit ((wrapBody store id body).1, false || (wrapBody store id body).2))
        tree .ifBody (∀ other, some shape = some other → ∀ body ∈ bodies other,
          ∀ inner, store.shape? body = some inner → inner.isBlock = true) := by
    rcases wrapBody_takes stands inside found (only ▸ List.mem_singleton_self body) with
      ⟨same, still, isBlock⟩ | ⟨remade, changed, takes, -, -, -, applied⟩
    · rw [still, same]
      refine .unchanged ?_
      rintro other ⟨⟩ also member
      rw [only, List.mem_singleton] at member
      exact member ▸ isBlock
    · rw [applied]
      exact .inl ⟨remade, .single takes, rfl⟩
  cases shape
  case loop kind initializer condition incrementor body => exact single body rfl
  case forIn initializer expression body => exact single body rfl
  case conditionalStatement test thenBody elseBody =>
    change store.Taken (Outcome.ofEdit ((wrapBody (wrapBody store id thenBody).1 id elseBody).1,
      (false || (wrapBody store id thenBody).2) ||
        (wrapBody (wrapBody store id thenBody).1 id elseBody).2)) tree _ _
    rcases wrapBody_takes stands inside found (by simp [bodies] : thenBody ∈ _) with
      ⟨same, still, isBlock⟩ | ⟨remade, changed, takes, inside', shaped, stays, applied⟩
    · rw [still, same]
      rcases wrapBody_takes stands inside found (by simp [bodies] : elseBody ∈ _) with
        ⟨same', still', isBlock'⟩ | ⟨remade, changed, takes, -, -, -, applied⟩
      · rw [still', same']
        refine .unchanged ?_
        rintro other ⟨⟩ body member
        rcases List.mem_pair.mp member with rfl | rfl
        · exact isBlock
        · exact isBlock'
      · rw [applied]
        exact .inl ⟨remade, .single takes, rfl⟩
    · have apart : elseBody ≠ thenBody := by
        rintro rfl
        cases elseBody with
        | none => cases applied
        | some name =>
          obtain ⟨below, -, -, nodup, roots⟩ := stands.opened inside found
          have twice := Nat.le_trans (Tree.count_roots_le below name)
            (List.nodup_iff_count_le_one.mp (List.nodup_cons.mp nodup).2 name)
          rw [← roots] at twice
          simp only [Shape.slots, List.count_cons, List.count_nil, beq_self_eq_true,
            if_true] at twice
          omega
      rw [applied]
      rcases wrapBody_takes (stands.remade takes.remakes) inside' shaped
          (stays elseBody (by simp [bodies]) apart) with
        ⟨same', still', -⟩ | ⟨last, _, more, -, -, -, applied'⟩
      · rw [still', same']
        exact .inl ⟨remade, .single takes, rfl⟩
      · rw [applied']
        exact .inl ⟨last, .tail (.single takes) more, rfl⟩
  all_goals exact .unchanged (bodiless rfl)

theorem switchCase_reworked (stands : store.Stands root tree) (inside : id ∈ tree.names) :
    store.Reworked (switchCase store id) tree .switchCase
      (∀ isDefault label statements,
        store.shape? (some id) = some (.clause isDefault label statements) →
        ∃ block, statements = [block] ∧ store.satisfies block Shape.isBlock = true) := by
  unfold switchCase
  split
  swap
  · rename_i other
    exact .unchanged fun isDefault label statements found =>
      absurd found (other isDefault label statements)
  rename_i isDefault label statements found
  extract_lets isSettled
  split
  · rename_i settled
    refine .unchanged fun _ _ others also => ?_
    cases found.symm.trans also
    unfold isSettled at settled
    split at settled
    · exact ⟨_, rfl, settled⟩
    · cases settled
  rename_i unsettled
  obtain ⟨below, within, holds, nodup, -⟩ := stands.opened inside found
  obtain ⟨lead, old, rfl, leading, rfl⟩ := holds.split_statements rfl
  have all : store.HoldsAll old := by
    obtain ⟨-, rest, -⟩ := holdsAll_append.mp (holds.holdsAll_below nodup)
    exact rest
  obtain ⟨first, rfl, -⟩ := List.map_eq_singleton_iff.mp leading.symm
  have open' : ∀ block slots below, old ≠ [.node block (.block slots) below] := by
    rintro block slots below rfl
    have shaped : store.shape? (some block) = some (.block slots) :=
      (all.holds _ List.mem_cons_self).shape?_node
    have isBlock : store.satisfies (some block) Shape.isBlock = true := by
      rw [satisfies, shaped]
      rfl
    exact unsettled isBlock
  obtain ⟨later, block, made, work, needs, -, -⟩ := (Rebuilds.refl all).andNode
    (.block (old.map Tree.root)) old [] (by simp) rfl rfl (List.forall_mem_nil _) rfl
  have loose : ∀ prelude, ¬ store.IsFramedBody id prelude := by
    rintro prelude ⟨statements, there, -⟩
    rw [found] at there
    cases there
  have alone : Rebuilds store later old ([.inBlock block old] ++ []) := work
  obtain ⟨last, changed, result, changes, remakes⟩ := Remakes.setting holds nodup leading rfl alone
    loose (.inr (by simp [Tree.inBlock, needs]))
  obtain ⟨whole, remade, placed⟩ := remakes.within_placed within stands.holds stands.nodup
  rw [List.map_singleton, Tree.inBlock, Tree.root_node] at result
  simp only [makeBlock, made]
  rw [result]
  cases changes
  exact .step remade placed (.gathered open' rfl)

/-! ## Nested blocks -/

theorem exists_of_isSpliceable {slot : Slot} (splices : isSpliceable store slot = true) :
    ∃ statements, store.shape? slot = some (.block statements) := by
  rw [isSpliceable, Bool.and_eq_true, satisfies, Option.any_eq_true] at splices
  obtain ⟨⟨shape, found, isBlock⟩, -⟩ := splices
  cases shape
  case block => exact ⟨_, found⟩
  all_goals cases isBlock

theorem spread_cases {inner : Tree} (holds : store.Holds inner) :
    (isSpliceable store inner.root = true ∧ ∃ name statements below,
        inner = .node name (.block statements) below ∧ spread store inner = below ∧
        store.shape? (some name) = some (.block statements) ∧
        statements = below.map Tree.root) ∨
      isSpliceable store inner.root = false ∧ spread store inner = [inner] := by
  cases holds with
  | nothing => exact .inr ⟨rfl, rfl⟩
  | @node name shape below found regular roots links held =>
    cases splices : isSpliceable store (some name) with
    | false =>
      refine .inr ⟨splices, ?_⟩
      rw [spread, splices]
      rfl
    | true =>
      obtain ⟨statements, there⟩ := exists_of_isSpliceable splices
      rw [found] at there
      cases there
      refine .inl ⟨splices, name, statements, below, rfl, ?_, found, roots⟩
      rw [spread, splices, if_pos rfl]

theorem spread_rebuilds {trees : List Tree} (all : store.HoldsAll trees) :
    Rebuilds store store trees (trees.flatMap (spread store)) := by
  induction trees with
  | nil => exact .refl all
  | cons first rest ih =>
    have step : Rebuilds store store (first :: rest) (rest ++ spread store first) := by
      rcases spread_cases (all.holds first List.mem_cons_self) with
        ⟨-, name, statements, below, rfl, same, -⟩ | ⟨-, same⟩
      · rw [same]
        exact (Rebuilds.opening all rfl).perm List.perm_append_comm
      · rw [same]
        exact (Rebuilds.refl all).perm (List.perm_append_singleton first rest).symm
    have others := ih (holdsAll_append.mp step.all).1
    exact step.trans ((others.beside step.all).perm List.perm_append_comm)

theorem spread_roots {trees : List Tree} (holds : ∀ tree ∈ trees, store.Holds tree) :
    ((trees.map Tree.root).flatMap fun statement =>
        if isSpliceable store statement then (store.statements? statement).getD []
        else [statement]) = (trees.flatMap (spread store)).map Tree.root ∧
      Tree.unmetAll (trees.flatMap (spread store)) = Tree.unmetAll trees := by
  induction trees with
  | nil => exact ⟨rfl, rfl⟩
  | cons first rest ih =>
    obtain ⟨roots, unmets⟩ := ih fun tree member => holds tree (List.mem_cons_of_mem _ member)
    rw [List.map_cons, List.flatMap_cons, List.flatMap_cons, List.map_append, roots,
      Tree.unmetAll_append, unmets, Tree.unmetAll_cons]
    rcases spread_cases (holds first List.mem_cons_self) with
      ⟨splices, name, statements, below, rfl, same, found, slots⟩ | ⟨splices, same⟩
    · rw [if_pos splices, same, Tree.unmet_of_isClear rfl, Tree.root_node, statements?, found]
      simp [Shape.statements?, slots]
    · rw [if_neg (by rw [splices]; exact Bool.false_ne_true), same]
      simp

theorem flattening_reworked {statements : List Slot} {settled : Prop} (isList : shape.isList = true)
    (stands : store.Stands root tree)
    (inside : id ∈ tree.names) (found : store.shape? (some id) = some shape)
    (has : shape.statements? = some statements)
    (splices : statements.any (isSpliceable store) = true) :
    store.Reworked (Outcome.ofEdit (store.setStatements (some id) (statements.flatMap fun statement =>
      if isSpliceable store statement then (store.statements? statement).getD []
      else [statement]))) tree .flattenBlock settled := by
  obtain ⟨below, within, holds, nodup, -⟩ := stands.opened inside found
  obtain ⟨lead, old, rfl, leading, rfl⟩ := holds.split_statements has
  have all : store.HoldsAll old := (holdsAll_append.mp (holds.holdsAll_below nodup)).2.1
  obtain ⟨roots, unmets⟩ := spread_roots all.holds
  have loose : ∀ prelude, ¬ store.IsFramedBody id prelude := by
    rintro prelude ⟨others, there, steady, -⟩
    rw [found] at there
    cases there
    cases has
    obtain ⟨slot, member, isBlock⟩ := List.any_eq_true.mp splices
    obtain ⟨inner, shaped⟩ := exists_of_isSpliceable isBlock
    have isSteady := steady slot member
    rw [satisfies, shaped] at isSteady
    cases isSteady
  have alone : Rebuilds store store old (old.flatMap (spread store) ++ []) := by
    rw [List.append_nil]
    exact spread_rebuilds all
  obtain ⟨last, changed, result, changes, remakes⟩ := Remakes.setting holds nodup leading has alone
    loose (.inr (by rw [unmets]; exact List.Subset.refl _))
  obtain ⟨whole, remade, placed⟩ := remakes.within_placed within stands.holds stands.nodup
  have leadless : lead = [] := by
    cases shape
    case file | block => exact List.map_eq_nil_iff.mp leading.symm
    all_goals cases isList
  subst leadless
  obtain ⟨slot, member, isBlock⟩ := List.any_eq_true.mp splices
  obtain ⟨part, among, rfl⟩ := List.mem_map.mp member
  have blocks : ∀ name inner below, .node name inner below ∈ [] ++ old →
      isSpliceable store (some name) = true → inner.isBlock = true := by
    intro name inner below member splices
    obtain ⟨statements, there⟩ := exists_of_isSpliceable splices
    cases (all.holds _ member).shape?_node.symm.trans there
    rfl
  rw [roots, result]
  exact .step remade placed (.spliced isList ⟨part, among, isBlock⟩ blocks
    (Shape.withSlots_of_withStatements? changes []))

theorem flattenBlock_reworked (stands : store.Stands root tree) (inside : id ∈ tree.names) :
    store.Reworked (flattenBlock store id) tree .flattenBlock
      (∀ shape statements, store.shape? (some id) = some shape → shape.isList = true →
        shape.statements? = some statements →
        ∀ statement ∈ statements, isSpliceable store statement = false) := by
  unfold flattenBlock
  extract_lets splice
  have each : ∀ shape statements, store.shape? (some id) = some shape → shape.isList = true →
      shape.statements? = some statements → store.Reworked (splice statements) tree .flattenBlock
        (∀ other others, some shape = some other → other.isList = true →
          other.statements? = some others →
          ∀ statement ∈ others, isSpliceable store statement = false) := by
    intro shape statements found isList has
    unfold splice
    split
    · rename_i splices
      exact flattening_reworked isList stands inside found has splices
    · rename_i none
      refine .unchanged fun other others same _ also statement member => ?_
      cases same
      cases has.symm.trans also
      rw [List.any_eq_true, not_exists] at none
      exact Bool.eq_false_iff.mpr fun splices => none statement ⟨member, splices⟩
  split
  · rename_i found
    rw [found]
    exact each _ _ found rfl rfl
  · rename_i found
    rw [found]
    exact each _ _ found rfl rfl
  · rename_i noBlock noFile
    refine .unchanged fun shape statements found isList => ?_
    cases shape
    case block => exact absurd found (noBlock _)
    case file => exact absurd found (noFile _ _)
    all_goals cases isList

/-! ## Functions called on the spot -/

theorem exists_of_calledBody? {slot body : Slot} (called : calledBody? store slot = some body) :
    ∃ expression isAfter operand callee, store.shape? slot = some (.expressionStatement expression) ∧
      store.shape? expression = some (.unary isAfter .exclamation operand) ∧
      store.shape? operand = some (.call false callee []) ∧
      store.shape? callee = some (.function true none [] body) := by
  simp only [calledBody?, Option.bind_eq_bind, Option.bind_eq_some_iff] at called
  obtain ⟨expression, isStatement, -, -, -, -, called⟩ := called
  have found : store.shape? slot = some (.expressionStatement expression) := by
    unfold expression? at isStatement
    split at isStatement
    · rename_i there
      cases isStatement
      exact there
    · cases isStatement
  split at called
  · rename_i first
    split at called
    · rename_i second
      split at called
      · rename_i third
        cases called
        exact ⟨_, _, _, _, found, first, second, third⟩
      · cases called
    · cases called
  · cases called

/-- What jumps to the outside of a function is lost anyway. -/
theorem needsNoMore_body {inner : Tree} {name : NodeId} {isExpression : Bool} {label body : Slot}
    {parameters : List Slot} :
    Tree.NeedsNoMore (.node name (.function isExpression label parameters body) [.nothing, inner])
      inner := by
  have leaves : ∀ target, target ∈ inner.unmet → (target = .breaks ∨ target = .continues) ∧
      .stray ∈ (Tree.node name (.function isExpression label parameters body)
        [.nothing, inner]).unmet ∨ target ∈ (Tree.node name
          (.function isExpression label parameters body) [.nothing, inner]).unmet := by
    intro target needed
    simp only [Tree.unmet, Shape.asks, List.nil_append, Tree.unmetAll_cons,
      Tree.unmetAll_nil, List.append_nil, List.mem_filterMap]
    cases target with
    | breaks => exact .inl ⟨.inl rfl, .breaks, needed, rfl⟩
    | continues => exact .inl ⟨.inr rfl, .continues, needed, rfl⟩
    | label text => exact .inr ⟨.label text, needed, rfl⟩
    | stray => exact .inr ⟨.stray, needed, rfl⟩
  by_cases lost : ∃ target ∈ inner.unmet, target = .breaks ∨ target = .continues
  · obtain ⟨target, needed, jumps⟩ := lost
    refine .inl ((leaves target needed).elim And.right fun there => ?_)
    obtain ⟨other, -, left⟩ := List.mem_filterMap.mp (by
      simpa only [Tree.unmet, Shape.asks, List.nil_append] using there)
    rcases jumps with rfl | rfl <;> cases other <;> cases left
  · exact .inr fun target needed => (leaves target needed).elim
      (fun jumps => absurd ⟨target, needed, jumps.1⟩ lost) fun there => there

/-- The body of a function that is called on the spot takes the place of the statement. -/
theorem inlineCall_placed (stands : store.Stands root tree) (inside : id ∈ tree.names) :
    (∃ outcome, outcome ≠ .changed ∧ inlineCall store id = (store, outcome)) ∨
      ∃ later remade operator call function isAfter body,
        inlineCall store id = (later, .changed) ∧ Remakes store later tree remade [] ∧
        calledBody? store (some id) = some body.root ∧ bodyReason? store body.root = none ∧
        Tree.Within (.calledOnTheSpot id operator call function isAfter body) tree ∧
        Tree.Placed (.calledOnTheSpot id operator call function isAfter body) body tree remade := by
  unfold inlineCall
  split
  · exact .inl ⟨.unchanged, nofun, rfl⟩
  rename_i body called
  split
  · exact .inl ⟨.refused _, nofun, rfl⟩
  rename_i free
  right
  obtain ⟨expression, isAfter, operand, callee, found, first, second, third⟩ :=
    exists_of_calledBody? called
  obtain ⟨below, within, holds, nodup, roots⟩ := stands.opened inside found
  obtain ⟨outer, rfl, rfl⟩ := Tree.one_of_roots roots
  have all := holds.holdsAll_below nodup
  -- the statement, the operator, the call and the function are taken apart
  obtain ⟨operator, below, rfl, outerSlots⟩ := (all.holds outer (by simp)).exists_node first
  obtain ⟨call, rfl, rfl⟩ := Tree.one_of_roots outerSlots
  have opened := Rebuilds.opening all rfl
  obtain ⟨calls, below, rfl, callSlots⟩ := (opened.all.holds call (by simp)).exists_node second
  obtain ⟨function, rfl, rfl⟩ := Tree.one_of_roots callSlots
  have opened := opened.trans (Rebuilds.opening opened.all rfl)
  obtain ⟨name, below, rfl, parts⟩ := (opened.all.holds function (by simp)).exists_node third
  obtain ⟨label, inner, rfl, unnamed, rfl⟩ := Tree.two_of_roots parts
  have opened := opened.trans (Rebuilds.opening opened.all rfl)
  cases label with
  | node => cases unnamed
  | nothing =>
  have opened := opened.trans (Rebuilds.dropping opened.all)
  obtain ⟨later, remade, result, remakes, placed⟩ := stands.replacingOpened_placed within rfl rfl rfl
    opened (by
      rw [Tree.NeedsNoMore, Tree.unmet_of_clear_above rfl rfl, Tree.unmetAll_cons,
        Tree.unmet_of_isClear rfl, Tree.unmetAll_nil, List.append_nil, Tree.unmetAll_cons,
        Tree.unmetAll_nil, List.append_nil]
      exact needsNoMore_body)
    ((stands.tidy.bodyAt third (List.mem_singleton_self _)).fits rfl)
  refine ⟨later, remade, operator, calls, name, isAfter, inner, ?_, remakes, called, free, within, placed⟩
  rw [result]
  rfl

theorem inlineCall_reworked (stands : store.Stands root tree) (inside : id ∈ tree.names) :
    store.Reworked (inlineCall store id) tree .inlineCall True := by
  rcases inlineCall_placed stands inside with
    ⟨outcome, still, same⟩ |
    ⟨later, remade, _, _, _, _, _, result, remakes, -, free, -, placed⟩
  · rw [same]
    exact .untouched still trivial
  · rw [result]
    exact .step remakes placed (.called free)

end Canonical

end Unflatten
