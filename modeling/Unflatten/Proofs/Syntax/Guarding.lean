import Unflatten.Proofs.Syntax.Copying

/-! # Guarded names

Part of a store guards some names if an identifier with one of these names stands there only
where it selects, is assigned to, or names no variable.  Edits of this part keep it guarded as
long as no such identifier becomes a statement: copies stand where the originals stand, and a
container that gets other statements holds no guarded name before or after. -/

set_option autoImplicit false

namespace Unflatten

namespace Shape

/-- Whether an identifier in a slot of the shape selects, is assigned to, or names no variable or
declares one. -/
def permits (shape : Shape) (slot : Slot) : Bool :=
  match shape with
  | .switch discriminant _ => discriminant == slot
  | .binary left operator _ => operator == .equals && left == slot
  | .access false _ property => property == slot
  | .propertyAssignment name _ | .declaration name _ | .catchClause name _ => name == slot
  | .labeled _ _ | .jump _ _ => true
  | .function _ name parameters _ => name == slot || parameters.contains slot
  | _ => false

theorem permits_withSlots {shape : Shape} {slot : Slot} (rename : Slot → Slot)
    (permitted : shape.permits slot = true) :
    (shape.withSlots (shape.slots.map rename)).permits (rename slot) = true := by
  cases shape
  case switch => simp_all [permits, slots, withSlots]
  case binary => simp_all [permits, slots, withSlots]
  case access isElement _ _ => cases isElement <;> simp_all [permits, slots, withSlots]
  case propertyAssignment => simp_all [permits, slots, withSlots]
  case declaration => simp_all [permits, slots, withSlots]
  case catchClause => simp_all [permits, slots, withSlots]
  case labeled => rfl
  case jump => rfl
  case function isExpression name parameters body =>
    simp only [permits, Bool.or_eq_true, beq_iff_eq, List.contains_iff_mem] at permitted
    have listed : (parameters.map rename ++ [rename body]).dropLast = parameters.map rename :=
      List.dropLast_concat
    simp only [permits, slots, withSlots, List.map_cons, List.map_append, List.map_nil,
      List.getElem?_cons_zero, Option.join_some, List.drop_succ_cons, List.drop_zero, listed,
      Bool.or_eq_true, beq_iff_eq, List.contains_iff_mem]
    exact permitted.imp (congrArg rename) List.mem_map_of_mem
  all_goals cases permitted

/-- No statement of a container is in such a slot. -/
theorem not_permits_of_statements? {shape : Shape} {statements : List Slot} (slot : Slot)
    (found : shape.statements? = some statements) : shape.permits slot = false := by
  cases shape
  case file => rfl
  case block => rfl
  case clause => rfl
  all_goals cases found

theorem statements?_subset {shape : Shape} {statements : List Slot}
    (found : shape.statements? = some statements) : statements ⊆ shape.slots := by
  cases shape
  case file =>
    cases found
    exact List.Subset.refl _
  case block =>
    cases found
    exact List.Subset.refl _
  case clause =>
    cases found
    exact List.subset_cons_self _ _
  all_goals cases found

/-- The slots of a container with other statements. -/
theorem slots_withStatements? {shape changed : Shape} {statements : List Slot}
    (found : shape.withStatements? statements = some changed) :
    changed.slots ⊆ shape.slots ++ statements ∧ changed.statements? = some statements := by
  cases shape
  case file =>
    cases found
    exact ⟨List.subset_append_right _ _, rfl⟩
  case block =>
    cases found
    exact ⟨List.subset_append_right _ _, rfl⟩
  case clause =>
    cases found
    exact ⟨List.cons_subset.mpr ⟨List.mem_append_left _ List.mem_cons_self,
      List.subset_append_right _ _⟩, rfl⟩
  all_goals cases found

theorem some_mem_slots_of_mem_children {shape : Shape} {id : NodeId} (member : id ∈ shape.children) :
    some id ∈ shape.slots := by
  obtain ⟨slot, visible, rfl⟩ := List.mem_filterMap.mp member
  cases shape
  case loop kind _ _ _ _ =>
    cases kind
    case forLoop => exact visible
    all_goals
      simp only [Shape.visible, List.mem_cons, List.not_mem_nil, or_false] at visible
      simp only [slots, List.mem_cons, List.not_mem_nil, or_false]
      rcases visible with same | same
      all_goals simp [same]
  all_goals exact visible

end Shape

namespace Store

/-- Whether a node is an identifier with one of some names. -/
def IsAmong (store : Store) (names : List String) (id : NodeId) : Prop :=
  ∃ name ∈ names, store.identifier? (some id) = some name

/-- Part of a store guards some names.  Nodes that are made belong to it. -/
structure Guarded (names : List String) (own : NodeId → Prop) (store : Store) : Prop where
  fresh : ∀ id, store.nodes.size ≤ id → own id
  slots : ∀ id shape child, own id → store.shape? (some id) = some shape →
    some child ∈ shape.slots → own child ∧ child < store.nodes.size ∧
      (store.IsAmong names child → shape.permits (some child) = true)

/-- A slot of the guarded part that is empty or holds no guarded name. -/
def IsFree (names : List String) (own : NodeId → Prop) (store : Store) (slot : Slot) : Prop :=
  ∀ id, slot = some id → own id ∧ id < store.nodes.size ∧ ¬ store.IsAmong names id

/-- A store goes on from another: its identifiers have the same texts. -/
structure Extends (store later : Store) : Prop where
  size : store.nodes.size ≤ later.nodes.size
  text : ∀ id, id < store.nodes.size → later.identifier? (some id) = store.identifier? (some id)

section Extends
variable {store middle later : Store} {names : List String} {own : NodeId → Prop} {slot : Slot}
  {id : NodeId}

theorem Extends.refl (store : Store) : Extends store store := ⟨Nat.le_refl _, fun _ _ => rfl⟩

theorem Extends.trans (first : Extends store middle) (second : Extends middle later) :
    Extends store later := by
  refine ⟨Nat.le_trans first.size second.size, fun id bound => ?_⟩
  rw [second.text id (Nat.lt_of_lt_of_le bound first.size), first.text id bound]

theorem Keeps.extends (keeps : store.Keeps later) (size : store.nodes.size ≤ later.nodes.size) :
    Extends store later := by
  refine ⟨size, fun id bound => ?_⟩
  cases found : store.shape? (some id) with
  | none => simp [Store.shape?, node?, bound] at found
  | some shape => rw [identifier?, identifier?, found, keeps id shape found]

theorem Extends.isAmong_iff (extends_ : Extends store later) (bound : id < store.nodes.size) :
    later.IsAmong names id ↔ store.IsAmong names id := by
  unfold IsAmong
  rw [extends_.text id bound]

theorem Extends.isFree (extends_ : Extends store later) (free : IsFree names own store slot) :
    IsFree names own later slot := by
  intro id same
  obtain ⟨inside, bound, other⟩ := free id same
  exact ⟨inside, Nat.lt_of_lt_of_le bound extends_.size,
    fun among => other ((extends_.isAmong_iff bound).mp among)⟩

end Extends

section Guarded
variable {store later : Store} {names : List String} {own : NodeId → Prop} {id container : NodeId}
  {shape : Shape} {listed : List Slot} {slot : Slot}

/-- The statements of a container hold no guarded name. -/
theorem Guarded.isFree_statements (guarded : Guarded names own store) (inside : own id)
    (found : store.statements? (some id) = some listed) :
    ∀ slot ∈ listed, IsFree names own store slot := by
  rintro _ member child rfl
  obtain ⟨shape, shaped, has⟩ := Option.bind_eq_some_iff.mp found
  obtain ⟨within, bound, permitted⟩ :=
    guarded.slots id shape child inside shaped (Shape.statements?_subset has member)
  refine ⟨within, bound, fun among => ?_⟩
  have refused := Shape.not_permits_of_statements? (some child) has
  rw [permitted among] at refused
  cases refused

theorem Guarded.isFree_getD (guarded : Guarded names own store)
    (inside : ∀ id, slot = some id → own id) :
    ∀ statement ∈ (store.statements? slot).getD [], IsFree names own store statement := by
  cases slot with
  | none => exact List.forall_mem_nil _
  | some id =>
    cases found : store.statements? (some id) with
    | none => exact List.forall_mem_nil _
    | some statements => exact guarded.isFree_statements (inside id rfl) found

theorem isAmong_of_shape {other : Shape} (found : store.shape? (some id) = some other)
    (noName : ∀ text, other ≠ .identifier text) : ¬ store.IsAmong names id := by
  rintro ⟨name, -, same⟩
  rw [identifier?, found] at same
  cases other
  case identifier text => exact noName text rfl
  all_goals cases same

/-- A new node is guarded if it permits the names in its slots. -/
theorem Guarded.push (guarded : Guarded names own store)
    (keeps : store.Keeps later) (size : later.nodes.size = store.nodes.size + 1)
    (others : ∀ id, id < store.nodes.size → later.shape? (some id) = store.shape? (some id))
    (made : later.shape? (some store.nodes.size) = some shape)
    (slots : ∀ child, some child ∈ shape.slots → own child ∧ child < store.nodes.size ∧
      (store.IsAmong names child → shape.permits (some child) = true)) :
    Guarded names own later := by
  have grows : store.nodes.size ≤ later.nodes.size := by omega
  have extends_ := keeps.extends grows
  refine ⟨fun id beyond => guarded.fresh id (Nat.le_trans grows beyond),
    fun id there child inside found member => ?_⟩
  have carried : ∀ {shape : Shape}, own child ∧ child < store.nodes.size ∧
      (store.IsAmong names child → shape.permits (some child) = true) →
      own child ∧ child < later.nodes.size ∧
        (later.IsAmong names child → shape.permits (some child) = true) := by
    rintro shape ⟨within, bound, permitted⟩
    exact ⟨within, Nat.lt_of_lt_of_le bound grows,
      fun among => permitted ((extends_.isAmong_iff bound).mp among)⟩
  by_cases same : id = store.nodes.size
  · rw [same, made] at found
    cases found
    exact carried (slots child member)
  · have bound : id < store.nodes.size := by
      have below := lt_size_of_shape? found
      rw [size] at below
      exact Nat.lt_of_le_of_ne (Nat.lt_succ_iff.mp below) same
    rw [others id bound] at found
    exact carried (guarded.slots id there child inside found member)

theorem Guarded.make (guarded : Guarded names own store)
    (slots : ∀ child, some child ∈ shape.slots → own child ∧ child < store.nodes.size ∧
      (store.IsAmong names child → shape.permits (some child) = true)) :
    Guarded names own (store.make shape).1 := by
  refine guarded.push (keeps_make store shape) (size_make store shape) ?_
    (shape?_make_id store shape) slots
  intro id bound
  rw [shape?_make, if_neg (Nat.ne_of_lt bound)]

/-- A new `break` is a statement of the guarded part. -/
theorem Guarded.makeBreak (guarded : Guarded names own store) :
    Guarded names own store.makeBreak.1 ∧ Extends store store.makeBreak.1 ∧
      IsFree names own store.makeBreak.1 (some store.makeBreak.2) := by
  have size : store.makeBreak.1.nodes.size = store.nodes.size + 1 := size_make store _
  refine ⟨guarded.make ?_,
    (keeps_make store _).extends (Nat.le_trans (Nat.le_succ _) (Nat.le_of_eq size.symm)), ?_⟩
  · intro child member
    simp [Shape.slots] at member
  · intro id same
    cases same
    refine ⟨guarded.fresh _ (Nat.le_refl _), ?_, isAmong_of_shape (shape?_make_id store _) ?_⟩
    · rw [size]
      exact Nat.lt_succ_self _
    · intro text impossible
      cases impossible

/-- A container of the guarded part gets other statements. -/
theorem Guarded.setStatements {statements : List Slot} (guarded : Guarded names own store)
    (inside : ∀ id, slot = some id → own id)
    (free : ∀ statement ∈ statements, IsFree names own store statement) :
    Guarded names own (store.setStatements slot statements).1 ∧
      Extends store (store.setStatements slot statements).1 := by
  unfold Store.setStatements
  split
  · rename_i container shape found
    split
    · rename_i removed changed had has
      have sameSize : (((store.setShape container changed).releaseAll removed container).setParents
          statements (some container)).nodes.size = store.nodes.size := by
        rw [size_setParents, size_releaseAll, size_setShape]
      have shapes : ∀ id, (((store.setShape container changed).releaseAll removed container).setParents
          statements (some container)).shape? (some id) =
            if container = id then some changed else store.shape? (some id) := by
        intro id
        rw [shape?_setParents, shape?_releaseAll, shape?_setShape]
        by_cases same : container = id
        · subst same
          rw [if_pos ⟨rfl, lt_size_of_shape? found⟩, if_pos rfl]
        · rw [if_neg fun both => same both.1, if_neg same]
      have noName : ∀ {shape : Shape} {listed : List Slot}, shape.statements? = some listed →
          ∀ text, shape ≠ .identifier text := by
        rintro _ listed has text rfl
        cases has
      obtain ⟨slots, listed⟩ := Shape.slots_withStatements? has
      have extends_ : Extends store (((store.setShape container changed).releaseAll removed
          container).setParents statements (some container)) := by
        refine ⟨Nat.le_of_eq sameSize.symm, fun id bound => ?_⟩
        rw [identifier?, identifier?, shapes]
        by_cases same : container = id
        · subst same
          rw [if_pos rfl, found]
          cases changed
          case identifier text => exact absurd rfl (noName listed text)
          all_goals
            cases shape
            case identifier text => exact absurd rfl (noName had text)
            all_goals rfl
        · rw [if_neg same]
      refine ⟨⟨fun id beyond => guarded.fresh id (Nat.le_trans (Nat.le_of_eq sameSize.symm) beyond),
        ?_⟩, extends_⟩
      intro id there child within shaped member
      rw [shapes] at shaped
      by_cases same : container = id
      · subst same
        rw [if_pos rfl] at shaped
        cases shaped
        rcases List.mem_append.mp (slots member) with old | new
        · obtain ⟨ownChild, bound, permitted⟩ := guarded.slots _ _ child within found old
          refine ⟨ownChild, Nat.lt_of_lt_of_le bound extends_.size, fun among => ?_⟩
          have refused := Shape.not_permits_of_statements? (some child) had
          rw [permitted ((extends_.isAmong_iff bound).mp among)] at refused
          cases refused
        · obtain ⟨ownChild, bound, other⟩ := free _ new child rfl
          exact ⟨ownChild, Nat.lt_of_lt_of_le bound extends_.size,
            fun among => absurd ((extends_.isAmong_iff bound).mp among) other⟩
      · rw [if_neg same] at shaped
        obtain ⟨ownChild, bound, permitted⟩ := guarded.slots id there child within shaped member
        exact ⟨ownChild, Nat.lt_of_lt_of_le bound extends_.size,
          fun among => permitted ((extends_.isAmong_iff bound).mp among)⟩
    · exact ⟨guarded, .refl store⟩
  · exact ⟨guarded, .refl store⟩

end Guarded

/-! ## Copies -/

/-- Nodes have been copied into a store: the copies are guarded and have the texts of the
originals. -/
structure CopiedGuarded (names : List String) (own : NodeId → Prop) (store later : Store)
    (copies : List (NodeId × Slot)) : Prop where
  guarded : Guarded names own later
  keeps : store.Keeps later
  size : store.nodes.size ≤ later.nodes.size
  copies : ∀ pair ∈ copies, ∀ copy, pair.2 = some copy → own copy ∧ copy < later.nodes.size ∧
    later.identifier? (some copy) = store.identifier? (some pair.1)

section Copies
variable {store later : Store} {names : List String} {own : NodeId → Prop} {id : NodeId}
  {depth : Nat}

/-- One more copy. -/
theorem CopiedGuarded.cons {copies : List (NodeId × Slot)} {final : Store} {copy : Slot}
    (done : CopiedGuarded names own store later copies) (bound : id < store.nodes.size)
    (step : CopiedGuarded names own later final [(id, copy)]) :
    CopiedGuarded names own store final ((id, copy) :: copies) := by
  have extends_ := step.keeps.extends step.size
  refine ⟨step.guarded, done.keeps.trans step.keeps, Nat.le_trans done.size step.size, ?_⟩
  intro pair member made same
  rcases List.mem_cons.mp member with rfl | old
  · obtain ⟨inside, below, text⟩ := step.copies _ (List.mem_singleton_self _) made same
    exact ⟨inside, below, text.trans ((done.keeps.extends done.size).text id bound)⟩
  · obtain ⟨inside, below, text⟩ := done.copies pair old made same
    exact ⟨inside, Nat.lt_of_lt_of_le below extends_.size, (extends_.text made below).trans text⟩

/-- Copying nodes of the guarded part keeps it guarded. -/
theorem copyChildren_guarded {ids : List NodeId} {copies : List (NodeId × Slot)}
    (each : ∀ {store : Store} {id : NodeId}, Guarded names own store → own id →
      id < store.nodes.size →
      CopiedGuarded names own store (store.copyTo depth id).1 [(id, (store.copyTo depth id).2)])
    (inside : ∀ id ∈ ids, own id ∧ id < store.nodes.size)
    (done : CopiedGuarded names own store later copies) :
    CopiedGuarded names own store (copyChildren depth ids (later, copies)).1
      (copyChildren depth ids (later, copies)).2 := by
  induction ids generalizing later copies with
  | nil => exact done
  | cons id rest ih =>
    obtain ⟨own_, bound⟩ := inside id List.mem_cons_self
    have step := each done.guarded own_ (Nat.lt_of_lt_of_le bound done.size)
    exact ih (fun other member => inside other (List.mem_cons_of_mem id member))
      (done.cons bound step)

theorem mem_of_lookup {copies : List (NodeId × Slot)} {slot : Slot}
    (found : copies.lookup id = some slot) : (id, slot) ∈ copies := by
  induction copies with
  | nil => cases found
  | cons pair rest ih =>
    rw [List.lookup_cons] at found
    split at found
    · rename_i same
      cases found
      rw [eq_of_beq same]
      exact List.mem_cons_self
    · exact List.mem_cons_of_mem pair (ih found)

theorem copyTo_guarded (guarded : Guarded names own store) (inside : own id)
    (bound : id < store.nodes.size) :
    CopiedGuarded names own store (store.copyTo depth id).1 [(id, (store.copyTo depth id).2)] := by
  induction depth generalizing store id with
  | zero =>
    refine ⟨guarded, .refl store, Nat.le_refl _, fun pair member copy same => ?_⟩
    rw [List.mem_singleton.mp member] at same
    cases same
  | succ depth ih =>
    obtain ⟨node, there⟩ : ∃ node, store.nodes[id]? = some node := by simp [bound]
    have found : store.shape? (some id) = some node.shape := by simp [shape?, node?, there]
    have nothing : CopiedGuarded names own store store [] :=
      ⟨guarded, .refl store, Nat.le_refl _, List.forall_mem_nil _⟩
    have children : ∀ child ∈ node.shape.children, own child ∧ child < store.nodes.size := by
      intro child member
      obtain ⟨own_, below, -⟩ := guarded.slots id node.shape child inside found
        (Shape.some_mem_slots_of_mem_children member)
      exact ⟨own_, below⟩
    have copied := copyChildren_guarded ih children nothing
    generalize made : copyChildren depth node.shape.children (store, []) = result at copied
    obtain ⟨later, copies⟩ := result
    obtain ⟨flags, start, stop, unfolded⟩ :=
      copyTo_succ store later depth id found made (copied.keeps id node.shape found)
    rw [unfolded]
    have extends_ := copied.keeps.extends copied.size
    generalize renamed : node.shape.withSlots (node.shape.slots.map (renameSlot copies)) = shape
    have slots : shape.slots = node.shape.slots.map (renameSlot copies) := by
      rw [← renamed, Shape.slots_withSlots _ _ (List.length_map _)]
    have keeps : later.Keeps ((later.push shape flags start stop).1.setParents (shape.children.map some)
        (some later.nodes.size)) := by
      intro other there shaped
      rw [shape?_setParents, shape?_push, if_neg (Nat.ne_of_lt (lt_size_of_shape? shaped)), shaped]
    have size : ((later.push shape flags start stop).1.setParents (shape.children.map some)
        (some later.nodes.size)).nodes.size = later.nodes.size + 1 := by
      rw [size_setParents, push_size]
    have here : ((later.push shape flags start stop).1.setParents (shape.children.map some)
        (some later.nodes.size)).shape? (some later.nodes.size) = some shape := by
      rw [shape?_setParents, shape?_push, if_pos rfl]
    have others : ∀ other, other < later.nodes.size →
        ((later.push shape flags start stop).1.setParents (shape.children.map some)
          (some later.nodes.size)).shape? (some other) = later.shape? (some other) := by
      intro other below
      rw [shape?_setParents, shape?_push, if_neg (Nat.ne_of_lt below)]
    refine ⟨copied.guarded.push keeps size others here fun child member => ?_,
      copied.keeps.trans keeps, ?_, fun pair member copy same => ?_⟩
    · -- a slot of the copy holds the copy of what the slot of the original holds
      rw [slots] at member
      obtain ⟨slot, original, same⟩ := List.mem_map.mp member
      cases slot with
      | none => cases same
      | some first =>
        obtain ⟨own_, below, permitted⟩ := guarded.slots id node.shape first inside found original
        have placed : node.shape.permits (some first) = true → shape.permits (some child) = true := by
          intro allowed
          rw [← renamed, ← same]
          exact Shape.permits_withSlots (renameSlot copies) allowed
        rw [renameSlot, Option.bind_some] at same
        cases looked : copies.lookup first with
        | none =>
          rw [looked] at same
          cases same
          exact ⟨own_, Nat.lt_of_lt_of_le below extends_.size,
            fun among => placed (permitted ((extends_.isAmong_iff below).mp among))⟩
        | some copy =>
          rw [looked, Option.getD_some] at same
          obtain ⟨ownCopy, belowCopy, text⟩ := copied.copies _ (mem_of_lookup looked) child same
          refine ⟨ownCopy, belowCopy, fun among => placed (permitted ?_)⟩
          obtain ⟨name, member, named⟩ := among
          exact ⟨name, member, text.symm.trans named⟩
    · rw [size]
      exact Nat.le_succ_of_le copied.size
    · rw [List.mem_singleton.mp member] at same
      cases same
      refine ⟨copied.guarded.fresh _ (Nat.le_refl _), ?_, ?_⟩
      · rw [size]
        exact Nat.lt_succ_self _
      · rw [List.mem_singleton.mp member, identifier?, identifier?, here, found, ← renamed]
        cases node.shape <;> rfl

theorem copy_guarded {slot : Slot} (guarded : Guarded names own store)
    (inside : ∀ id, slot = some id → own id ∧ id < store.nodes.size) :
    Guarded names own (store.copy slot).1 ∧ Extends store (store.copy slot).1 ∧
      ∀ copy, (store.copy slot).2 = some copy → own copy ∧ copy < (store.copy slot).1.nodes.size ∧
        (store.copy slot).1.identifier? (some copy) = store.identifier? slot := by
  cases slot with
  | none =>
    refine ⟨guarded, .refl store, fun copy impossible => ?_⟩
    cases impossible
  | some id =>
    obtain ⟨own_, bound⟩ := inside id rfl
    have copied := @copyTo_guarded store names own id store.depthBound guarded own_ bound
    exact ⟨copied.guarded, copied.keeps.extends copied.size,
      copied.copies _ (List.mem_singleton_self _)⟩

theorem copyOnto_guarded {slots done : List Slot} (guarded : Guarded names own later)
    (extends_ : Extends store later) (freeDone : ∀ slot ∈ done, IsFree names own later slot)
    (free : ∀ slot ∈ slots, IsFree names own store slot) :
    Guarded names own (copyOnto slots (later, done)).1 ∧
      Extends store (copyOnto slots (later, done)).1 ∧
      ∀ slot ∈ (copyOnto slots (later, done)).2,
        IsFree names own (copyOnto slots (later, done)).1 slot := by
  induction slots generalizing later done with
  | nil => exact ⟨guarded, extends_, freeDone⟩
  | cons slot rest ih =>
    have freeHere := extends_.isFree (free slot List.mem_cons_self)
    obtain ⟨next, more, copies⟩ := copy_guarded guarded
      fun id same => ⟨(freeHere id same).1, (freeHere id same).2.1⟩
    refine @ih (later.copy slot).1 (done ++ [(later.copy slot).2]) next (extends_.trans more) ?_
      fun other member => free other (List.mem_cons_of_mem slot member)
    intro other member
    rcases List.mem_append.mp member with old | new
    · exact more.isFree (freeDone other old)
    · intro id same
      rw [List.mem_singleton.mp new] at same
      obtain ⟨inside, bound, text⟩ := copies id same
      refine ⟨inside, bound, ?_⟩
      rintro ⟨name, listed, named⟩
      cases slot with
      | none => cases text.symm.trans named
      | some original =>
        exact (freeHere original rfl).2.2 ⟨name, listed, text.symm.trans named⟩

/-- The copies of statements are statements. -/
theorem copyAll_guarded {slots : List Slot} (guarded : Guarded names own store)
    (free : ∀ slot ∈ slots, IsFree names own store slot) :
    Guarded names own (store.copyAll slots).1 ∧ Extends store (store.copyAll slots).1 ∧
      ∀ slot ∈ (store.copyAll slots).2, IsFree names own (store.copyAll slots).1 slot :=
  copyOnto_guarded guarded (.refl store) (List.forall_mem_nil _) free

end Copies

end Store

end Unflatten
