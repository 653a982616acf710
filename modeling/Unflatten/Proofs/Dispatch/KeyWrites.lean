import Unflatten.Proofs.Dispatch.LoopTest

/-! # Where a key is written

A tracked key is written by statements of its dispatcher that are counted or assign `undefined`,
and nowhere else that the tracker looks at.  It does not look at the test of the loop, nor at
declarations: a write there is the only kind that is not accounted for. -/

set_option autoImplicit false

namespace Unflatten

namespace Store

/-- Whether an identifier is declared with a value: by an initializer, or in the head of a `for`
loop over properties. -/
def isInitialized (store : Store) (id : NodeId) : Bool :=
  let declaration := store.parent (some id)
  let list := store.parent declaration
  match store.shape? declaration with
  | some (.declaration name initializer) =>
    name == some id && (initializer.isSome ||
      match store.shape? (store.parent list) with
      | some (.forIn head _ _) => head == list
      | _ => false)
  | _ => false

/-- Whether the variable of an identifier gets a value there. -/
def givesValue (store : Store) (id : NodeId) : Bool := store.isWrite id || store.isInitialized id

section Places
variable {store : Store} {tree : Tree} {id child : NodeId} {shape : Shape}

/-- Around a place that is written there is an operator or the head of a loop. -/
theorem exists_of_isWrite (writes : store.isWrite id = true) :
    ∃ shape, store.shape? (store.parent (some id)) = some shape ∧
      ((∃ operator right, shape = .binary (some id) operator right ∧
          operator.isAssignment = true) ∨
        (∃ after operator operand, shape = .unary after operator operand ∧
          (operator = .plusPlus ∨ operator = .minusMinus)) ∨
        ∃ expression body, shape = .forIn (some id) expression body) := by
  unfold isWrite at writes
  split at writes
  · rename_i left operator right there
    simp only [Bool.and_eq_true, beq_iff_eq] at writes
    obtain ⟨rfl, assigns⟩ := writes
    exact ⟨_, there, .inl ⟨operator, right, rfl, assigns⟩⟩
  · rename_i after operator operand there
    simp only [Bool.or_eq_true, beq_iff_eq] at writes
    exact ⟨_, there, .inr (.inl ⟨after, operator, operand, rfl, writes⟩)⟩
  · rename_i initializer expression body there
    cases eq_of_beq writes
    exact ⟨_, there, .inr (.inr ⟨expression, body, rfl⟩)⟩
  · cases writes

theorem isReference_of_isWrite (writes : store.isWrite id = true) :
    store.isReference id = true ∧ store.isDeclarationName id = false ∧
      store.isInitialized id = false := by
  obtain ⟨shape, there, form⟩ := exists_of_isWrite writes
  simp only [isReference, isDeclarationName, isInitialized, there]
  rcases form with ⟨_, _, rfl, _⟩ | ⟨_, _, _, rfl, _⟩ | ⟨_, _, rfl⟩
  all_goals exact ⟨rfl, rfl, rfl⟩

/-- A statement that gives a name a constant is an assignment. -/
theorem exists_assignment? {statement : Slot} {name : String}
    (constant : (∃ value, store.keyValue? statement name = some value) ∨
      store.isKeyExit statement name = true) :
    ∃ left right, store.assignment? statement = some (left, right) := by
  rcases constant with ⟨value, assigns⟩ | exits
  · obtain ⟨⟨left, right⟩, there, -⟩ := Option.bind_eq_some_iff.mp assigns
    exact ⟨left, right, there⟩
  · rw [isKeyExit, Option.any_eq_true] at exits
    obtain ⟨⟨left, right⟩, there, -⟩ := exits
    exact ⟨left, right, there⟩

theorem parent_of_mem_loopBody {loop : NodeId} {statement : NodeId} (holds : store.Holds tree)
    (inside : loop ∈ tree.names) (member : some statement ∈ store.loopBody loop) :
    (store.shape? (store.parent (some statement))).any (·.statements?.isSome) = true := by
  unfold loopBody at member
  split at member
  · rename_i kind initializer condition incrementor body shaped
    cases body with
    | none => cases member
    | some body =>
      have bodyInside := (holds.slot_mem inside shaped
        (show some body ∈ (Shape.loop kind initializer condition incrementor (some body)).slots by
          simp [Shape.slots])).1
      cases found : store.shape? (some body) with
      | none =>
        rw [statements?, found] at member
        cases member
      | some shape =>
        rw [statements?, found, Option.bind_some] at member
        have slot : some statement ∈ shape.slots := by
          cases shape
          case clause => exact List.mem_cons_of_mem _ member
          case block => exact member
          case file => exact member
          all_goals cases member
        rw [(holds.slot_mem bodyInside found slot).2, found, Option.any_some]
        cases shape
        case clause => rfl
        case block => rfl
        case file => rfl
        all_goals cases member
  · cases member

end Places

end Store

namespace Tracking

section Scan
variable {store : Store} {frame : Frame} {histogram after : Histogram} {reference : NodeId}

/-- What is looked at in a reference that does not stop the count. -/
theorem countReference_passes (counted : countReference store frame histogram reference = .ok after)
    (outsideTest : store.isAncestorOrSelf frame.condition (some reference) = false)
    (outsidePrelude : store.isAncestorOrSelf frame.prelude (some reference) = false) :
    store.isAncestorOrSelf frame.dispatcher (some reference) = true ∧
      (store.isWrite reference = false → isDiscriminant store reference = true) ∧
      (store.isWrite reference = true →
        (∃ value, store.keyValue? (assignmentStatement store reference) frame.name = some value) ∨
          store.isKeyExit (assignmentStatement store reference) frame.name = true) := by
  unfold countReference at counted
  simp only [outsideTest, outsidePrelude, Bool.or_self, Bool.false_eq_true, if_false] at counted
  obtain ⟨below, counted⟩ := of_checked counted
  refine ⟨by simpa using below, fun reads => ?_, fun writes => ?_⟩
  · rw [reads, Bool.not_false, if_pos rfl] at counted
    split at counted
    · assumption
    · cases counted
  · rw [writes, Bool.not_true, if_neg Bool.false_ne_true] at counted
    obtain ⟨_, counted⟩ := of_checked counted
    cases found : store.keyValue? (assignmentStatement store reference) frame.name with
    | some value => exact .inl ⟨value, rfl⟩
    | none =>
      rw [found] at counted
      simp only at counted
      split at counted
      · exact .inr ‹_›
      · cases counted

theorem exists_countReference {references : List NodeId}
    (counted : references.foldlM (countReference store frame) histogram = .ok after)
    (member : reference ∈ references) :
    ∃ before next, countReference store frame before reference = .ok next := by
  induction references generalizing histogram with
  | nil => cases member
  | cons first rest ih =>
    rw [List.foldlM_cons] at counted
    cases step : countReference store frame histogram first with
    | error obstacle =>
      rw [step] at counted
      cases counted
    | ok middle =>
      rw [step] at counted
      rcases List.mem_cons.mp member with rfl | later
      · exact ⟨histogram, middle, step⟩
      · exact ih counted later

/-- Nothing is written in a prelude without effects. -/
theorem not_isWrite_of_isPure {whole prelude : Tree} {root : NodeId} {key : DispatchKey}
    (holds : store.Holds whole) (nodup : whole.names.Nodup) (inside : key.loop ∈ whole.names)
    (framed : Tracking.frame store root key = .ok frame)
    (within : prelude = .nothing ∨ Tree.Within prelude whole) (rooted : prelude.root = frame.prelude)
    (here : reference ∈ prelude.names) : store.isWrite reference = false := by
  obtain ⟨_, _, _, _, _, _, samePrelude, _, _, isPure_, listed⟩ := frame_spec framed
  rcases within with rfl | within
  · cases here
  have held := holds.within within
  cases preludeIs : key.prelude with
  | none =>
    rw [samePrelude, preludeIs] at rooted
    cases prelude with
    | nothing => cases here
    | node => cases rooted
  | some first =>
    rw [samePrelude, preludeIs] at rooted
    rw [preludeIs] at isPure_
    rw [← Bool.not_eq_true]
    intro writes
    obtain ⟨shape, there, form⟩ := Store.exists_of_isWrite writes
    by_cases isRoot : reference = first
    · subst isRoot
      obtain ⟨second, both⟩ := listed reference preludeIs
      have around := Store.parent_of_mem_loopBody holds inside
        (show some reference ∈ store.loopBody key.loop by rw [both]; exact List.mem_cons_self)
      rw [there, Option.any_some] at around
      rcases form with ⟨_, _, rfl, _⟩ | ⟨_, _, _, rfl, _⟩ | ⟨_, _, rfl⟩
      all_goals cases around
    · have inner : reference ∈ prelude.inner := by
        cases prelude with
        | nothing => cases here
        | node name _ _ =>
          rcases List.mem_cons.mp here with rfl | deeper
          · exact absurd (Option.some.inj rooted) isRoot
          · exact deeper
      obtain ⟨above, aboveInside, linked⟩ := held.parent_mem inner
      have allPure := isPure_ rfl
      rw [isPurePrelude, List.all_eq_true, ← rooted] at allPure
      have isPure := allPure above ((held.descendants_perm (within.nodup nodup)).mem_iff.mpr aboveInside)
      rw [linked] at there
      rw [Store.satisfies, there, Option.any_some] at isPure
      rcases form with ⟨_, _, rfl, assigns⟩ | ⟨isAfter, _, _, rfl, updates⟩ | ⟨_, _, rfl⟩
      · rw [Tracking.isPure, assigns] at isPure
        cases isPure
      · cases isAfter with
        | true => cases isPure
        | false =>
          rcases updates with rfl | rfl
          all_goals cases isPure
      · cases isPure

end Scan

/-- An identifier is the target of a statement of the dispatcher that is counted for its value, or
assigns `undefined`. -/
def IsAccounted (store : Store) (key : DispatchKey) (tracked : Tracked) (id : NodeId) : Prop :=
  ∃ statement binary right,
    statement ∈ store.descendants (key.dispatcher? store) ∧
    store.shape? (some statement) = some (.expressionStatement (some binary)) ∧
    store.shape? (some binary) = some (.binary (some id) .equals right) ∧
    ((∃ value, store.keyValue? (some statement) key.name = some value ∧
        0 < tracked.histogram.count value) ∨
      store.isKeyExit (some statement) key.name = true)

section Writes
variable {store : Store} {root : NodeId} {key : DispatchKey} {tracked : Tracked} {id : NodeId}

/-- The count of a value is that of the statements of the dispatcher that assign it, and of the
start. -/
theorem count_eq (isTree : store.IsTree root) (top : store.parent (some root) = none)
    (inside : key.loop ∈ store.descendants (some root))
    (tracks : track store root key = .ok tracked) (value : Int) :
    tracked.histogram.count value = (if value = key.start then 1 else 0) +
      (Expansion.statementsBelow store key.name value [key.dispatcher? store]).length := by
  obtain ⟨prelude, dispatcher, -, -, holds, rooted, nodup, counts⟩ :=
    track_counts isTree top inside tracks
  have same := (@Expansion.statementsBelow_perm store [dispatcher] key.name value
    (by simpa using holds) (by simpa using nodup)).length_eq
  rw [Tree.keyStatementsAll, Tree.keyStatementsAll, List.append_nil, List.map_singleton, rooted]
    at same
  rw [counts, same]

/-- A write outside the test of the loop is accounted for. -/
theorem isAccounted_of_isWrite (isTree : store.IsTree root) (top : store.parent (some root) = none)
    (inside : key.loop ∈ store.descendants (some root))
    (tracks : track store root key = .ok tracked) (present : id ∈ store.descendants (some root))
    (named : store.isIdentifier (some id) key.name = true) (writes : store.isWrite id = true)
    (outside : store.isAncestorOrSelf (loopTest store key) (some id) = false) :
    IsAccounted store key tracked id := by
  have counts := count_eq isTree top inside tracks
  obtain ⟨whole, holds, rooted, nodup⟩ := isTree
  rw [← rooted, (holds.descendants_perm nodup).mem_iff] at inside present
  obtain ⟨found, framed, counted, -⟩ := track_spec tracks
  obtain ⟨_, _, _, _, shaped, sameName, -, sameDispatcher, -⟩ := frame_spec framed
  obtain ⟨condition, prelude, dispatcher, stands⟩ := frame_stands holds nodup inside framed
  have sameTest : loopTest store key = found.condition := by rw [loopTest, shaped]
  rw [sameTest] at outside
  have top' : store.parent whole.root = none := by rw [rooted, top]
  have outsidePrelude : store.isAncestorOrSelf found.prelude (some id) = false := by
    rcases stands.preludeWithin with rfl | within
    · rw [← stands.preludeRoot]
      rfl
    · rw [← stands.preludeRoot, ← Bool.not_eq_true,
        holds.isAncestorOrSelf_iff nodup top' within present]
      intro here
      have reads := not_isWrite_of_isPure holds nodup inside framed (.inr within)
        stands.preludeRoot here
      rw [writes] at reads
      cases reads
  have isReference := Store.isReference_of_isWrite writes
  have listed : id ∈ store.references (some root) key.name :=
    (mem_references holds nodup rooted key.name).mpr
      ⟨present, named, isReference.1, isReference.2.1⟩
  obtain ⟨before, next, step⟩ := exists_countReference counted listed
  obtain ⟨below, -, constant⟩ := countReference_passes step outside outsidePrelude
  rw [← stands.root, holds.isAncestorOrSelf_iff nodup top' stands.within present] at below
  obtain ⟨left, right, there⟩ := Store.exists_assignment? (constant writes)
  rw [← sameName] at named
  obtain ⟨statement, binary, assigned, statementInside, shapeStatement, shapeBinary⟩ :=
    assigned_form holds stands below named writes there
  have listedStatement : statement ∈ store.descendants (key.dispatcher? store) := by
    rw [← sameDispatcher, ← stands.root,
      ((holds.within stands.within).descendants_perm (stands.within.nodup nodup)).mem_iff]
    exact statementInside
  refine ⟨statement, binary, right, listedStatement, shapeStatement, shapeBinary, ?_⟩
  rw [assigned, sameName] at constant
  refine (constant writes).imp_left ?_
  rintro ⟨value, assigns⟩
  refine ⟨value, assigns, ?_⟩
  have member : statement ∈ Expansion.statementsBelow store key.name value
      [key.dispatcher? store] := by
    rw [Expansion.statementsBelow, List.flatMap_singleton, List.mem_filter]
    exact ⟨listedStatement, beq_iff_eq.mpr assigns⟩
  have positive := List.length_pos_of_mem member
  rw [counts]
  omega

/-- What is accounted for is no declaration and does not stand in the test of the loop. -/
theorem not_initialized_of_isAccounted (isTree : store.IsTree root)
    (top : store.parent (some root) = none) (inside : key.loop ∈ store.descendants (some root))
    (tracks : track store root key = .ok tracked) (accounted : IsAccounted store key tracked id) :
    store.isInitialized id = false ∧
      store.isAncestorOrSelf (loopTest store key) (some id) = false := by
  obtain ⟨whole, holds, rooted, nodup⟩ := isTree
  rw [← rooted, (holds.descendants_perm nodup).mem_iff] at inside
  obtain ⟨found, framed, -⟩ := track_spec tracks
  obtain ⟨_, _, _, _, shaped, -, -, sameDispatcher, -⟩ := frame_spec framed
  obtain ⟨condition, prelude, dispatcher, stands⟩ := frame_stands holds nodup inside framed
  obtain ⟨statement, binary, right, listed, shapeStatement, shapeBinary, -⟩ := accounted
  have held := holds.within stands.within
  rw [← sameDispatcher, ← stands.root,
    (held.descendants_perm (stands.within.nodup nodup)).mem_iff] at listed
  have binaryInside := (held.slot_mem listed shapeStatement List.mem_cons_self).1
  obtain ⟨idInside, linked⟩ := held.slot_mem binaryInside shapeBinary List.mem_cons_self
  refine ⟨?_, ?_⟩
  · simp only [Store.isInitialized, linked, shapeBinary]
  · have sameTest : loopTest store key = condition.root := by
      rw [loopTest, shaped, stands.conditionRoot]
    rw [sameTest, ← Bool.not_eq_true, holds.isAncestorOrSelf_iff nodup (by rw [rooted, top])
      stands.conditionWithin (stands.within.names_subset idInside)]
    exact stands.besideCondition id idInside

/-- Every place that gives a tracked key a value is accounted for, except declarations and the
test of the loop, and the counts are those of the statements. -/
theorem writes_accounted (isTree : store.IsTree root) (top : store.parent (some root) = none)
    (inside : key.loop ∈ store.descendants (some root))
    (tracks : track store root key = .ok tracked) :
    (∀ value, tracked.histogram.count value = (if value = key.start then 1 else 0) +
        (Expansion.statementsBelow store key.name value [key.dispatcher? store]).length) ∧
      ∀ id ∈ store.descendants (some root), store.isIdentifier (some id) key.name = true →
        store.givesValue id = true →
        (IsAccounted store key tracked id ↔ store.isInitialized id = false ∧
          store.isAncestorOrSelf (loopTest store key) (some id) = false) := by
  refine ⟨count_eq isTree top inside tracks, fun id present named gives => ⟨fun accounted => ?_, ?_⟩⟩
  · exact not_initialized_of_isAccounted isTree top inside tracks accounted
  · rintro ⟨undeclared, outside⟩
    have writes : store.isWrite id = true := by
      rw [Store.givesValue, undeclared, Bool.or_false] at gives
      exact gives
    exact isAccounted_of_isWrite isTree top inside tracks present named writes outside

/-- The statements of two cases that lead to the same one are accounted for. -/
theorem two_cases_accounted :
    (Expansion.twoCases true).IsTree 0 ∧ (Expansion.twoCases true).parent (some 0) = none ∧
      Expansion.twoCasesKey.loop ∈ (Expansion.twoCases true).descendants (some 0) ∧
      track (Expansion.twoCases true) 0 Expansion.twoCasesKey = .ok Expansion.twoCasesTracked ∧
      IsAccounted (Expansion.twoCases true) Expansion.twoCasesKey Expansion.twoCasesTracked 9 ∧
      IsAccounted (Expansion.twoCases true) Expansion.twoCasesKey Expansion.twoCasesTracked 16 := by
  have isTree := Expansion.twoCases_isTree true
  have top : (Expansion.twoCases true).parent (some 0) = none := rfl
  have inside : Expansion.twoCasesKey.loop ∈ (Expansion.twoCases true).descendants (some 0) := by
    decide
  have tracks : track (Expansion.twoCases true) 0 Expansion.twoCasesKey =
    .ok Expansion.twoCasesTracked := rfl
  have every := (writes_accounted isTree top inside tracks).2
  refine ⟨isTree, top, inside, tracks, ?_, ?_⟩
  · exact (every 9 (by decide) (by decide) (by decide)).mpr ⟨by decide, by decide⟩
  · exact (every 16 (by decide) (by decide) (by decide)).mpr ⟨by decide, by decide⟩

end Writes

/-! ## A key that is declared again -/

/-- `for (var s = 0;;) { switch (s) { case 0: var s = 1; break; } }`. -/
def declaredTwice : Store := ⟨#[
  ⟨.file default [some 1], .none, 0, 0, none⟩,
  ⟨.loop .forLoop (some 2) none none (some 6), .none, 0, 0, some 0⟩,
  ⟨.declarationList false [some 3], .none, 0, 0, some 1⟩,
  ⟨.declaration (some 4) (some 5), .none, 0, 0, some 2⟩,
  ⟨.identifier "s", .none, 0, 0, some 3⟩,
  ⟨.literal .number "0" (some 0.0), .none, 0, 0, some 3⟩,
  ⟨.block [some 7], .none, 0, 0, some 1⟩,
  ⟨.switch (some 8) [some 9], .none, 0, 0, some 6⟩,
  ⟨.identifier "s", .none, 0, 0, some 7⟩,
  ⟨.clause false (some 10) [some 11, some 15], .none, 0, 0, some 7⟩,
  ⟨.literal .number "0" (some 0.0), .none, 0, 0, some 9⟩,
  ⟨.declarationList true [some 12], .none, 0, 0, some 9⟩,
  ⟨.declaration (some 13) (some 14), .none, 0, 0, some 11⟩,
  ⟨.identifier "s", .none, 0, 0, some 12⟩,
  ⟨.literal .number "1" (some 1.0), .none, 0, 0, some 12⟩,
  ⟨.jump .breaks none, .none, 0, 0, some 9⟩]⟩

/-- The key of the loop, as it is found. -/
def declaredTwiceKey : DispatchKey := ⟨"s", 0, 1, none, 0, 3, [], ∅, [], none, false⟩

/-- The second declaration gives the key a value and is passed over. -/
theorem declared_twice_unaccounted :
    track declaredTwice 0 declaredTwiceKey = .ok ⟨Std.TreeMap.empty.insert 0 1, []⟩ ∧
      13 ∈ declaredTwice.descendants (some 0) ∧
      declaredTwice.isIdentifier (some 13) "s" = true ∧
      declaredTwice.parent (some 13) ≠ some declaredTwiceKey.declaration ∧
      declaredTwice.givesValue 13 = true ∧
      ¬ IsAccounted declaredTwice declaredTwiceKey ⟨Std.TreeMap.empty.insert 0 1, []⟩ 13 := by
  have isTree : declaredTwice.IsTree 0 := @Store.isTree_of_isGrown _ 8 0 (by decide) (by decide)
  have tracks : track declaredTwice 0 declaredTwiceKey =
    .ok ⟨Std.TreeMap.empty.insert 0 1, []⟩ := rfl
  refine ⟨tracks, by decide, by decide, by decide, by decide, fun accounted => ?_⟩
  have undeclared :=
    (not_initialized_of_isAccounted isTree rfl (by decide) tracks accounted).1
  have declared : declaredTwice.isInitialized 13 = true := by decide
  rw [declared] at undeclared
  cases undeclared

end Tracking

end Unflatten
