import Unflatten.Dispatch.Tracking
import Unflatten.Proofs.Dispatch.Arms
import Unflatten.Proofs.Syntax.Climbing

/-! # The counts of a tracked key

A key that is tracked without an obstacle is given values only at its start and by statements
of its dispatcher.  Its histogram counts these statements: every statement `k = v` has one
reference to the key on its left, and no other reference is counted. -/

set_option autoImplicit false

namespace Unflatten

namespace Tree

/-- A statement that gives the key a value: an assignment with the key on its left. -/
theorem exists_of_mem_keyStatements {key : String} {value : Int} {tree : Tree} {id : NodeId}
    (member : id ∈ tree.keyStatements key value) :
    ∃ part, Within part tree ∧ part.root = some id ∧ part.keyValue? key = some value := by
  induction tree with
  | nothing => cases member
  | node name shape below ih =>
    rw [keyStatements, List.mem_append] at member
    rcases member with here | deeper
    · by_cases found : keyValue? key (.node name shape below) = some value
      · rw [if_pos found, List.mem_singleton] at here
        exact ⟨_, .whole, by rw [here]; rfl, found⟩
      · rw [if_neg found] at here
        cases here
    · rw [keyStatementsAll_eq] at deeper
      obtain ⟨child, there, inside⟩ := List.mem_flatMap.mp deeper
      obtain ⟨part, within, rooted, found⟩ := ih child there inside
      exact ⟨part, .deeper there within, rooted, found⟩

/-- Its form: `key = value;`. -/
theorem keyValue?_form {key : String} {value : Int} {tree : Tree}
    (found : tree.keyValue? key = some value) :
    ∃ id slot binary left right name below other,
      tree = .node id (.expressionStatement slot) [.node binary (.binary left .equals right)
        [.node name (.identifier key) below, other]] := by
  unfold keyValue? at found
  obtain ⟨⟨left, right⟩, sides, assigned⟩ := Option.bind_eq_some_iff.mp found
  have named : left.name? = some key := by
    by_contra other
    simp [other] at assigned
  cases tree with
  | nothing => cases sides
  | node id shape below =>
    cases shape
    case expressionStatement slot =>
      match below, sides with
      | [.node binary (.binary leftSlot operator rightSlot) [first, second]], sides =>
        rw [assignment?] at sides
        by_cases plain : operator = .equals
        · rw [if_pos plain] at sides
          cases sides
          subst plain
          cases left with
          | nothing => cases named
          | node name shape under =>
            cases shape
            case identifier text =>
              cases named
              exact ⟨id, slot, binary, leftSlot, rightSlot, name, under, right, rfl⟩
            all_goals cases named
        · rw [if_neg plain] at sides
          cases sides
    all_goals cases sides

end Tree

namespace Store

/-- Among the names of a tree, the statements that give the key a value. -/
theorem Holds.filter_names {store : Store} {tree : Tree} (holds : store.Holds tree) (key : String)
    (value : Int) :
    (tree.names.filter fun id => store.keyValue? (some id) key == some value) =
      tree.keyStatements key value := by
  induction holds with
  | nothing => rfl
  | @node id shape below found regular roots links inner ih =>
    have whole := Holds.node found regular roots links inner
    have here : store.keyValue? (some id) key = Tree.keyValue? key (.node id shape below) :=
      whole.keyValue? key
    have others : (Tree.namesAll below).filter
        (fun id => store.keyValue? (some id) key == some value) =
          Tree.keyStatementsAll key value below := by
      clear * - ih
      induction below with
      | nil => rfl
      | cons first rest later =>
        rw [Tree.namesAll, Tree.keyStatementsAll, List.filter_append,
          ih first List.mem_cons_self, later fun tree member => ih tree (List.mem_cons_of_mem _ member)]
    rw [Tree.names, Tree.keyStatements, List.filter_cons, here, others]
    by_cases same : Tree.keyValue? key (.node id shape below) = some value
    · rw [if_pos (beq_iff_eq.mpr same), if_pos same]
      rfl
    · rw [if_neg fun equal => same (beq_iff_eq.mp equal), if_neg same]
      rfl

end Store

namespace Histogram

theorem count_increment (histogram : Histogram) (value other : Int) :
    (histogram.increment value).count other =
      histogram.count other + if value = other then 1 else 0 := by
  unfold increment
  rw [count, Std.TreeMap.getElem?_insert]
  by_cases same : value = other
  · subst same
    rw [if_pos (compare_eq_iff_eq.mpr rfl), if_pos rfl]
    rfl
  · rw [if_neg fun equal => same (compare_eq_iff_eq.mp equal), if_neg same]
    rfl

end Histogram

namespace Tracking

/-- The value for which a reference is counted. -/
def countedValue? (store : Store) (frame : Frame) (reference : NodeId) : Option Int :=
  if store.isAncestorOrSelf frame.condition (some reference)
      || store.isAncestorOrSelf frame.prelude (some reference) || !store.isWrite reference then none
  else store.keyValue? (assignmentStatement store reference) frame.name

section Count
variable {store : Store} {frame : Frame} {histogram after : Histogram} {reference : NodeId}

/-- A reference is counted, and stands in the dispatcher then, or it is passed over. -/
theorem countReference_spec (counted : countReference store frame histogram reference = .ok after) :
    (∀ value, countedValue? store frame reference = some value →
      store.isAncestorOrSelf frame.dispatcher (some reference) = true) ∧
    after = match countedValue? store frame reference with
      | some value => histogram.increment value
      | none => histogram := by
  unfold countReference at counted
  unfold countedValue?
  simp only at counted
  cases inCondition : store.isAncestorOrSelf frame.condition (some reference) with
  | true =>
    rw [inCondition] at counted
    cases counted
    exact ⟨(fun _ impossible => nomatch impossible), rfl⟩
  | false =>
    cases inPrelude : store.isAncestorOrSelf frame.prelude (some reference) with
    | true =>
      rw [inCondition, inPrelude] at counted
      cases counted
      exact ⟨(fun _ impossible => nomatch impossible), rfl⟩
    | false =>
      cases inDispatcher : store.isAncestorOrSelf frame.dispatcher (some reference) with
      | false =>
        rw [inCondition, inPrelude, inDispatcher] at counted
        cases counted
      | true =>
        rw [inCondition, inPrelude, inDispatcher] at counted
        refine ⟨fun _ _ => rfl, ?_⟩
        cases writes : store.isWrite reference with
        | false =>
          simp only [writes, Bool.or_self, Bool.false_eq_true, if_false, Bool.not_true,
            Bool.not_false, if_true] at counted
          split at counted
          · cases counted
            rfl
          · cases counted
        | true =>
          simp only [writes, Bool.or_self, Bool.false_eq_true, if_false, Bool.not_true] at counted
          split at counted
          · cases counted
          · simp only [Bool.or_self, Bool.not_true, Bool.false_eq_true, if_false]
            cases found : store.keyValue? (assignmentStatement store reference) frame.name with
            | some value =>
              rw [found] at counted
              cases counted
              rfl
            | none =>
              rw [found] at counted
              simp only at counted
              split at counted
              · cases counted
                rfl
              · cases counted

/-- The counts of the references that are counted. -/
theorem countReferences_spec {references : List NodeId}
    (counted : references.foldlM (countReference store frame) histogram = .ok after) :
    (∀ reference ∈ references, ∀ value, countedValue? store frame reference = some value →
      store.isAncestorOrSelf frame.dispatcher (some reference) = true) ∧
    ∀ value, after.count value = histogram.count value +
      (references.filter fun reference => countedValue? store frame reference == some value).length := by
  induction references generalizing histogram with
  | nil =>
    cases counted
    exact ⟨(fun _ impossible => nomatch impossible), fun _ => rfl⟩
  | cons first rest ih =>
    rw [List.foldlM_cons] at counted
    cases step : countReference store frame histogram first with
    | error obstacle =>
      rw [step] at counted
      cases counted
    | ok middle =>
      rw [step] at counted
      obtain ⟨below, same⟩ := countReference_spec step
      obtain ⟨others, counts⟩ := ih counted
      refine ⟨fun reference member => ?_, fun value => ?_⟩
      · rcases List.mem_cons.mp member with rfl | later
        · exact below
        · exact others reference later
      · rw [counts value, same, List.filter_cons]
        cases found : countedValue? store frame first with
        | none => rfl
        | some given =>
          simp only [Histogram.count_increment, beq_iff_eq, Option.some.injEq]
          by_cases equal : given = value
          · rw [if_pos equal, if_pos equal, List.length_cons]
            omega
          · rw [if_neg equal, if_neg equal]
            omega

end Count

/-! ## Where the dispatcher stands -/

/-- The condition, the prelude and the dispatcher of a loop stand apart in the tree. -/
structure Stands (store : Store) (frame : Frame) (whole condition prelude dispatcher : Tree) :
    Prop where
  conditionWithin : Tree.Within condition whole
  conditionRoot : condition.root = frame.condition
  preludeWithin : prelude = .nothing ∨ Tree.Within prelude whole
  preludeRoot : prelude.root = frame.prelude
  within : Tree.Within dispatcher whole
  root : dispatcher.root = frame.dispatcher
  isSwitch : store.isSwitch dispatcher.root = true
  besideCondition : ∀ id ∈ dispatcher.names, id ∉ condition.names
  besidePrelude : ∀ id ∈ dispatcher.names, id ∉ prelude.names

section Frame
variable {store : Store} {root : NodeId} {key : DispatchKey} {found : Frame} {whole : Tree}

/-- What is checked before a result is so if there is a result. -/
theorem of_checked {α ε : Type} {failing : Prop} [Decidable failing] {failure : ε}
    {rest : Except ε α} {result : α}
    (checked : (if failing then .error failure else rest) = .ok result) :
    ¬ failing ∧ rest = .ok result := by
  split at checked
  · cases checked
  · rename_i passes
    exact ⟨passes, checked⟩

/-- The loop of a key that has a frame. -/
theorem frame_spec (framed : frame store root key = .ok found) :
    ∃ kind initializer incrementor body,
      store.shape? (some key.loop) =
        some (.loop kind initializer found.condition incrementor body) ∧
      found.name = key.name ∧ found.prelude = key.prelude ∧
      found.dispatcher = key.dispatcher? store ∧ store.isSwitch found.dispatcher = true ∧
      (key.prelude.isSome → isPurePrelude store key.prelude = true) ∧
      ∀ prelude, key.prelude = some prelude →
        ∃ second, store.loopBody key.loop = [some prelude, second] := by
  unfold frame at framed
  obtain ⟨_, framed⟩ := of_checked framed
  split at framed
  · rename_i kind initializer condition incrementor body shaped
    obtain ⟨_, framed⟩ := of_checked framed
    simp only at framed
    obtain ⟨expected, framed⟩ := of_checked framed
    obtain ⟨isSwitch, framed⟩ := of_checked framed
    obtain ⟨pure_, framed⟩ := of_checked framed
    cases framed
    refine ⟨kind, initializer, incrementor, body, shaped, rfl, rfl, rfl, ?_, ?_, ?_⟩
    · simpa using isSwitch
    · intro present
      simpa [present] using pure_
    · intro prelude same
      rw [same] at expected
      match listed : store.loopBody key.loop with
      | [first, second] =>
        simp only [listed, Bool.not_eq_true', Bool.not_eq_false] at expected
        exact ⟨second, by rw [eq_of_beq expected]⟩
      | [] => simp [listed] at expected
      | [_] => simp [listed] at expected
      | _ :: _ :: _ :: _ => simp [listed] at expected
  · cases framed

theorem not_isPurePrelude_switch {slot : Slot} (isSwitch : store.isSwitch slot = true) :
    isPurePrelude store slot = false := by
  unfold Store.isSwitch Store.discriminant? at isSwitch
  cases slot with
  | none => cases isSwitch
  | some id =>
    cases shaped : store.shape? (some id) with
    | none =>
      rw [shaped] at isSwitch
      cases isSwitch
    | some shape =>
      rw [shaped] at isSwitch
      have impure : store.satisfies (some id) isPure = false := by
        rw [Store.satisfies, shaped]
        cases shape
        case switch => rfl
        all_goals cases isSwitch
      rw [isPurePrelude, Store.descendants, Store.depthBound, Store.preorderOnto, List.all_cons,
        impure, Bool.false_and]

/-- The parts of the loop stand apart. -/
theorem frame_stands (holds : store.Holds whole) (nodup : whole.names.Nodup)
    (inside : key.loop ∈ whole.names) (framed : frame store root key = .ok found) :
    ∃ condition prelude dispatcher, Stands store found whole condition prelude dispatcher := by
  obtain ⟨kind, initializer, incrementor, body, shaped, -, samePrelude, sameDispatcher, isSwitch, pure_,
    both⟩ := frame_spec framed
  obtain ⟨loop, within, rooted⟩ := Tree.exists_within inside
  have heldLoop := holds.within within
  have nodupLoop := within.nodup nodup
  rw [← rooted, heldLoop.shape?] at shaped
  cases loop with
  | nothing => cases rooted
  | node id shape below =>
    cases rooted
    cases shaped
    have slots : [initializer, found.condition, incrementor, body] = below.map Tree.root :=
      heldLoop.slots rfl
    obtain ⟨first, condition, third, bodyTree, rfl, rfl, sameCondition, rfl, rfl⟩ :=
      Tree.four_of_roots slots
    have part : ∀ tree ∈ [first, condition, third, bodyTree], Tree.Within tree whole :=
      fun tree member => Tree.Within.trans (.deeper member .whole) within
    have heldBody : store.Holds bodyTree := holds.within (part bodyTree (by simp))
    have listed : store.loopBody key.loop = bodyTree.statements.map Tree.root := by
      have shaped : store.shape? (some key.loop) =
          some (.loop kind first.root found.condition third.root bodyTree.root) := heldLoop.shape?
      rw [Store.loopBody, shaped]
      exact heldBody.statementsOf
    have nodupBody := Tree.nodup_of_mem_namesAll (List.nodup_cons.mp nodupLoop).2
      (show bodyTree ∈ [first, condition, third, bodyTree] by simp)
    have statement : ∀ tree ∈ bodyTree.statements, Tree.Within tree whole := by
      intro tree member
      refine Tree.Within.trans ?_ (part bodyTree (by simp))
      have below := bodyTree.statements_sublist.subset member
      cases bodyTree with
      | nothing => cases below
      | node => exact .deeper below .whole
    have dispatcher : ∃ dispatcher ∈ bodyTree.statements,
        dispatcher.root = key.dispatcher? store := by
      rw [sameDispatcher] at isSwitch
      unfold DispatchKey.dispatcher? at isSwitch ⊢
      rw [listed, List.getElem?_map] at isSwitch ⊢
      cases there : bodyTree.statements[key.place]? with
      | none =>
        rw [there] at isSwitch
        cases isSwitch
      | some dispatcher =>
        exact ⟨dispatcher, List.mem_of_getElem? there, rfl⟩
    obtain ⟨dispatcher, member, dispatcherRoot⟩ := dispatcher
    have bodyNames : dispatcher.names ⊆ bodyTree.names := by
      intro name inside
      exact Tree.names_part (bodyTree.statements_sublist.subset member) inside
    have besideCondition : ∀ id ∈ dispatcher.names, id ∉ condition.names := by
      intro name here also
      have apart := (Tree.nodup_namesAll_iff.mp (List.nodup_cons.mp nodupLoop).2).2
      simp only [List.pairwise_cons] at apart
      exact apart.2.1 bodyTree (by simp) also (bodyNames here)
    rw [sameDispatcher, ← dispatcherRoot] at isSwitch
    cases preludeIs : key.prelude with
    | none =>
      exact ⟨condition, .nothing, dispatcher, part condition (by simp), sameCondition, .inl rfl,
        by rw [samePrelude, preludeIs]; rfl, statement dispatcher member,
        by rw [dispatcherRoot, sameDispatcher], isSwitch, besideCondition,
        fun _ _ => List.not_mem_nil⟩
    | some id =>
      obtain ⟨second, pair⟩ := both id preludeIs
      rw [listed] at pair
      obtain ⟨prelude, other, split, preludeRoot, -⟩ := Tree.two_of_roots pair.symm
      rw [split] at member statement
      have differs : dispatcher ≠ prelude := by
        rintro rfl
        rw [preludeRoot, ← preludeIs] at isSwitch
        rw [not_isPurePrelude_switch isSwitch] at pure_
        cases pure_ (by rw [preludeIs]; rfl)
      have same : dispatcher = other := by simpa [differs] using member
      have nodupStatements : (Tree.namesAll bodyTree.statements).Nodup :=
        (Tree.namesAll_sublist bodyTree.statements_sublist).nodup
          (Tree.nodup_namesAll_parts nodupBody)
      refine ⟨condition, prelude, dispatcher, part condition (by simp), sameCondition,
        .inr (statement prelude (by simp)), by rw [samePrelude, preludeIs, preludeRoot],
        statement dispatcher member, by rw [dispatcherRoot, sameDispatcher], isSwitch,
        besideCondition, fun name here also => ?_⟩
      rw [split] at nodupStatements
      have apart := (Tree.nodup_namesAll_iff.mp nodupStatements).2
      simp only [List.pairwise_cons] at apart
      exact apart.1 other (by simp) also (same ▸ here)

end Frame

/-! ## One reference for each statement -/

section Statements
variable {store : Store} {root : NodeId} {found : Frame} {whole condition prelude dispatcher : Tree}
  {reference other statement : NodeId} {value : Int}

theorem mem_references (holds : store.Holds whole) (nodup : whole.names.Nodup)
    (rooted : whole.root = some root) (name : String) :
    reference ∈ store.references (some root) name ↔ reference ∈ whole.names ∧
      store.isIdentifier (some reference) name = true ∧ store.isReference reference = true ∧
        store.isDeclarationName reference = false := by
  rw [Store.references, List.mem_filter, ← rooted, (holds.descendants_perm nodup).mem_iff]
  simp [and_assoc]

/-- The way up from a reference in the dispatcher that is the target of a plain assignment: an
assignment with the reference on its left, and the statement around it. -/
theorem assigned_form {left right : Slot} (holds : store.Holds whole)
    (stands : Stands store found whole condition prelude dispatcher)
    (here : reference ∈ dispatcher.names)
    (named : store.isIdentifier (some reference) found.name = true)
    (writes : store.isWrite reference = true)
    (sides : store.assignment? (assignmentStatement store reference) = some (left, right)) :
    ∃ statement binary, assignmentStatement store reference = some statement ∧
      statement ∈ dispatcher.names ∧
      store.shape? (some statement) = some (.expressionStatement (some binary)) ∧
      store.shape? (some binary) = some (.binary (some reference) .equals right) := by
  have held := holds.within stands.within
  -- the root is a `switch`, which is neither the reference nor its parent
  have deeper : ∀ id ∈ dispatcher.names, store.isSwitch (some id) = false → id ∈ dispatcher.inner := by
    intro id member other
    have isSwitch := stands.isSwitch
    cases dispatcher with
    | nothing => cases member
    | node name shape parts =>
      rcases List.mem_cons.mp member with rfl | inner
      · rw [Tree.root_node, other] at isSwitch
        cases isSwitch
      · exact inner
  have notSwitch : store.isSwitch (some reference) = false := by
    unfold Store.isIdentifier Store.identifier? at named
    unfold Store.isSwitch Store.discriminant?
    cases shaped : store.shape? (some reference) with
    | none => rfl
    | some shape =>
      rw [shaped] at named
      cases shape
      case switch => cases named
      all_goals rfl
  obtain ⟨binary, binaryInside, linked⟩ := held.parent_mem (deeper reference here notSwitch)
  have notSwitch' : store.isSwitch (some binary) = false := by
    unfold Store.isWrite at writes
    rw [linked] at writes
    unfold Store.isSwitch Store.discriminant?
    cases shaped : store.shape? (some binary) with
    | none => rfl
    | some shape =>
      rw [shaped] at writes
      cases shape
      case switch => cases writes
      all_goals rfl
  obtain ⟨statement, statementInside, linked'⟩ :=
    held.parent_mem (deeper binary binaryInside notSwitch')
  have assigned : assignmentStatement store reference = some statement := by
    unfold assignmentStatement at sides ⊢
    rw [linked, linked'] at sides ⊢
    simp only at sides ⊢
    split
    · rfl
    · rename_i noExpression
      rw [if_neg noExpression] at sides
      cases sides
  rw [assigned] at sides
  -- the statement has one slot, which holds the parent of the reference
  obtain ⟨above, withinBinary, rootedBinary⟩ := Tree.exists_within binaryInside
  have differs : above ≠ dispatcher := by
    rintro rfl
    have isSwitch := stands.isSwitch
    rw [rootedBinary, notSwitch'] at isSwitch
    cases isSwitch
  obtain ⟨parent, shape, linkedUp, shaped, slots⟩ :=
    held.exists_parent withinBinary rootedBinary differs
  rw [linked'] at linkedUp
  cases linkedUp
  unfold Store.assignment? Store.expression? at sides
  rw [shaped] at sides
  cases shape
  case expressionStatement expression =>
    cases List.mem_singleton.mp slots
    simp only [Option.bind_some] at sides
    split at sides
    · rename_i first second shapedBinary
      cases sides
      have leftIs : left = some reference := by
        unfold Store.isWrite at writes
        rw [linked, shapedBinary] at writes
        simp only [Bool.and_eq_true] at writes
        exact eq_of_beq writes.1
      exact ⟨statement, binary, assigned, statementInside, shaped, by rw [shapedBinary, leftIs]⟩
    · cases sides
  all_goals cases sides

/-- The same for a counted reference: the statement is one that gives the key the value. -/
theorem counted_form (holds : store.Holds whole) (nodup : whole.names.Nodup)
    (top : store.parent whole.root = none)
    (stands : Stands store found whole condition prelude dispatcher)
    (inside : reference ∈ whole.names)
    (named : store.isIdentifier (some reference) found.name = true)
    (below : store.isAncestorOrSelf found.dispatcher (some reference) = true)
    (counted : countedValue? store found reference = some value) :
    ∃ statement binary right, assignmentStatement store reference = some statement ∧
      statement ∈ dispatcher.keyStatements found.name value ∧
      store.shape? (some statement) = some (.expressionStatement (some binary)) ∧
      store.shape? (some binary) = some (.binary (some reference) .equals right) := by
  unfold countedValue? at counted
  split at counted
  · cases counted
  · rename_i passes
    simp only [Bool.or_eq_true, Bool.not_eq_true', not_or, Bool.not_eq_false] at passes
    have here : reference ∈ dispatcher.names := by
      rw [← stands.root] at below
      exact (holds.isAncestorOrSelf_iff nodup top stands.within inside).mp below
    obtain ⟨⟨left, right⟩, sides, -⟩ := Option.bind_eq_some_iff.mp counted
    obtain ⟨statement, binary, assigned, statementInside, shapeStatement, shapeBinary⟩ :=
      assigned_form holds stands here named passes.2 sides
    rw [assigned] at counted
    refine ⟨statement, binary, right, assigned, ?_, shapeStatement, shapeBinary⟩
    rw [← (holds.within stands.within).filter_names, List.mem_filter]
    exact ⟨statementInside, beq_iff_eq.mpr counted⟩

/-- Every statement that gives the key a value has a reference that is counted. -/
theorem exists_counted (holds : store.Holds whole) (nodup : whole.names.Nodup)
    (top : store.parent whole.root = none)
    (stands : Stands store found whole condition prelude dispatcher)
    (member : statement ∈ dispatcher.keyStatements found.name value) :
    ∃ reference ∈ whole.names, store.isIdentifier (some reference) found.name = true ∧
      store.isReference reference = true ∧ store.isDeclarationName reference = false ∧
      countedValue? store found reference = some value ∧
      assignmentStatement store reference = some statement := by
  obtain ⟨part, within, rooted, assigns⟩ := Tree.exists_of_mem_keyStatements member
  have held := holds.within stands.within
  have heldPart := held.within within
  have assigns' : store.keyValue? part.root found.name = some value := by
    rw [heldPart.keyValue?, assigns]
  obtain ⟨id, slot, binary, left, right, name, under, beyond, rfl⟩ := Tree.keyValue?_form assigns
  cases rooted
  have shapeStatement : store.shape? (some statement) = some (.expressionStatement slot) :=
    heldPart.shape?
  cases heldPart with
  | node _ _ _ links inner =>
    have linkedBinary : store.parent (some binary) = some statement := links _ List.mem_cons_self rfl
    have heldBinary := inner _ List.mem_cons_self
    have shapeBinary : store.shape? (some binary) = some (.binary left .equals right) :=
      heldBinary.shape?
    cases heldBinary with
    | node _ _ slots linksBinary innerBinary =>
      have linked : store.parent (some name) = some binary := linksBinary _ List.mem_cons_self rfl
      have heldName := innerBinary _ List.mem_cons_self
      have shapeName : store.shape? (some name) = some (.identifier found.name) := heldName.shape?
      have leftIs : left = some name := (List.cons.inj slots).1
      have inside : name ∈ dispatcher.names := by
        refine within.names_subset ?_
        simp [Tree.names, Tree.namesAll]
      have insideWhole := stands.within.names_subset inside
      have outside : ∀ {part : Tree} {slot : Slot}, part = .nothing ∨ Tree.Within part whole →
          part.root = slot → name ∉ part.names →
          store.isAncestorOrSelf slot (some name) = false := by
        intro part slot within rooted apart
        subst rooted
        rcases within with rfl | within
        · rfl
        · rw [← Bool.not_eq_true, holds.isAncestorOrSelf_iff nodup top within insideWhole]
          exact apart
      have noCondition := outside (.inr stands.conditionWithin) stands.conditionRoot
        (stands.besideCondition name inside)
      have noPrelude := outside stands.preludeWithin stands.preludeRoot
        (stands.besidePrelude name inside)
      have writes : store.isWrite name = true := by
        unfold Store.isWrite
        rw [linked, shapeBinary, leftIs]
        simp only [beq_self_eq_true, Bool.true_and]
        rfl
      have assigned : assignmentStatement store name = some statement := by
        have expression : (store.expression? (some statement)).isSome = true := by
          unfold Store.expression?
          rw [shapeStatement]
          rfl
        unfold assignmentStatement
        rw [linked, linkedBinary]
        exact if_pos expression
      refine ⟨name, insideWhole, ?_, ?_, ?_, ?_, assigned⟩
      · rw [Store.isIdentifier, Store.identifier?, shapeName, beq_self_eq_true]
      · rw [Store.isReference, linked, shapeBinary]
      · rw [Store.isDeclarationName, linked, shapeBinary]
      · rw [countedValue?, noCondition, noPrelude, writes, assigned]
        exact assigns'

/-- There are as many counted references as statements. -/
theorem length_counted (holds : store.Holds whole) (nodup : whole.names.Nodup)
    (rooted : whole.root = some root) (top : store.parent (some root) = none)
    (stands : Stands store found whole condition prelude dispatcher)
    (below : ∀ reference ∈ store.references (some root) found.name, ∀ value,
      countedValue? store found reference = some value →
        store.isAncestorOrSelf found.dispatcher (some reference) = true) (value : Int) :
    ((store.references (some root) found.name).filter fun reference =>
        countedValue? store found reference == some value).length =
      (dispatcher.keyStatements found.name value).length := by
  rw [← rooted] at top
  have forms : ∀ reference ∈ (store.references (some root) found.name).filter
      (fun reference => countedValue? store found reference == some value),
      ∃ statement binary right, assignmentStatement store reference = some statement ∧
        statement ∈ dispatcher.keyStatements found.name value ∧
        store.shape? (some statement) = some (.expressionStatement (some binary)) ∧
        store.shape? (some binary) = some (.binary (some reference) .equals right) := by
    intro reference member
    obtain ⟨listed, counted⟩ := List.mem_filter.mp member
    obtain ⟨inside, named, -⟩ := (mem_references holds nodup rooted found.name).mp listed
    exact counted_form holds nodup top stands inside named
      (below reference listed value (eq_of_beq counted)) (eq_of_beq counted)
  have distinct : ((store.references (some root) found.name).filter
      (fun reference => countedValue? store found reference == some value)).Nodup := by
    have listed := (holds.descendants_perm nodup).symm.nodup nodup
    rw [rooted] at listed
    exact (listed.filter _).filter _
  have injective : ∀ reference ∈ (store.references (some root) found.name).filter
      (fun reference => countedValue? store found reference == some value),
      ∀ other ∈ (store.references (some root) found.name).filter
        (fun reference => countedValue? store found reference == some value),
      assignmentStatement store reference = assignmentStatement store other → reference = other := by
    intro reference member other member' same
    obtain ⟨statement, binary, right, assigned, -, shapeStatement, shapeBinary⟩ := forms reference member
    obtain ⟨statement', binary', right', assigned', -, shapeStatement', shapeBinary'⟩ :=
      forms other member'
    rw [assigned, assigned'] at same
    cases same
    rw [shapeStatement] at shapeStatement'
    cases shapeStatement'
    rw [shapeBinary] at shapeBinary'
    cases shapeBinary'
    rfl
  have statements : (dispatcher.keyStatements found.name value).Nodup :=
    (Tree.keyStatements_sublist _ _ dispatcher).nodup (stands.within.nodup nodup)
  have perm : (((store.references (some root) found.name).filter
      (fun reference => countedValue? store found reference == some value)).map
        (assignmentStatement store)).Perm
      ((dispatcher.keyStatements found.name value).map some) := by
    refine (List.perm_ext_iff_of_nodup (distinct.map_on injective)
      (statements.map (Option.some_injective _))).mpr fun slot => ?_
    constructor
    · intro member
      obtain ⟨reference, listed, rfl⟩ := List.mem_map.mp member
      obtain ⟨statement, _, _, assigned, inside, _⟩ := forms reference listed
      rw [assigned]
      exact List.mem_map_of_mem inside
    · intro member
      obtain ⟨statement, inside, rfl⟩ := List.mem_map.mp member
      obtain ⟨reference, here, named, refers, undeclared, counted, assigned⟩ :=
        exists_counted holds nodup top stands inside
      refine List.mem_map.mpr ⟨reference, List.mem_filter.mpr
        ⟨(mem_references holds nodup rooted found.name).mpr ⟨here, named, refers, undeclared⟩,
          beq_iff_eq.mpr counted⟩, assigned⟩
  have lengths := perm.length_eq
  rwa [List.length_map, List.length_map] at lengths

end Statements

section Track
variable {store : Store} {root : NodeId} {key : DispatchKey} {tracked : Tracked}

/-- What was found about a key that is tracked. -/
theorem track_spec (tracks : track store root key = .ok tracked) :
    ∃ found, frame store root key = .ok found ∧
      (store.references (some root) key.name).foldlM (countReference store found)
        (Std.TreeMap.empty.insert key.start 1) = .ok tracked.histogram ∧
      ((declaredNames store key.prelude).forM fun name =>
        (store.references (some root) name).forM (checkPart store found name)) = .ok () ∧
      exitValues store found tracked.histogram.keys = .ok tracked.exits ∧
      key.start ∉ tracked.exits := by
  unfold track at tracks
  cases framed : frame store root key with
  | error obstacle =>
    rw [framed] at tracks
    cases tracks
  | ok found =>
    rw [framed] at tracks
    simp only [bind, Except.bind] at tracks
    split at tracks
    · cases tracks
    · rename_i histogram counted
      split at tracks
      · cases tracks
      · rename_i checked
        split at tracks
        · cases tracks
        · rename_i exits tested
          split at tracks
          · cases tracks
          · rename_i stays
            cases tracks
            refine ⟨found, rfl, counted, checked, tested, fun leaves => ?_⟩
            exact stays (List.contains_iff_mem.mpr leaves)

/-- A tracked key: the counts are those of the statements of the dispatcher and of the start. -/
theorem track_counts (isTree : store.IsTree root) (top : store.parent (some root) = none)
    (inside : key.loop ∈ store.descendants (some root))
    (tracks : track store root key = .ok tracked) :
    ∃ prelude dispatcher, store.Holds prelude ∧ prelude.root = key.prelude ∧
      store.Holds dispatcher ∧ dispatcher.root = key.dispatcher? store ∧
      dispatcher.names.Nodup ∧
      ∀ value, tracked.histogram.count value =
        (if value = key.start then 1 else 0) + (dispatcher.keyStatements key.name value).length := by
  obtain ⟨whole, holds, rooted, nodup⟩ := isTree
  have insideWhole : key.loop ∈ whole.names := by
    rw [← rooted] at inside
    exact (holds.descendants_perm nodup).mem_iff.mp inside
  obtain ⟨found, framed, counted, -⟩ := track_spec tracks
  obtain ⟨_, _, _, _, _, named, samePrelude, sameDispatcher, -⟩ := frame_spec framed
  obtain ⟨condition, prelude, dispatcher, stands⟩ := frame_stands holds nodup insideWhole framed
  obtain ⟨below, counts⟩ := countReferences_spec counted
  refine ⟨prelude, dispatcher, ?_, by rw [stands.preludeRoot, samePrelude],
    holds.within stands.within, by rw [stands.root, sameDispatcher],
    stands.within.nodup nodup, fun value => ?_⟩
  · rcases stands.preludeWithin with rfl | within
    · exact .nothing
    · exact holds.within within
  · rw [← named] at below counts ⊢
    rw [counts, length_counted holds nodup rooted top stands below]
    congr 1
    rw [Histogram.count, Std.TreeMap.getElem?_insert]
    by_cases start : key.start = value
    · rw [if_pos (compare_eq_iff_eq.mpr start), if_pos start.symm]
      rfl
    · rw [if_neg fun equal => start (compare_eq_iff_eq.mp equal), if_neg fun equal => start equal.symm]
      simp

end Track

end Tracking

end Unflatten
