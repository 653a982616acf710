import Unflatten.Proofs.Canonical.Rewriting
import Unflatten.Proofs.Execution.Asking

/-! # Steps that change nothing

What a lowering rule puts in the place of a statement or an expression answers the same requests in
the same way, for every lawful engine: the two conducts are equal, or they differ only in what is
not asked for where they stand. -/

set_option autoImplicit false

namespace Unflatten

namespace Execution.Engine

variable {m : Type → Type} {ν : Type} [Monad m]

/-- Nothing has the name `undefined`, and comparing a number is the same from either side. -/
structure IsLawful (engine : Engine m ν) : Prop where
  read_undefined : engine.machine.read (.name "undefined") = pure engine.undefined
  quiet_undefined : engine.quiet "undefined" = pure engine.undefined
  mirrors : ∀ operator mirrored text value other, operator.mirrored? = some mirrored →
    engine.machine.operate mirrored other (engine.literal (.literal .number text value)) =
      engine.machine.operate operator (engine.literal (.literal .number text value)) other
  enclose_nil : ∀ action, engine.enclose [] action = action

section Forms
variable {engine : Engine m ν} (id : NodeId)

theorem conduct_chosen (test yes no : Tree) : engine.conduct (.chosen id test yes no) =
    engine.lone ([test, yes, no].flatMap fun part => (engine.conduct part).names) (do
      let holds ← engine.machine.test (engine.conduct test).value
      if holds then (engine.conduct yes).value else (engine.conduct no).value) := by
  rw [Tree.chosen, conduct_node]
  exact node_lone rfl ⟨rfl, rfl, rfl⟩

theorem conduct_tested (test yes no : Tree) : engine.conduct (.tested id test yes no) =
    engine.lone ([test, yes, no].flatMap fun part => (engine.conduct part).names)
      (engine.perform do
        let holds ← engine.machine.test (engine.conduct test).value
        if holds then engine.enclose (engine.conduct yes).inner.1 (engine.conduct yes).inner.2
        else engine.enclose (engine.conduct no).inner.1 (engine.conduct no).inner.2).value := by
  rw [Tree.tested, conduct_node]
  exact node_lone rfl ⟨rfl, rfl, rfl⟩

theorem conduct_binary {operator : TokenKind} (plain : operator.isAssignment = false)
    (slots : Slot × Slot) (left right : Tree) :
    engine.conduct (.node id (.binary slots.1 operator slots.2) [left, right]) =
      engine.lone ([left, right].flatMap fun part => (engine.conduct part).names)
        (engine.machine.join operator (engine.conduct left).value (engine.conduct right).value) := by
  have told : engine.answersFrom (.binary none operator none) 0 [engine.conduct left, engine.conduct right] =
      [.value (engine.conduct left).value, .value (engine.conduct right).value] := by
    simp [answersFrom, Shape.request, plain, answer]
  rw [conduct_node]
  refine node_lone ?_ ⟨rfl, rfl, rfl⟩
  exact congrArg (engine.act (.binary none operator none) _) told

theorem conduct_voided (operand : Tree) : engine.conduct (.voided id operand) =
    engine.lone ([operand].flatMap fun part => (engine.conduct part).names) (do
      let _ ← (engine.conduct operand).value
      pure engine.undefined) := by
  rw [Tree.voided, conduct_node]
  exact node_lone rfl ⟨rfl, rfl, rfl⟩

theorem node_sequence (items : List Slot) (conducts : List (Conduct m ν)) :
    engine.node (.elements .sequence items) conducts = engine.lone (conducts.flatMap (·.names))
      (engine.inTurn (conducts.map fun conduct => .value conduct.value)) := by
  have told : engine.answersFrom (.elements .sequence items) 0 conducts =
      conducts.map fun conduct => .value conduct.value := by
    rw [answersFrom_of_request fun _ _ => rfl]
    rfl
  rw [← told]
  exact node_lone rfl ⟨rfl, rfl, rfl⟩

theorem conduct_inSequence (items : List Tree) : engine.conduct (.inSequence id items) =
    engine.lone ((items.map engine.conduct).flatMap (·.names))
      (engine.inTurn ((items.map engine.conduct).map fun conduct => .value conduct.value)) := by
  rw [Tree.inSequence, conduct_node]
  exact node_sequence [] _

variable [LawfulMonad m]

theorem conduct_stated (expression : Tree) : engine.conduct (.stated id expression) =
    engine.lone (engine.conduct expression).names
      (engine.perform (discard (engine.conduct expression).value)).value := by
  rw [Tree.stated, conduct_node]
  refine (node_lone rfl ⟨rfl, rfl, rfl⟩).trans ?_
  simp [answersFrom, answer, Shape.withSlots, Shape.request, runAll, perform]

/-- A block without functions of its own. -/
theorem node_block (lawful : engine.IsLawful) {conducts : List (Conduct m ν)}
    (free : conducts.flatMap (·.functions) = []) :
    engine.node (.block []) conducts =
      engine.lone (conducts.flatMap (·.names)) (engine.perform (doAll conducts)).value := by
  have told : engine.answersFrom (.block []) 0 conducts =
      conducts.map fun conduct => engine.answer conduct .statement :=
    answersFrom_of_request (fun _ _ => rfl) conducts
  have run := @runAll_statements m ν _ engine conducts
  have gathered := @gather_statements m ν _ engine conducts
  rw [free] at gathered
  simp only [node, namesOf, declares, act, told, run, gathered, lawful.enclose_nil, lone,
    discard_performed]
  rfl

end Forms

/-! ## Sequences -/

section Sequences
variable {engine : Engine m ν} [LawfulMonad m]

theorem inTurn_cons (value : m ν) {rest : List (Part m ν)} (more : rest ≠ []) :
    engine.inTurn (.value value :: rest) = (do
      discard value
      engine.inTurn rest) := by
  cases rest with
  | nil => exact absurd rfl more
  | cons second rest => simp [inTurn, discard]

theorem inTurn_append (conducts : List (Conduct m ν)) {rest : List (Part m ν)} (more : rest ≠ []) :
    engine.inTurn (conducts.map (fun conduct => .value conduct.value) ++ rest) = (do
      doAll conducts
      engine.inTurn rest) := by
  induction conducts with
  | nil => exact (pure_bind () fun _ => engine.inTurn rest).symm
  | cons first others ih =>
    rw [List.map_cons, List.cons_append, inTurn_cons _ (List.append_ne_nil_of_right_ne_nil _ more), ih,
      doAll, bind_assoc]

theorem discard_inTurn (conducts : List (Conduct m ν)) :
    discard (engine.inTurn (conducts.map fun conduct => .value conduct.value)) = doAll conducts := by
  rcases List.eq_nil_or_concat conducts with rfl | ⟨front, last, rfl⟩
  · exact pure_bind _ _
  · rw [List.concat_eq_append, List.map_append, List.map_singleton,
      inTurn_append front (List.cons_ne_nil _ _), discard_bind, doAll_append]
    simp [inTurn, doAll]

end Sequences

/-! ## What gives way to what -/

section Steps
variable {engine : Engine m ν} [LawfulMonad m] {id whole first second statement : NodeId}

theorem chosen_conduct (lawful : engine.IsLawful) (test yes no : Tree) :
    engine.conduct (.tested whole test (.stated first yes) (.stated second no)) =
      engine.conduct (.stated statement (.chosen id test yes no)) := by
  simp only [conduct_tested, conduct_stated, conduct_chosen, List.flatMap_cons, List.flatMap_nil,
    lone_names, lone_inner, lone_value, discard_performed, lawful.enclose_nil, discard_bind, apply_ite]

theorem conjoined_conduct (lawful : engine.IsLawful) (left right : Tree) :
    engine.conduct (.tested whole left (.stated first right) .nothing) =
      engine.conduct (.stated statement (.conjoined id left right)) := by
  have join : discard (engine.machine.join .ampersandAmpersand (engine.conduct left).value
      (engine.conduct right).value) = (do
        let holds ← engine.machine.test (engine.conduct left).value
        if holds then discard (engine.conduct right).value else pure ()) := by
    rw [Machine.join, Machine.test, discard_bind, bind_assoc]
    refine bind_congr fun value => ?_
    rw [pure_bind, Machine.decides]
    cases engine.machine.holds value with
    | true => simp [Machine.combine, discard]
    | false => simp [discard]
  have nothing : engine.conduct .nothing = engine.nothing := rfl
  have conjoined : engine.conduct (.conjoined id left right) = _ :=
    conduct_binary id rfl (left.root, right.root) left right
  simp only [conduct_tested, conduct_stated, conjoined, List.flatMap_cons, List.flatMap_nil,
    lone_names, lone_inner, lone_value, discard_performed, lawful.enclose_nil, nothing, Engine.nothing, join,
    List.append_nil]

theorem itemized_conduct (lawful : engine.IsLawful) {items statements : List Tree}
    (each : List.Forall₂ (fun item made => ∃ name, made = .stated name item) items statements) :
    engine.conduct (.inBlock whole statements) = engine.conduct (.stated statement (.inSequence id items)) := by
  have same : statements.map engine.conduct = items.map fun item =>
      engine.lone (engine.conduct item).names (engine.perform (discard (engine.conduct item).value)).value := by
    induction each with
    | nil => rfl
    | cons made _ ih =>
      obtain ⟨name, rfl⟩ := made
      rw [List.map_cons, ih, conduct_stated, List.map_cons]
  have actions : doAll (statements.map engine.conduct) = doAll (items.map engine.conduct) := by
    rw [same]
    clear same each
    induction items with
    | nil => rfl
    | cons first rest ih => simp only [List.map_cons, doAll, lone_value, discard_performed, ih]
  rw [Tree.inBlock, conduct_node, conduct_stated, conduct_inSequence]
  refine (node_block lawful ?_).trans ?_
  · simp [same, List.flatMap_map]
  · rw [lone_value, lone_names, discard_inTurn, actions, same, List.flatMap_map, List.flatMap_map]
    rfl

theorem turned_conduct (lawful : engine.IsLawful) {number name : NodeId} {operator mirrored : TokenKind}
    {text digits : String} {value : Option Float} (mirrors : operator.mirrored? = some mirrored) :
    engine.conduct (.node id (.binary (some name) mirrored (some number))
        [.node name (.identifier text) [], .node number (.literal .number digits value) []]) =
      engine.conduct (.node id (.binary (some number) operator (some name))
        [.node number (.literal .number digits value) [], .node name (.identifier text) []]) := by
  have join : engine.machine.join mirrored (engine.machine.read (.name text))
      (pure (engine.literal (.literal .number digits value))) =
      engine.machine.join operator (pure (engine.literal (.literal .number digits value)))
        (engine.machine.read (.name text)) := by
    have same := fun other => lawful.mirrors operator mirrored digits value other mirrors
    cases operator <;> cases mirrors <;>
      simp [Machine.join, Machine.decides, Machine.combine, same]
  have assigns : operator.isAssignment = false ∧ mirrored.isAssignment = false := by
    cases operator <;> cases mirrors <;> exact ⟨rfl, rfl⟩
  rw [conduct_binary id assigns.2 (some name, some number),
    conduct_binary id assigns.1 (some number, some name)]
  exact congrArg (engine.lone []) join

/-- What is asked of `void` before a literal is answered by `undefined` in the same way, unless its
place or its name is asked for. -/
theorem undefined_answer (lawful : engine.IsLawful) {leaf name : NodeId} {literal : Shape} {request : Request}
    (primitive : Canonical.isPrimitiveLiteral literal = true) (apart : request ≠ .whole) :
    engine.answer (engine.conduct (.node name (.identifier "undefined") [])) request =
      engine.answer (engine.conduct (.voided id (.node leaf literal []))) request := by
  have known : ∃ value : ν, (engine.conduct (.node leaf literal [])).names = [] ∧
      (engine.conduct (.node leaf literal [])).value = pure value := by
    unfold Canonical.isPrimitiveLiteral at primitive
    split at primitive
    case h_6 => cases primitive
    all_goals exact ⟨_, rfl, rfl⟩
  obtain ⟨value, names, same⟩ := known
  have voided : engine.conduct (.voided id (.node leaf literal [])) =
      engine.lone [] (pure engine.undefined) := by
    rw [conduct_voided, List.flatMap_cons, List.flatMap_nil, names, same, pure_bind]
    rfl
  have read : (engine.conduct (.node name (.identifier "undefined") [])).value = pure engine.undefined :=
    lawful.read_undefined
  rw [voided]
  cases request with
  | value => exact congrArg Part.value read
  | quiet => exact congrArg Part.value lawful.quiet_undefined
  | callee =>
    refine congrArg Part.callee ?_
    have place : (engine.conduct (.node name (.identifier "undefined") [])).place =
        pure (.name "undefined") := rfl
    have refers : (engine.conduct (.node name (.identifier "undefined") [])).refers = true := rfl
    have plain : (engine.lone [] (pure engine.undefined)).refers = false := rfl
    simp [callee, place, refers, plain, lawful.read_undefined]
  | effect => exact congrArg (fun value => Part.effect (discard value)) read
  | body => exact congrArg (fun value => Part.list [] (discard value)) read
  | statement => exact congrArg (fun value => Part.list [] (discard value)) read
  | whole => exact absurd rfl apart

theorem undefined_conduct (lawful : engine.IsLawful) {above leaf name : NodeId}
    {outer changed literal : Shape} {front back : List Tree}
    (primitive : Canonical.isPrimitiveLiteral literal = true)
    (same : changed.withSlots [] = outer.withSlots [])
    (apart : (outer.withSlots []).request front.length ≠ .whole) :
    engine.conduct (.node above changed (front ++ .node name (.identifier "undefined") [] :: back)) =
      engine.conduct (.node above outer (front ++ .voided id (.node leaf literal []) :: back)) := by
  rw [conduct_node, conduct_node, same, List.map_append, List.map_append]
  refine node_eq ?_ ?_
  · rw [List.length_map]
    exact undefined_answer lawful primitive apart
  · unfold Canonical.isPrimitiveLiteral at primitive
    split at primitive
    case h_6 => cases primitive
    all_goals rfl

theorem request_of_wastes {shape : Shape} {before behind : Nat}
    (wasted : shape.wastes before behind = true) :
    shape.request before = .effect ∨ shape.request before = .value ∧ 0 < behind ∧
      ∃ items, shape = .elements .sequence items := by
  cases shape
  case expressionStatement => exact .inl rfl
  case elements kind items =>
    cases kind with
    | sequence => exact .inr ⟨rfl, of_decide_eq_true wasted, items, rfl⟩
    | array | object => cases wasted
  case loop kind initializer condition incrementor body =>
    cases kind with
    | forLoop =>
      rcases (Bool.or_eq_true _ _).mp wasted with first | third
      · rw [beq_iff_eq.mp first]
        exact .inl rfl
      · rw [beq_iff_eq.mp third]
        exact .inl rfl
    | whileLoop | doLoop => cases wasted
  all_goals cases wasted

theorem dropped_conduct {above : NodeId} {outer changed : Shape} {front back : List Tree} {operand : Tree}
    (wasted : outer.wastes front.length back.length = true)
    (same : changed.withSlots [] = outer.withSlots []) :
    engine.conduct (.node above changed (front ++ operand :: back)) =
      engine.conduct (.node above outer (front ++ .voided id operand :: back)) := by
  rw [conduct_node, conduct_node, same, List.map_append, List.map_append]
  rw [← outer.wastes_withSlots []] at wasted
  have names : (engine.conduct operand).names = (engine.conduct (.voided id operand)).names := by
    rw [conduct_voided, List.flatMap_cons, List.flatMap_nil, List.append_nil]
    rfl
  have effect : discard (engine.conduct operand).value =
      discard (engine.conduct (.voided id operand)).value := by
    rw [conduct_voided, lone_value, discard_bind]
    simp [discard]
  rcases request_of_wastes wasted with asked | ⟨asked, more, items, sequence⟩
  · refine node_eq ?_ names
    rw [List.length_map, asked]
    exact congrArg Part.effect effect
  · have behind : (back.map engine.conduct).map (fun conduct => Part.value conduct.value) ≠ [] := by
      intro none
      rw [List.map_eq_nil_iff, List.map_eq_nil_iff] at none
      rw [none] at more
      cases more
    have run (conduct : Conduct m ν) : engine.inTurn ((front.map engine.conduct ++
        conduct :: back.map engine.conduct).map fun conduct => .value conduct.value) = (do
          doAll (front.map engine.conduct)
          discard conduct.value
          engine.inTurn ((back.map engine.conduct).map fun conduct => .value conduct.value)) := by
      rw [List.map_append, List.map_cons, inTurn_append _ (List.cons_ne_nil _ _), inTurn_cons _ behind]
    rw [sequence, node_sequence, node_sequence, List.map_cons, List.map_cons, run, run, effect]
    simp only [List.flatMap_append, List.flatMap_cons, names]

theorem request_of_holdsBody {shape : Shape} {before : Nat} (holds : shape.holdsBody before = true) :
    shape.request before = .body := by
  cases shape
  case conditionalStatement => exact if_neg (Nat.ne_of_gt (of_decide_eq_true holds))
  case loop => exact if_pos (beq_iff_eq.mp holds)
  case forIn =>
    rw [beq_iff_eq.mp holds]
    rfl
  all_goals cases holds

omit [LawfulMonad m] in
/-- What is asked of a body is answered by a block with the body in it in the same way. -/
theorem body_conduct {changed shape : Shape} {front back : List Tree} {body block : Tree}
    (isBody : shape.holdsBody front.length = true) (same : changed.withSlots [] = shape.withSlots [])
    (names : (engine.conduct block).names = (engine.conduct body).names)
    (inner : (engine.conduct block).inner = (engine.conduct body).inner) :
    engine.conduct (.node id changed (front ++ block :: back)) =
      engine.conduct (.node id shape (front ++ body :: back)) := by
  rw [conduct_node, conduct_node, same, List.map_append, List.map_append]
  rw [← shape.holdsBody_withSlots []] at isBody
  refine node_eq ?_ names
  rw [List.length_map, request_of_holdsBody isBody]
  exact congrArg (fun inner => Part.list inner.1 inner.2) inner

theorem inner_of_noBlock {name : NodeId} {shape : Shape} {below : List Tree}
    (noBlock : shape.isBlock = false) :
    (engine.conduct (.node name shape below)).inner =
      ((engine.conduct (.node name shape below)).functions,
        discard (engine.conduct (.node name shape below)).value) := by
  rw [conduct_node]
  cases shape
  case block => cases noBlock
  case function isExpression _ _ _ =>
    cases isExpression with
    | true => rfl
    | false => exact congrArg (Prod.mk _) (@discard_performed m ν _ engine _ (pure ())).symm
  all_goals rfl

theorem wrapped_conduct {name body : NodeId} {changed shape inner : Shape} {front back below : List Tree}
    (isBody : shape.holdsBody front.length = true) (noBlock : inner.isBlock = false)
    (same : changed.withSlots [] = shape.withSlots []) :
    engine.conduct (.node id changed (front ++ .inBlock name [.node body inner below] :: back)) =
      engine.conduct (.node id shape (front ++ .node body inner below :: back)) := by
  refine body_conduct isBody same ?_ ?_
  · rw [Tree.inBlock, conduct_node]
    exact List.append_nil _
  · rw [inner_of_noBlock noBlock, Tree.inBlock, conduct_node]
    have functions := List.append_nil (engine.conduct (.node body inner below)).functions
    have run : (do discard (engine.conduct (.node body inner below)).value; pure ()) =
        discard (engine.conduct (.node body inner below)).value := bind_pure _
    exact Prod.ext functions run

theorem emptied_conduct {name body : NodeId} {changed shape : Shape} {front back : List Tree}
    (isBody : shape.holdsBody front.length = true) (same : changed.withSlots [] = shape.withSlots []) :
    engine.conduct (.node id changed (front ++ .inBlock name [] :: back)) =
      engine.conduct (.node id shape (front ++ .node body .emptyStatement [] :: back)) := by
  refine body_conduct isBody same rfl ?_
  rw [inner_of_noBlock rfl]
  exact congrArg (Prod.mk _) (@discard_performed m ν _ engine _ (pure ())).symm

/-- What is kept of a sequence in front runs before the last item. -/
theorem leads_conduct {first last leading : Tree} {more : List Tree} (gathered : first.Leads more leading) :
    (engine.conduct (.inSequence id (first :: (more ++ [last])))).names =
        (engine.conduct leading).names ++ (engine.conduct last).names ∧
      (engine.conduct (.inSequence id (first :: (more ++ [last])))).value = (do
        discard (engine.conduct leading).value
        (engine.conduct last).value) := by
  have kept : (engine.conduct leading).names = ((first :: more).map engine.conduct).flatMap (·.names) ∧
      discard (engine.conduct leading).value = doAll ((first :: more).map engine.conduct) := by
    by_cases only : more = []
    · rw [Tree.Leads, if_pos only] at gathered
      rw [gathered, only]
      exact ⟨(List.append_nil _).symm, (bind_pure _).symm⟩
    · rw [Tree.Leads, if_neg only] at gathered
      obtain ⟨name, rfl⟩ := gathered
      rw [conduct_inSequence]
      exact ⟨rfl, discard_inTurn _⟩
  rw [conduct_inSequence, lone_names, lone_value, ← List.cons_append, kept.1, kept.2, List.map_append,
    List.map_append, List.map_singleton, List.map_singleton, inTurn_append _ (List.cons_ne_nil _ _)]
  refine ⟨?_, rfl⟩
  rw [List.flatMap_append]
  exact congrArg (_ ++ ·) (List.append_nil _)

section Led
variable {shape : Shape} (isLed : shape.isLed = true)
include isLed

/-- An `if` or a `return` first asks for a value. -/
theorem exists_next (rest : List (Conduct m ν)) : ∃ next : ν → m ν, ∀ conduct,
    (engine.node shape (conduct :: rest)).value = conduct.value >>= next := by
  cases shape
  case conditionalStatement test thenBody elseBody =>
    refine ⟨fun value => do
      engine.branch (engine.machine.holds value)
        (engine.answersFrom (.conditionalStatement test thenBody elseBody) 1 rest)
      pure engine.undefined, fun conduct => ?_⟩
    have told : (engine.node (.conditionalStatement test thenBody elseBody) (conduct :: rest)).value =
        (engine.perform do
          let holds ← engine.machine.test conduct.value
          engine.branch holds
            (engine.answersFrom (.conditionalStatement test thenBody elseBody) 1 rest)).value := rfl
    rw [told, perform, plain_value, Machine.test]
    simp only [bind_assoc, pure_bind]
  case exit kind value =>
    cases kind with
    | returns => exact ⟨engine.leave, fun _ => rfl⟩
    | throws => cases isLed
  all_goals cases isLed

omit [LawfulMonad m] in
theorem node_of_isLed (conducts : List (Conduct m ν)) :
    (engine.node shape conducts).names = conducts.flatMap (·.names) ∧
      (engine.node shape conducts).functions = [] := by
  cases shape
  case conditionalStatement | exit => exact ⟨rfl, rfl⟩
  all_goals cases isLed

end Led

theorem led_conduct {container sequence before : NodeId} {outer changed shape remade : Shape}
    {lead front back rest : List Tree} {first last leading : Tree} {more : List Tree}
    (isLed : shape.isLed = true) (leads : outer.leading = lead.map Tree.root)
    (inList : outer.isContainer = true) (gathered : first.Leads more leading)
    (same : changed.withSlots [] = outer.withSlots [])
    (still : remade.withSlots [] = shape.withSlots []) :
    engine.conduct (.node container changed (lead ++ (front ++ .stated before leading ::
        .node statement remade (last :: rest) :: back))) =
      engine.conduct (.node container outer (lead ++ (front ++ .node statement shape
        (.inSequence sequence (first :: (more ++ [last])) :: rest) :: back))) := by
  have isLed' := (shape.isLed_withSlots []).trans isLed
  obtain ⟨named, run⟩ := @leads_conduct m ν _ engine _ sequence first last leading more gathered
  obtain ⟨next, continues⟩ := @exists_next m ν _ engine _ _ isLed' (rest.map engine.conduct)
  have lengths : (outer.withSlots []).leading.length = (lead.map engine.conduct).length := by
    rw [Shape.length_leading_withSlots, leads, List.length_map, List.length_map]
  -- the statement, with whatever stands in its first slot
  have led (tree : Tree) : (engine.conduct (.node statement shape (tree :: rest))).names =
        (engine.conduct tree).names ++ (rest.map engine.conduct).flatMap (·.names) ∧
      (engine.conduct (.node statement shape (tree :: rest))).functions = [] ∧
      (engine.conduct (.node statement shape (tree :: rest))).value = (engine.conduct tree).value >>= next := by
    rw [conduct_node, List.map_cons]
    exact ⟨(node_of_isLed isLed' _).1, (node_of_isLed isLed' _).2, continues _⟩
  have kept : engine.conduct (.node statement remade (last :: rest)) =
      engine.conduct (.node statement shape (last :: rest)) := by
    rw [conduct_node, conduct_node, still]
  rw [conduct_node, conduct_node, same]
  simp only [List.map_append, List.map_cons]
  refine node_container ((outer.isContainer_withSlots []).trans inList) lengths ?_ ?_ ?_
  · simp only [List.flatMap_append, List.flatMap_cons, kept, led, named, conduct_stated, lone_names,
      List.append_assoc]
  · simp only [List.flatMap_append, List.flatMap_cons, kept, led, conduct_stated, lone_functions,
      List.nil_append]
  · simp only [doAll_append, doAll, kept, led, run, conduct_stated, lone_value, discard_performed,
      discard_bind, bind_assoc]

omit [LawfulMonad m] in
theorem single_conduct {sequence : NodeId} {shape remade : Shape} {rest : List Tree} {only : Tree}
    (isLed : shape.isLed = true) (still : remade.withSlots [] = shape.withSlots []) :
    engine.conduct (.node statement remade (only :: rest)) =
      engine.conduct (.node statement shape (.inSequence sequence [only] :: rest)) := by
  have asked : (shape.withSlots []).request 0 = .value := by
    cases shape
    case conditionalStatement | exit => rfl
    all_goals cases isLed
  have sequenced := @conduct_inSequence m ν _ engine sequence [only]
  rw [conduct_node, conduct_node, still, List.map_cons, List.map_cons]
  refine @node_eq m ν _ engine _ _ _ [] _ ?_ ?_
  · rw [List.length_nil, asked, sequenced]
    rfl
  · rw [sequenced, lone_names]
    exact (List.append_nil _).symm

/-- The statements of a block that has no functions of its own may stand in the list around it. -/
theorem spliced_conduct (lawful : engine.IsLawful) {store : Store} {changed shape : Shape}
    {statements : List Tree} (isList : shape.isList = true)
    (blocks : ∀ name inner below, .node name inner below ∈ statements →
      Canonical.isSpliceable store (some name) = true → inner.isBlock = true)
    (free : ∀ name inner below, .node name inner below ∈ statements → inner.isBlock = true →
      (below.map engine.conduct).flatMap (·.functions) = [])
    (same : changed.withSlots [] = shape.withSlots []) :
    engine.conduct (.node id changed (statements.flatMap (Canonical.spread store))) =
      engine.conduct (.node id shape statements) := by
  have each : ∀ tree ∈ statements,
      ((Canonical.spread store tree).map engine.conduct).flatMap (·.names) = (engine.conduct tree).names ∧
      ((Canonical.spread store tree).map engine.conduct).flatMap (·.functions) =
        (engine.conduct tree).functions ∧
      doAll ((Canonical.spread store tree).map engine.conduct) = discard (engine.conduct tree).value := by
    have alone (tree : Tree) : ([tree].map engine.conduct).flatMap (·.names) = (engine.conduct tree).names ∧
        ([tree].map engine.conduct).flatMap (·.functions) = (engine.conduct tree).functions ∧
        doAll ([tree].map engine.conduct) = discard (engine.conduct tree).value :=
      ⟨List.append_nil _, List.append_nil _, bind_pure _⟩
    intro tree member
    cases tree with
    | nothing => exact alone .nothing
    | node name inner below =>
      rw [Canonical.spread]
      split
      · rename_i splices
        have isBlock := blocks name inner below member splices
        have none := free name inner below member isBlock
        cases inner
        case block slots =>
          rw [conduct_node]
          change _ = (engine.node (.block []) _).names ∧ _ = (engine.node (.block []) _).functions ∧
            _ = discard (engine.node (.block []) _).value
          rw [node_block lawful none, none, lone_value, discard_performed]
          exact ⟨rfl, rfl, rfl⟩
        all_goals cases isBlock
      · exact alone _
  have all : ((statements.flatMap (Canonical.spread store)).map engine.conduct).flatMap (·.names) =
        (statements.map engine.conduct).flatMap (·.names) ∧
      ((statements.flatMap (Canonical.spread store)).map engine.conduct).flatMap (·.functions) =
        (statements.map engine.conduct).flatMap (·.functions) ∧
      doAll ((statements.flatMap (Canonical.spread store)).map engine.conduct) =
        doAll (statements.map engine.conduct) := by
    clear blocks free
    induction statements with
    | nil => exact ⟨rfl, rfl, rfl⟩
    | cons first rest ih =>
      obtain ⟨names, functions, actions⟩ := each first List.mem_cons_self
      obtain ⟨others, added, later⟩ := ih fun tree member => each tree (List.mem_cons_of_mem _ member)
      rw [List.flatMap_cons, List.map_append, List.map_cons, List.flatMap_append, List.flatMap_cons, names,
        others, List.flatMap_append, List.flatMap_cons, functions, added, doAll_append, doAll, actions, later]
      exact ⟨rfl, rfl, rfl⟩
  have container : (shape.withSlots []).isContainer = true ∧
      (shape.withSlots []).leading.length = ([] : List (Conduct m ν)).length := by
    cases shape
    case file | block => exact ⟨rfl, rfl⟩
    all_goals cases isList
  rw [conduct_node, conduct_node, same]
  exact @node_container m ν _ engine _ [] _ _ container.1 container.2 all.1 all.2.1 all.2.2

end Steps

end Execution.Engine

end Unflatten
