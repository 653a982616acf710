import Unflatten.Proofs.Parser.Grammar

/-! # Statements behind labels

The parser puts a statement behind a label, or nothing if there is none, but never a name that is
no statement (`Store.LabelsStatements`).  The label of a jump is a name (`Store.JumpsToNames`).  Each
part of the grammar keeps what the labels made so far stand for, and what it answers for a statement
is no name (`Parser.Upholds`). -/

set_option autoImplicit false

namespace Unflatten

namespace Shape

/-- An identifier. -/
def isName : Shape → Bool
  | .identifier _ => true
  | _ => false

/-- A statement or a jump with a label. -/
def isLabeled : Shape → Bool
  | .labeled _ _ | .jump _ (some _) => true
  | _ => false

end Shape

namespace Store
variable {store later : Store} {slot : Slot}

/-- A slot holds something other than a name, or nothing. -/
def IsNameless (store : Store) (slot : Slot) : Prop :=
  ∀ id, slot = some id → ∃ shape, store.shape? (some id) = some shape ∧ shape.isName = false

/-- No name stands behind a label. -/
def LabelsStatements (store : Store) : Prop :=
  ∀ id label body, store.shape? (some id) = some (.labeled label body) → store.IsNameless body

/-- The label of a jump is a name. -/
def JumpsToNames (store : Store) : Prop :=
  ∀ id kind label, store.shape? (some id) = some (.jump kind (some label)) →
    (store.identifier? (some label)).isSome = true

/-- What stands behind a label is no name, and the label of a jump is one. -/
structure HasSoundLabels (store : Store) : Prop where
  statements : store.LabelsStatements
  jumps : store.JumpsToNames

theorem isNameless_none : store.IsNameless none := fun _ impossible => by cases impossible

theorem IsNameless.identifier? (nameless : store.IsNameless slot) : store.identifier? slot = none := by
  cases slot with
  | none => rfl
  | some id =>
    obtain ⟨shape, found, other⟩ := nameless id rfl
    rw [Store.identifier?, found]
    cases shape with
    | identifier => cases other
    | _ => rfl

theorem IsNameless.carry (nameless : store.IsNameless slot) (keeps : store.Keeps later) :
    later.IsNameless slot := by
  intro id same
  obtain ⟨shape, found, other⟩ := nameless id same
  exact ⟨shape, keeps id shape found, other⟩

theorem Keeps.isName (keeps : store.Keeps later) {label : NodeId}
    (named : (store.identifier? (some label)).isSome = true) :
    (later.identifier? (some label)).isSome = true := by
  unfold identifier? at named ⊢
  cases found : store.shape? (some label) with
  | none =>
    rw [found] at named
    cases named
  | some shape =>
    rw [found] at named
    rwa [keeps label shape found]

theorem HasSoundLabels.add (sound : store.HasSoundLabels) {shape : Shape}
    (behind : ∀ label body, shape = .labeled label body → store.IsNameless body)
    (named : ∀ kind label, shape = .jump kind (some label) → (store.identifier? (some label)).isSome = true)
    (flags : Flags) (start stop : Nat) : (store.add shape flags start stop).1.HasSoundLabels := by
  have keeps := keeps_add store shape flags start stop
  refine ⟨fun id label body found => ?_, fun id kind label found => ?_⟩
  all_goals
    rw [shape?_add] at found
    split at found
  · exact (behind label body (Option.some.inj found)).carry keeps
  · exact (sound.statements id label body found).carry keeps
  · exact keeps.isName (named kind label (Option.some.inj found))
  · exact keeps.isName (sound.jumps id kind label found)

end Store

namespace Parser

/-- A step leaves the labels sound, and its answer has a property in the store. -/
def Upholds {α : Type} (result : Store → α → Prop) (step : Parser α) : Prop :=
  ∀ state, state.store.HasSoundLabels →
    (step state).2.store.HasSoundLabels ∧ result (step state).2.store (step state).1

/-- Any answer will do. -/
abbrev Whatever {α : Type} : Store → α → Prop := fun _ _ => True

section Steps
variable {α β σ : Type} {step : Parser α} {next : α → Parser β} {answer : Store → α → Prop}
  {result : Store → β → Prop}

theorem Upholds.bind (first : Upholds answer step) (rest : ∀ value, Upholds result (next value)) :
    Upholds result (step >>= next) := fun state labels =>
  rest (step state).1 (step state).2 (first state labels).1

theorem Upholds.ite {condition : Prop} [Decidable condition] {first second : Parser β}
    (one : Upholds result first) (two : Upholds result second) :
    Upholds result (if condition then first else second) := by
  split
  · exact one
  · exact two

theorem Upholds.whatever (upholds : Upholds answer step) : Upholds Whatever step :=
  fun state labels => ⟨(upholds state labels).1, trivial⟩

theorem upholds_pure {value : α} : Upholds Whatever (pure value : Parser α) :=
  fun _ labels => ⟨labels, trivial⟩

theorem upholds_none : Upholds Store.IsNameless (pure none) := fun _ labels =>
  ⟨labels, Store.isNameless_none⟩

theorem IsSilent.upholds (silent : IsSilent step) : Upholds Whatever step := fun state labels =>
  ⟨by rw [silent state]; exact labels, trivial⟩

/-- A step that makes no node stands before others. -/
theorem IsSilent.before (silent : IsSilent step) (rest : ∀ value, Upholds result (next value)) :
    Upholds result (step >>= next) := silent.upholds.bind rest

theorem Upholds.outsideHead (upholds : Upholds answer step) : Upholds answer (outsideHead step) :=
  fun state labels => upholds { state with inHead := false } labels

theorem Upholds.insideHead (upholds : Upholds answer step) : Upholds answer (insideHead step) :=
  fun state labels => upholds { state with inHead := true } labels

theorem Upholds.insideFunction (upholds : Upholds answer step) :
    Upholds answer (insideFunction step) :=
  fun state labels => upholds { state with inHead := false, inFunction := true } labels

theorem upholds_repeatStep {step : σ → Parser (σ × Bool)} (each : ∀ value, Upholds Whatever (step value))
    (fuel : Nat) (value : σ) : Upholds Whatever (repeatStep step fuel value) := by
  induction fuel generalizing value with
  | zero => exact upholds_pure
  | succ fuel ih => exact (each value).bind fun turn => .ite (ih turn.1) upholds_pure

theorem upholds_repeatWhile {initial : σ} {step : σ → Parser (σ × Bool)}
    (each : ∀ value, Upholds Whatever (step value)) : Upholds Whatever (repeatWhile initial step) :=
  isSilent_limit.before fun fuel => upholds_repeatStep each fuel initial

theorem upholds_nodeAt {shape : Shape} (plain : shape.isLabeled = false) (flags : Flags)
    (start stop : Nat) :
    Upholds (fun store slot => store.shape? slot = some shape) (nodeAt shape flags start stop) := by
  intro state labels
  refine ⟨labels.add (fun label body same => ?_) (fun kind label same => ?_) flags start stop, ?_⟩
  · rw [same] at plain
    cases plain
  · rw [same] at plain
    cases plain
  · exact (Store.shape?_add state.store shape flags start stop _).trans (if_pos rfl)

theorem upholds_flagged {shape : Shape} (plain : shape.isLabeled = false) (other : shape.isName = false)
    (flags : Flags) (start : Nat) : Upholds Store.IsNameless (flagged shape flags start) := by
  refine isSilent_lastEnd.before fun stop state labels => ?_
  obtain ⟨still, made⟩ := upholds_nodeAt plain flags start stop state labels
  exact ⟨still, fun id same => ⟨shape, same ▸ made, other⟩⟩

theorem upholds_node {shape : Shape} (plain : shape.isLabeled = false) (other : shape.isName = false)
    (start : Nat) : Upholds Store.IsNameless (node shape start) :=
  upholds_flagged plain other Flags.none start

end Steps

/-- A grammar leaves no name behind a label, and none for a statement. -/
structure UpholdsGoals (inner : Grammar) : Prop where
  statement : Upholds Store.IsNameless (inner .statement)
  assignment : Upholds Whatever (inner .assignment)
  prefixed : Upholds Whatever (inner .prefixed)

/-! ## Expressions -/

section Expressions
variable {inner : Grammar}

/-- What is read for a name is a name. -/
theorem upholds_name :
    Upholds (fun store slot => (store.identifier? slot).isSome = true) identifier := by
  refine isSilent_position.before fun _ => isSilent_tokenEnd.before fun _ =>
    isSilent_value.before fun text => isSilent_advance.before fun _ state labels => ?_
  obtain ⟨still, made⟩ := upholds_nodeAt (rfl : (Shape.identifier text).isLabeled = false) _ _ _ state labels
  refine ⟨still, ?_⟩
  rw [Store.identifier?, made]
  rfl

theorem upholds_identifier : Upholds Whatever identifier := upholds_name.whatever

theorem upholds_bindingIdentifier : Upholds Whatever bindingIdentifier :=
  (isSilent_at? _).before fun _ => .ite upholds_identifier <|
    (isSilent_report _).before fun _ => upholds_pure

theorem upholds_literal (kind : LiteralKind) (read : String → Option Float) :
    Upholds Whatever (literal kind read) :=
  isSilent_position.before fun _ => isSilent_value.before fun _ => isSilent_tokenEnd.before fun _ =>
    isSilent_advance.before fun _ => (upholds_nodeAt rfl _ _ _).whatever

theorem upholds_expression (goals : UpholdsGoals inner) : Upholds Whatever (expression inner) := by
  refine isSilent_position.before fun start => goals.assignment.bind fun first =>
    (isSilent_at? _).before fun _ => .ite upholds_pure ?_
  refine (upholds_repeatWhile fun items => ?_).bind fun items => (upholds_node rfl rfl start).whatever
  exact (isSilent_accept _).before fun _ => .ite (goals.assignment.bind fun item =>
    .ite ((isSilent_report _).before fun _ => upholds_pure) upholds_pure) upholds_pure

theorem upholds_parenthesized (goals : UpholdsGoals inner) :
    Upholds Whatever (parenthesized inner) :=
  (isSilent_skip _).before fun _ => (upholds_expression goals).outsideHead.bind fun _ =>
    (isSilent_skip _).before fun _ => upholds_pure

theorem upholds_items {item : Parser Slot} (close : TokenKind) (each : Upholds Whatever item) :
    Upholds Whatever (items close item) := by
  refine (upholds_repeatWhile fun found => ?_).bind fun found => upholds_pure
  exact (isSilent_atClose close).before fun _ => .ite upholds_pure <| each.bind fun _ =>
    .ite upholds_pure <| (isSilent_accept _).before fun _ => upholds_pure

theorem upholds_arguments (goals : UpholdsGoals inner) : Upholds Whatever (arguments inner) :=
  (isSilent_skip _).before fun _ => (upholds_items _ goals.assignment).outsideHead.bind fun _ =>
    (isSilent_skip _).before fun _ => upholds_pure

theorem upholds_arrayLiteral (goals : UpholdsGoals inner) : Upholds Whatever (arrayLiteral inner) := by
  refine isSilent_position.before fun start => (isSilent_skip _).before fun _ =>
    (upholds_repeatWhile fun turn => ?_).outsideHead.bind fun result =>
      (isSilent_skip _).before fun _ => (upholds_flagged rfl rfl _ start).whatever
  refine (isSilent_atClose _).before fun _ => .ite upholds_pure <|
    isSilent_lineBreakBefore.before fun _ => (isSilent_at? _).before fun _ => .ite ?_ ?_
  · exact isSilent_position.before fun place => (upholds_nodeAt rfl _ _ _).bind fun _ =>
      isSilent_advance.before fun _ => upholds_pure
  · exact goals.assignment.bind fun _ => .ite upholds_pure <|
      (isSilent_accept _).before fun _ => upholds_pure

theorem upholds_propertyName : Upholds Whatever propertyName :=
  isSilent_token.before fun _ => .ite ((upholds_literal _ _).bind fun _ => upholds_pure) <|
    .ite ((upholds_literal _ _).bind fun _ => upholds_pure) <|
      .ite (upholds_identifier.bind fun _ => upholds_pure) <|
        (isSilent_report _).before fun _ => upholds_pure

theorem upholds_objectLiteral (goals : UpholdsGoals inner) :
    Upholds Whatever (objectLiteral inner) := by
  refine isSilent_position.before fun start => (isSilent_skip _).before fun _ =>
    (upholds_repeatWhile fun turn => ?_).bind fun result => isSilent_lineBreakBefore.before fun _ =>
      (isSilent_skip _).before fun _ => (upholds_flagged rfl rfl _ start).whatever
  refine (isSilent_atClose _).before fun _ => .ite upholds_pure <|
    isSilent_lineBreakBefore.before fun _ => isSilent_position.before fun begin =>
      upholds_propertyName.bind fun name => ?_
  cases name with
  | none => exact upholds_pure
  | some name =>
    exact (isSilent_expect _).before fun _ => .ite (goals.assignment.outsideHead.bind fun _ =>
      (upholds_node rfl rfl begin).bind fun _ => (isSilent_accept _).before fun _ => upholds_pure)
      upholds_pure

/-! ## Blocks and functions -/

theorem upholds_statementList (goals : UpholdsGoals inner) (isEnd : TokenKind → Bool) :
    Upholds Whatever (statementList inner isEnd) := by
  refine (upholds_repeatWhile fun found => ?_).bind fun found => upholds_pure
  refine isSilent_token.before fun kind => .ite upholds_pure <| isSilent_position.before fun start =>
    goals.statement.bind fun next => isSilent_position.before fun _ => isSilent_token.before fun _ => ?_
  exact .ite (isSilent_advance.before fun _ => upholds_pure) upholds_pure

theorem upholds_block (goals : UpholdsGoals inner) : Upholds Store.IsNameless (block inner) :=
  isSilent_position.before fun start => (isSilent_skip _).before fun _ =>
    (upholds_statementList goals _).bind fun _ => (isSilent_skip _).before fun _ =>
      upholds_node rfl rfl start

theorem upholds_signatureAndBody (goals : UpholdsGoals inner) :
    Upholds Whatever (signatureAndBody inner) :=
  (isSilent_skip _).before fun _ => (upholds_items _ upholds_bindingIdentifier).bind fun _ =>
    (isSilent_skip _).before fun _ => (upholds_block goals).insideFunction.bind fun _ => upholds_pure

theorem upholds_functionExpression (goals : UpholdsGoals inner) :
    Upholds Whatever (functionExpression inner) := by
  refine isSilent_position.before fun start => (isSilent_skip _).before fun _ =>
    (isSilent_at? _).before fun _ => ?_
  have rest : ∀ name : Slot, Upholds Whatever (do
      let result ← signatureAndBody inner
      node (.function true name result.1 result.2) start) := fun name =>
    (upholds_signatureAndBody goals).bind fun _ => (upholds_node rfl rfl start).whatever
  exact .ite (upholds_identifier.bind rest) (rest none)

/-! ## Operands -/

theorem upholds_primary (goals : UpholdsGoals inner) : Upholds Whatever (primary inner) := by
  have pattern : Upholds Whatever (do
      rescanSlash
      let start ← position
      let text ← value
      let stop ← tokenEnd
      advance
      nodeAt (.literal .pattern text none) Flags.none start stop) :=
    isSilent_rescanSlash.before fun _ => isSilent_position.before fun _ => isSilent_value.before fun _ =>
      isSilent_tokenEnd.before fun _ => isSilent_advance.before fun _ =>
        (upholds_nodeAt rfl _ _ _).whatever
  have keyword : Upholds Whatever (do
      let start ← position
      let kind ← token
      let stop ← tokenEnd
      advance
      nodeAt (.token kind) Flags.none start stop) :=
    isSilent_position.before fun _ => isSilent_token.before fun _ => isSilent_tokenEnd.before fun _ =>
      isSilent_advance.before fun _ => (upholds_nodeAt rfl _ _ _).whatever
  refine isSilent_token.before fun kind => ?_
  split
  · exact upholds_identifier
  · exact upholds_literal _ _
  · exact upholds_literal _ _
  · exact pattern
  · exact pattern
  · exact keyword
  · exact keyword
  · exact keyword
  · exact keyword
  · exact upholds_parenthesized goals
  · exact upholds_arrayLiteral goals
  · exact upholds_objectLiteral goals
  · exact upholds_functionExpression goals
  · exact (isSilent_report _).before fun _ => upholds_pure

theorem upholds_memberChain (goals : UpholdsGoals inner) (start : Nat) (allowCall : Bool)
    (first : Slot) : Upholds Whatever (memberChain inner start allowCall first) := by
  refine upholds_repeatWhile fun object => isSilent_token.before fun kind => ?_
  have made : ∀ {shape : Shape}, shape.isLabeled = false → shape.isName = false →
      Upholds Whatever (do return (← node shape start, true) : Parser (Slot × Bool)) :=
    fun plain other => (upholds_node plain other start).bind fun _ => upholds_pure
  split
  · exact isSilent_advance.before fun _ => isSilent_token.before fun _ =>
      .ite (upholds_identifier.bind fun _ => made rfl rfl) <|
        (isSilent_report _).before fun _ => upholds_pure
  · exact isSilent_advance.before fun _ => (upholds_expression goals).outsideHead.bind fun _ =>
      (isSilent_skip _).before fun _ => made rfl rfl
  · exact .ite ((upholds_arguments goals).bind fun _ => made rfl rfl) upholds_pure
  · exact upholds_pure

theorem upholds_construction (goals : UpholdsGoals inner) (fuel : Nat) :
    Upholds Whatever (construction inner fuel) := by
  induction fuel with
  | zero => exact upholds_pure
  | succ fuel ih =>
    refine isSilent_position.before fun start => (isSilent_skip _).before fun _ =>
      isSilent_position.before fun calleeStart => (isSilent_at? _).before fun _ => ?_
    have built : ∀ (callee : Slot) (passed : List Slot),
        Upholds Whatever (node (.call true callee passed) start) := fun _ _ =>
      (upholds_node rfl rfl start).whatever
    have applied : ∀ callee : Slot, Upholds Whatever (do
        let passed ← if ← at? .openParen then arguments inner else pure []
        node (.call true callee passed) start) := fun callee =>
      (isSilent_at? _).before fun _ => .ite ((upholds_arguments goals).bind (built callee))
        (built callee [])
    have reached : ∀ callee : Slot, Upholds Whatever (do
        let callee ← if callee.isSome then memberChain inner calleeStart false callee
          else pure callee
        let passed ← if ← at? .openParen then arguments inner else pure []
        node (.call true callee passed) start) := fun callee =>
      .ite ((upholds_memberChain goals _ _ _).bind applied) (applied callee)
    exact .ite (ih.bind reached) ((upholds_primary goals).bind reached)

theorem upholds_leftHandSide (goals : UpholdsGoals inner) : Upholds Whatever (leftHandSide inner) := by
  refine isSilent_position.before fun start => (isSilent_at? _).before fun _ => ?_
  have rest : ∀ first : Slot, Upholds Whatever (do
      if first.isNone then return first
      memberChain inner start true first) := fun first =>
    .ite upholds_pure (upholds_memberChain goals _ _ _)
  exact .ite (isSilent_limit.before fun _ => (upholds_construction goals _).bind rest)
    ((upholds_primary goals).bind rest)

theorem upholds_updated (goals : UpholdsGoals inner) : Upholds Whatever (updated inner) :=
  isSilent_position.before fun start => (upholds_leftHandSide goals).bind fun _ =>
    isSilent_token.before fun _ => isSilent_lineBreakBefore.before fun _ =>
      .ite (isSilent_advance.before fun _ => (upholds_node rfl rfl start).whatever) upholds_pure

theorem upholds_operand (goals : UpholdsGoals inner) : Upholds Whatever (operand inner) :=
  isSilent_token.before fun _ => .ite goals.prefixed (upholds_updated goals)

theorem upholds_prefixedOperand (goals : UpholdsGoals inner) :
    Upholds Whatever (prefixedOperand inner) := by
  refine isSilent_position.before fun start => isSilent_token.before fun operator =>
    isSilent_advance.before fun _ => (upholds_operand goals).bind fun inside => ?_
  have made : Upholds Whatever (node (.unary false operator inside) start) :=
    (upholds_node rfl rfl start).whatever
  exact .ite ((isSilent_report _).before fun _ => made) made

/-! ## Operators -/

theorem upholds_binary (goals : UpholdsGoals inner) (fuel least : Nat) :
    Upholds Whatever (binary inner fuel least) := by
  induction fuel generalizing least with
  | zero => exact upholds_operand goals
  | succ fuel ih =>
    refine isSilent_position.before fun start => (upholds_operand goals).bind fun first =>
      isSilent_inHead.before fun inHead => isSilent_limit.before fun limit =>
        upholds_repeatStep (fun left => isSilent_token.before fun operator => ?_) limit first
    split
    · exact upholds_pure
    · refine .ite upholds_pure <| isSilent_advance.before fun _ => (ih _).bind fun right => ?_
      have made : Upholds Whatever
          (do return (← node (.binary left operator right) start, true) : Parser (Slot × Bool)) :=
        (upholds_node rfl rfl start).bind fun _ => upholds_pure
      exact .ite ((isSilent_report _).before fun _ => made) made

theorem upholds_conditional (goals : UpholdsGoals inner) : Upholds Whatever (conditional inner) :=
  isSilent_position.before fun start => isSilent_limit.before fun _ =>
    (upholds_binary goals _ _).bind fun _ => (isSilent_at? _).before fun _ =>
      .ite upholds_pure <| isSilent_advance.before fun _ => goals.assignment.outsideHead.bind fun _ =>
        (isSilent_skip _).before fun _ => goals.assignment.bind fun _ =>
          (upholds_node rfl rfl start).whatever

theorem upholds_assignment (goals : UpholdsGoals inner) : Upholds Whatever (assignment inner) := by
  refine isSilent_position.before fun start => (upholds_conditional goals).bind fun left =>
    isSilent_token.before fun operator => .ite ((isSilent_satisfies _ _).before fun _ => ?_) upholds_pure
  have made : Upholds Whatever (do
      advance
      let right ← inner .assignment
      node (.binary left operator right) start) :=
    isSilent_advance.before fun _ => goals.assignment.bind fun right =>
      (upholds_node rfl rfl start).whatever
  exact .ite made ((isSilent_report _).before fun _ => made)

end Expressions

/-! ## Statements -/

section Statements
variable {inner : Grammar}

theorem upholds_expressionStatement (goals : UpholdsGoals inner) :
    Upholds Store.IsNameless (expressionStatement inner) :=
  isSilent_position.before fun start => (upholds_expression goals).bind fun _ =>
    .ite upholds_none <| isSilent_endStatement.before fun _ => upholds_node rfl rfl start

/-- What is put behind a label is a statement. -/
theorem upholds_labeledStatement (goals : UpholdsGoals inner) :
    Upholds Store.IsNameless (labeledStatement inner) := by
  refine isSilent_position.before fun start => upholds_identifier.bind fun label =>
    (isSilent_skip _).before fun _ state labels => ?_
  obtain ⟨still, nameless⟩ := goals.statement state labels
  refine ⟨still.add (fun _ _ same => ?_) (fun _ _ same => ?_) Flags.none start
    (inner .statement state).2.lastEnd, fun id same => ?_⟩
  · cases same
    exact nameless
  · cases same
  · cases same
    exact ⟨_, (Store.shape?_add (inner .statement state).2.store _ _ _ _ _).trans (if_pos rfl), rfl⟩

theorem upholds_variableDeclarations (goals : UpholdsGoals inner) :
    Upholds Whatever (variableDeclarations inner) := by
  refine isSilent_token.before fun keyword => isSilent_advance.before fun _ =>
    (upholds_repeatWhile fun found => ?_).bind fun found => upholds_pure
  refine isSilent_position.before fun start => upholds_bindingIdentifier.bind fun name =>
    (isSilent_accept _).before fun _ => ?_
  have rest : ∀ initializer : Slot, Upholds Whatever (do
      let entry ← node (.declaration name initializer) start
      return (found.push entry, ← accept .comma) : Parser (Array Slot × Bool)) := fun _ =>
    (upholds_node rfl rfl start).bind fun _ => (isSilent_accept _).before fun _ => upholds_pure
  exact .ite (goals.assignment.bind rest) (rest none)

theorem upholds_variableStatement (goals : UpholdsGoals inner) :
    Upholds Store.IsNameless (variableStatement inner) :=
  isSilent_position.before fun start => (upholds_variableDeclarations goals).bind fun result =>
    isSilent_endStatement.before fun _ => upholds_flagged rfl rfl result.1 start

theorem upholds_functionDeclaration (goals : UpholdsGoals inner) :
    Upholds Store.IsNameless (functionDeclaration inner) :=
  isSilent_position.before fun start => (isSilent_skip _).before fun _ =>
    upholds_bindingIdentifier.bind fun _ => (upholds_signatureAndBody goals).bind fun _ =>
      upholds_node rfl rfl start

theorem upholds_conditionalStatement (goals : UpholdsGoals inner) :
    Upholds Store.IsNameless (conditionalStatement inner) := by
  refine isSilent_position.before fun start => (isSilent_skip _).before fun _ =>
    (upholds_parenthesized goals).bind fun test => goals.statement.bind fun thenBody =>
      (isSilent_accept _).before fun _ => ?_
  have rest : ∀ elseBody : Slot, Upholds Store.IsNameless
      (node (.conditionalStatement test thenBody elseBody) start) := fun _ => upholds_node rfl rfl start
  exact .ite (goals.statement.bind rest) (rest none)

/-! ## Loops -/

theorem upholds_loopInitializer (goals : UpholdsGoals inner) :
    Upholds Whatever (loopInitializer inner) := by
  have declared : Upholds Whatever (do
      let start ← position
      let result ← variableDeclarations inner
      flagged (.declarationList false result.2) result.1 start) :=
    isSilent_position.before fun start => (upholds_variableDeclarations goals).bind fun result =>
      (upholds_flagged rfl rfl result.1 start).whatever
  refine isSilent_token.before fun kind => ?_
  split
  · exact declared
  · exact declared
  · exact declared
  · exact upholds_pure
  · exact upholds_expression goals

theorem upholds_forStatement (goals : UpholdsGoals inner) :
    Upholds Store.IsNameless (forStatement inner) := by
  refine isSilent_position.before fun start => (isSilent_skip _).before fun _ =>
    (isSilent_skip _).before fun _ => (upholds_loopInitializer goals).insideHead.bind
      fun initializer => ?_
  have last : ∀ test incrementor : Slot, Upholds Store.IsNameless (do
      discard (expect .closeParen)
      let body ← inner .statement
      node (.loop .forLoop initializer test incrementor body) start) := fun _ _ =>
    (isSilent_skip _).before fun _ => goals.statement.bind fun _ => upholds_node rfl rfl start
  have middle : ∀ test : Slot, Upholds Store.IsNameless (do
      discard (expect .semicolon)
      let incrementor ← if ← at? .closeParen then pure none else outsideHead (expression inner)
      discard (expect .closeParen)
      let body ← inner .statement
      node (.loop .forLoop initializer test incrementor body) start) := fun test =>
    (isSilent_skip _).before fun _ => (isSilent_at? _).before fun _ =>
      .ite (last test none) ((upholds_expression goals).outsideHead.bind (last test))
  have rest : ∀ isForIn : Bool, Upholds Store.IsNameless (do
      if isForIn then
        let object ← outsideHead (expression inner)
        discard (expect .closeParen)
        let body ← inner .statement
        node (.forIn initializer object body) start
      else
        discard (expect .semicolon)
        let test ← if ← at? .semicolon then pure none else outsideHead (expression inner)
        discard (expect .semicolon)
        let incrementor ← if ← at? .closeParen then pure none else outsideHead (expression inner)
        discard (expect .closeParen)
        let body ← inner .statement
        node (.loop .forLoop initializer test incrementor body) start) := by
    intro isForIn
    refine .ite ?_ ?_
    · exact (upholds_expression goals).outsideHead.bind fun _ => (isSilent_skip _).before fun _ =>
        goals.statement.bind fun _ => upholds_node rfl rfl start
    · exact (isSilent_skip _).before fun _ => (isSilent_at? _).before fun _ =>
        .ite (middle none) ((upholds_expression goals).outsideHead.bind middle)
  exact .ite ((isSilent_accept _).before rest) (rest false)

theorem upholds_whileStatement (goals : UpholdsGoals inner) :
    Upholds Store.IsNameless (whileStatement inner) :=
  isSilent_position.before fun start => (isSilent_skip _).before fun _ =>
    (upholds_parenthesized goals).bind fun _ => goals.statement.bind fun _ => upholds_node rfl rfl start

theorem upholds_doStatement (goals : UpholdsGoals inner) :
    Upholds Store.IsNameless (doStatement inner) :=
  isSilent_position.before fun start => (isSilent_skip _).before fun _ =>
    goals.statement.bind fun _ => (isSilent_skip _).before fun _ =>
      (upholds_parenthesized goals).bind fun _ => (isSilent_accept _).discarded.before fun _ =>
        upholds_node rfl rfl start

/-! ## Switches and jumps -/

theorem upholds_clauseBody (goals : UpholdsGoals inner) (isDefault : Bool) (label : Slot)
    (start : Nat) : Upholds Whatever (clauseBody inner isDefault label start) :=
  (isSilent_skip _).before fun _ => (upholds_statementList goals _).bind fun _ =>
    (upholds_node rfl rfl start).whatever

theorem upholds_switchStatement (goals : UpholdsGoals inner) :
    Upholds Store.IsNameless (switchStatement inner) := by
  refine isSilent_position.before fun start => (isSilent_skip _).before fun _ =>
    (upholds_parenthesized goals).bind fun discriminant => (isSilent_skip _).before fun _ =>
      (upholds_repeatWhile fun clauses => ?_).bind fun clauses => (isSilent_skip _).before fun _ =>
        upholds_node rfl rfl start
  refine (isSilent_atClose _).before fun _ => .ite upholds_pure <|
    isSilent_position.before fun clauseStart => isSilent_token.before fun kind => ?_
  split
  · exact isSilent_advance.before fun _ => (upholds_expression goals).outsideHead.bind fun label =>
      (upholds_clauseBody goals false label clauseStart).bind fun _ => upholds_pure
  · exact isSilent_advance.before fun _ =>
      (upholds_clauseBody goals true none clauseStart).bind fun _ => upholds_pure
  · exact (isSilent_report _).before fun _ => isSilent_advance.before fun _ => upholds_pure

theorem upholds_jumpStatement (kind : JumpKind) :
    Upholds Store.IsNameless (jumpStatement kind) := by
  refine isSilent_position.before fun start => isSilent_advance.before fun _ =>
    (isSilent_at? _).before fun _ => isSilent_lineBreakBefore.before fun _ => .ite ?_ ?_
  · intro state labels
    obtain ⟨still, named⟩ := upholds_name state labels
    have kept : (endStatement (identifier state).2).2.store = (identifier state).2.store :=
      isSilent_endStatement (identifier state).2
    rw [← kept] at still named
    refine ⟨still.add (fun _ _ same => ?_) (fun _ _ same => ?_) Flags.none start
      (endStatement (identifier state).2).2.lastEnd, fun id same => ?_⟩
    · cases same
    · cases same
      exact named
    · cases same
      have added := Store.shape?_add (endStatement (identifier state).2).2.store
      exact ⟨_, (added _ _ _ _ _).trans (if_pos rfl), rfl⟩
  · exact isSilent_endStatement.before fun _ => upholds_node rfl rfl start

theorem upholds_returnStatement (goals : UpholdsGoals inner) :
    Upholds Store.IsNameless (returnStatement inner) := by
  refine isSilent_position.before fun start => isSilent_inFunction.before fun _ => ?_
  have rest : ∀ result : Slot, Upholds Store.IsNameless (do
      endStatement
      node (.exit .returns result) start) := fun _ =>
    isSilent_endStatement.before fun _ => upholds_node rfl rfl start
  have made : Upholds Store.IsNameless (do
      advance
      let result ← if ← canEndStatement then pure none else expression inner
      endStatement
      node (.exit .returns result) start) :=
    isSilent_advance.before fun _ => isSilent_canEndStatement.before fun _ =>
      .ite (rest none) ((upholds_expression goals).bind rest)
  exact .ite made ((isSilent_report _).before fun _ => made)

theorem upholds_throwStatement (goals : UpholdsGoals inner) :
    Upholds Store.IsNameless (throwStatement inner) := by
  refine isSilent_position.before fun start => isSilent_advance.before fun _ =>
    isSilent_lineBreakBefore.before fun _ => ?_
  have made : Upholds Store.IsNameless (do
      let thrown ← expression inner
      endStatement
      node (.exit .throws thrown) start) :=
    (upholds_expression goals).bind fun _ => isSilent_endStatement.before fun _ =>
      upholds_node rfl rfl start
  exact .ite ((isSilent_report _).before fun _ => made) made

/-! ## Handlers -/

theorem upholds_catchClause (goals : UpholdsGoals inner) :
    Upholds Store.IsNameless (catchClause inner) :=
  isSilent_position.before fun start => isSilent_advance.before fun _ => (isSilent_skip _).before fun _ =>
    upholds_bindingIdentifier.bind fun _ => (isSilent_skip _).before fun _ =>
      (upholds_block goals).bind fun _ => upholds_node rfl rfl start

theorem upholds_tryStatement (goals : UpholdsGoals inner) :
    Upholds Store.IsNameless (tryStatement inner) := by
  refine isSilent_position.before fun start => (isSilent_skip _).before fun _ =>
    (upholds_block goals).bind fun body => (isSilent_at? _).before fun _ => ?_
  have last : ∀ handler finalizer : Slot, Upholds Store.IsNameless (do
      if handler.isNone && finalizer.isNone then report .handlerExpected
      node (.tryStatement body handler finalizer) start) := fun _ _ =>
    .ite ((isSilent_report _).before fun _ => upholds_node rfl rfl start) (upholds_node rfl rfl start)
  have rest : ∀ handler : Slot, Upholds Store.IsNameless (do
      let finalizer ← if ← accept .finallyKeyword then block inner else pure none
      if handler.isNone && finalizer.isNone then report .handlerExpected
      node (.tryStatement body handler finalizer) start) := fun handler =>
    (isSilent_accept _).before fun _ => .ite ((upholds_block goals).bind (last handler))
      (last handler none)
  exact .ite ((upholds_catchClause goals).bind rest) (rest none)

theorem upholds_statement (goals : UpholdsGoals inner) :
    Upholds Store.IsNameless (statement inner) := by
  have nothing : Upholds Store.IsNameless (do
      report .statementExpected
      return none) := (isSilent_report _).before fun _ => upholds_none
  refine isSilent_token.before fun kind => ?_
  split
  · exact upholds_block goals
  · exact isSilent_position.before fun start => isSilent_advance.before fun _ =>
      upholds_node rfl rfl start
  · exact upholds_variableStatement goals
  · exact upholds_variableStatement goals
  · exact upholds_variableStatement goals
  · exact upholds_functionDeclaration goals
  · exact upholds_conditionalStatement goals
  · exact upholds_forStatement goals
  · exact upholds_whileStatement goals
  · exact upholds_doStatement goals
  · exact upholds_switchStatement goals
  · exact upholds_jumpStatement .breaks
  · exact upholds_jumpStatement .continues
  · exact upholds_returnStatement goals
  · exact upholds_throwStatement goals
  · exact upholds_tryStatement goals
  · exact isSilent_position.before fun start => isSilent_advance.before fun _ =>
      isSilent_endStatement.before fun _ => upholds_node rfl rfl start
  · exact isSilent_peek.before fun _ => .ite (upholds_labeledStatement goals)
      (upholds_expressionStatement goals)
  · exact nothing
  · exact nothing
  · exact nothing
  · exact nothing
  · exact nothing
  · exact nothing
  · exact upholds_expressionStatement goals

end Statements

/-- The grammar of each depth leaves no name behind a label. -/
theorem grammar_upholdsGoals (depth : Nat) : UpholdsGoals (grammar depth) := by
  induction depth with
  | zero =>
    have nothing : Upholds Store.IsNameless (do
        report .nestingTooDeep
        return none) := (isSilent_report _).before fun _ => upholds_none
    exact ⟨nothing, nothing.whatever, nothing.whatever⟩
  | succ depth ih => exact ⟨upholds_statement ih, upholds_assignment ih, upholds_prefixedOperand ih⟩

end Parser

/-- Labels are sound, whatever text is read. -/
theorem parse_hasSoundLabels (text : List Char) : (parse text).store.HasSoundLabels := by
  have upholds : Parser.Upholds Parser.Whatever (do
      Parser.advance
      Parser.statementList (Parser.grammar Parser.maxDepth) (· == .endOfFile)) :=
    Parser.isSilent_advance.before fun _ =>
      Parser.upholds_statementList (Parser.grammar_upholdsGoals Parser.maxDepth) _
  have nothing : Store.empty.HasSoundLabels := by
    refine ⟨fun id label body found => ?_, fun id kind label found => ?_⟩
    all_goals
      rw [Store.shape?_empty] at found
      cases found
  exact (upholds (Parser.initial text) nothing).1.add (fun _ _ same => by cases same)
    (fun _ _ same => by cases same) _ _ _

/-- No name stands behind a label. -/
theorem parse_labelsStatements (text : List Char) : (parse text).store.LabelsStatements :=
  (parse_hasSoundLabels text).statements

end Unflatten
