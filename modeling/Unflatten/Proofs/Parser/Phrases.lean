import Unflatten.Proofs.Parser.Reading

/-! # Every phrase is read in full

Each part of the grammar goes over a stretch of tokens and makes one node of it, unless it reports
an error.  The grammar of a depth is built from that of the depth below. -/

set_option autoImplicit false

namespace Unflatten

namespace Parser

/-- What a grammar makes of its goals. -/
structure MakesPhrases (text : List Char) (inner : Grammar) : Prop where
  statement : Makes text Anything (inner .statement) phrase
  assignment : Makes text Anything (inner .assignment) phrase
  prefixed : Makes text (isPrefixOperator · = true) (inner .prefixed) phrase

/-! ## Expressions -/

section Expressions
variable {text : List Char} {inner : Grammar} {first : ParserState}

theorem makes_expression (goals : MakesPhrases text inner) :
    Makes text Anything (expression inner) phrase := by
  refine .position fun first => goals.assignment.then fun item => reads_at? fun comma =>
    .ite (fun _ => reads_done rfl id) fun _ => ?_
  refine Reads.bind (Reads.anywhere (reads_repeatWhile
    (fun items : Array Slot => .token :: Piece.ofSlots items.toList) #[item] fun items => ?_))
    fun items => reads_node (by simp [Shape.visible, Shape.slots]) List.mem_cons_self rfl
  refine (makes_option rfl).then fun more => .ite (fun _ => ?_) fun _ => reads_done (by simp) (by simp)
  refine goals.assignment.then fun next => .ite (fun _ => reads_report (keepsErrors_pure _)) fun _ => ?_
  exact reads_done (by simp) (by simp)

theorem makes_parenthesized (goals : MakesPhrases text inner) :
    Makes text Anything (parenthesized inner) phrase :=
  .intro fun _ => (makes_skip rfl).then fun _ => (makes_expression goals).outsideHead.then fun _ =>
    (makes_skip rfl).then fun _ => reads_done rfl (by simp)

theorem makes_items {item : Parser Slot} (close : TokenKind) (each : Makes text Anything item phrase) :
    Makes text Anything (items close item) Piece.ofSlots := by
  refine .intro fun first => Reads.bind (Reads.anywhere (reads_repeatWhile
    (fun found : Array Slot => Piece.ofSlots found.toList) #[] fun found => ?_)) fun found => reads_done rfl id
  refine (looks_atClose close).then fun _ => .ite (fun _ => reads_done rfl id) fun _ => ?_
  refine each.then fun next => .ite (fun none => ?_) fun _ => ?_
  · rw [Option.isNone_iff_eq_none.mp none]
    exact reads_done (by simp) (by simp)
  · exact (makes_option rfl).then fun _ => reads_done (by simp) (by simp)

theorem makes_arguments (goals : MakesPhrases text inner) :
    Makes text Anything (arguments inner) fun slots => .token :: Piece.ofSlots slots :=
  .intro fun _ => (makes_skip rfl).then fun _ => (makes_items _ goals.assignment).outsideHead.then fun _ =>
    (makes_skip rfl).then fun _ => reads_done (by simp) (by simp)

theorem makes_arrayLiteral (goals : MakesPhrases text inner) :
    Makes text Anything (arrayLiteral inner) phrase := by
  refine .position fun first => (makes_skip rfl).then fun _ => (Makes.outsideHead (Makes.intro fun outer =>
    reads_repeatWhile (fun result : Array Slot × Bool => Piece.ofSlots result.1.toList) (#[], false)
      ?_)).then fun result => (makes_skip rfl).then fun _ =>
        reads_flagged _ (by simp [Shape.visible, Shape.slots]) (by simp) rfl
  rintro ⟨found, multiLine⟩
  refine (looks_atClose _).then fun _ => .ite (fun _ => reads_done rfl id) fun _ => ?_
  refine looks_lineBreakBefore.then fun _ => reads_at? fun comma => .ite (fun yes => ?_) fun _ => ?_
  · refine reads_hole (fun k at_ => ?_) fun hole => reads_done (by simp) (by simp)
    rw [eq_of_beq (at_.2.trans yes)]
    rfl
  · refine goals.assignment.then fun item => .ite (fun none => ?_) fun _ => ?_
    · rw [Option.isNone_iff_eq_none.mp none]
      exact reads_done (by simp) (by simp)
    · exact (makes_option rfl).then fun _ => reads_done (by simp) (by simp)

/-- The name of a property, if there is one. -/
def nameMade (name : Option Slot) : List Piece := name.elim [] phrase

theorem makes_propertyName : Makes text Anything propertyName nameMade := by
  refine .intro fun first => reads_token fun kind => .ite (fun same => ?_) fun _ => .ite (fun same => ?_)
    fun _ => .ite (fun word => ?_) fun _ => reads_report (keepsErrors_pure none)
  · exact (makes_literal .string _).thenAt same fun _ => reads_done rfl id
  · exact (makes_literal .number _).thenAt same fun _ => reads_done rfl id
  · exact makes_identifier.thenAt word fun _ => reads_done rfl id

theorem makes_objectLiteral (goals : MakesPhrases text inner) :
    Makes text Anything (objectLiteral inner) phrase := by
  refine .position fun first => (makes_skip rfl).then fun _ => Reads.bind (Reads.anywhere (reads_repeatWhile
    (fun result : Array Slot × Bool => .token :: Piece.ofSlots result.1.toList) (#[], false) ?_))
    fun result => looks_lineBreakBefore.then fun _ => (makes_skip rfl).then fun _ =>
      reads_flagged _ (by simp [Shape.visible, Shape.slots]) (by simp) rfl
  rintro ⟨found, multiLine⟩
  refine (looks_atClose _).then fun _ => .ite (fun _ => reads_done rfl id) fun _ => ?_
  refine looks_lineBreakBefore.then fun _ => reads_position fun middle => makes_propertyName.then fun name => ?_
  cases name with
  | none => exact .within (reads_done (by simp [nameMade]) (by simp))
  | some name =>
    refine reads_expect rfl (keepsErrors_pure _) <| goals.assignment.outsideHead.then fun initializer =>
      Reads.bind (reads_node rfl (by simp) rfl) fun entry => (makes_option rfl).then fun _ => ?_
    exact .within (reads_done (by simp) (by simp))

/-! ## Blocks and functions -/

/-- A statement that is read in full goes on to a later token, so no token is skipped behind it. -/
theorem reads_statementTurn (goals : MakesPhrases text inner) (isEnd : TokenKind → Bool)
    (found : Array Slot) : Reads text first Anything (Piece.ofSlots found.toList)
      (statementTurn inner isEnd found) (Leaves text first fun result => Piece.ofSlots result.1.toList) := by
  refine ⟨looks_token.keepsErrors.bind fun kind => keepsErrors_ite (keepsErrors_pure _) <|
    looks_position.keepsErrors.bind fun start => goals.statement.keeps.bind fun next =>
      looks_position.keepsErrors.bind fun _ => looks_token.keepsErrors.bind fun _ => keepsErrors_ite
        (keepsErrors_advance.bind fun _ => keepsErrors_pure _) (keepsErrors_pure _), fun s stretch _ => ?_⟩
  cases ended : isEnd s.lexer.kind || s.lexer.kind == .endOfFile with
  | true =>
    rw [statementTurn_ended found ended]
    exact .inr stretch
  | false =>
    have more : s.lexer.kind ≠ .endOfFile := by simpa using (Bool.or_eq_false_iff.mp ended).2
    rw [statementTurn_apply found ended]
    dsimp only
    rcases goals.statement.makes s stretch.clean trivial with error | made
    · refine .inl ?_
      split
      · exact keepsErrors_advance.reported error
      · exact error
    · have moved : ((inner .statement s).2.lexer.start.offset == s.lexer.start.offset) = false :=
        beq_eq_false_iff_ne.mpr (Nat.ne_of_gt ((made.took (by simp)).beyond more).offset_lt)
      rw [moved, Bool.false_and, if_neg Bool.false_ne_true]
      refine .inr ((stretch.trans made).forget ?_ (by simp))
      cases (inner .statement s).1 with
      | none => simp
      | some id => simp

theorem makes_statementList (goals : MakesPhrases text inner) (isEnd : TokenKind → Bool) :
    Makes text Anything (statementList inner isEnd) Piece.ofSlots := by
  rw [statementList_eq]
  exact .intro fun first => Reads.bind (Reads.anywhere (reads_repeatWhile
    (fun found : Array Slot => Piece.ofSlots found.toList) #[] (reads_statementTurn goals isEnd)))
    fun found => reads_done rfl id

theorem makes_block (goals : MakesPhrases text inner) : Makes text Anything (block inner) phrase :=
  .position fun _ => (makes_skip rfl).then fun _ => (makes_statementList goals _).then fun _ =>
    (makes_skip rfl).then fun _ => reads_node (by simp [Shape.visible, Shape.slots]) (by simp) rfl

theorem makes_bindingIdentifier : Makes text Anything bindingIdentifier phrase := by
  refine .intro fun first => reads_at? fun named => .ite (fun yes => ?_) fun _ =>
    reads_report (keepsErrors_pure none)
  exact makes_identifier.thenFound yes rfl fun _ => reads_done rfl id

/-- The parameters and the body of a function, behind one another. -/
def signatureMade (result : List Slot × Slot) : List Piece :=
  .token :: Piece.ofSlots (result.1 ++ [result.2])

theorem makes_signatureAndBody (goals : MakesPhrases text inner) :
    Makes text Anything (signatureAndBody inner) signatureMade :=
  .intro fun _ => (makes_skip rfl).then fun _ => (makes_items _ makes_bindingIdentifier).then fun _ =>
    (makes_skip rfl).then fun _ => (makes_block goals).insideFunction.then fun _ =>
      reads_done (by simp [signatureMade]) (by simp)

theorem makes_functionExpression (goals : MakesPhrases text inner) :
    Makes text Anything (functionExpression inner) phrase := by
  refine .position fun first => (makes_skip rfl).then fun _ => reads_at? fun named => ?_
  have rest : ∀ name, Reads text first Anything [.token, .slot name] (do
      let made ← signatureAndBody inner
      node (.function true name made.1 made.2) first.lexer.start.offset) (Leaves text first phrase) :=
    fun name => (makes_signatureAndBody goals).then fun result =>
      reads_node (by simp [Shape.visible, Shape.slots, signatureMade]) (by simp) rfl
  refine .ite (fun yes => ?_) fun _ => ?_
  · exact makes_identifier.thenFound yes rfl fun name => (rest name).forget (by simp) (by simp)
  · exact ((rest none).forget (by simp) (by simp)).anywhere

/-! ## Operands -/

theorem makes_primary (goals : MakesPhrases text inner) :
    Makes text Anything (primary inner) phrase := by
  refine .intro fun first => reads_token fun kind => ?_
  split
  · exact makes_identifier.endAt rfl
  · exact (makes_literal .number _).endAt rfl
  · exact (makes_literal .string _).endAt rfl
  · exact makes_pattern.endAt (.inl rfl)
  · exact makes_pattern.endAt (.inr rfl)
  · exact makes_keyword.endAt rfl
  · exact makes_keyword.endAt rfl
  · exact makes_keyword.endAt rfl
  · exact makes_keyword.endAt rfl
  · exact (makes_parenthesized goals).after.anywhere
  · exact (makes_arrayLiteral goals).after.anywhere
  · exact (makes_objectLiteral goals).after.anywhere
  · exact (makes_functionExpression goals).after.anywhere
  · exact reads_report (keepsErrors_pure none)

theorem reads_memberChain (goals : MakesPhrases text inner) (allowCall : Bool) (object : Slot) :
    Reads text first Anything (phrase object)
      (memberChain inner first.lexer.start.offset allowCall object) (Leaves text first phrase) := by
  refine reads_repeatWhile phrase object fun object => reads_token fun kind => ?_
  split
  · refine makes_advance.thenAt rfl fun _ => reads_token fun kind =>
      .ite (fun word => ?_) fun _ => reads_report (keepsErrors_pure _)
    refine makes_identifier.thenAt word fun name => ?_
    exact Reads.bind (reads_node (by simp [Shape.visible, Shape.slots]) (by simp) rfl) fun _ =>
      reads_done rfl id
  · refine makes_advance.thenAt rfl fun _ =>
      (makes_expression goals).outsideHead.then fun argument => (makes_skip rfl).then fun _ => ?_
    exact Reads.bind (reads_node (by simp [Shape.visible, Shape.slots]) (by simp) rfl) fun _ =>
      reads_done rfl id
  · refine .ite (fun _ => (makes_arguments goals).then fun passed => ?_) fun _ => reads_done rfl id
    exact Reads.bind (reads_node (by simp [Shape.visible, Shape.slots]) (by simp) rfl) fun _ =>
      reads_done rfl id
  · exact reads_done rfl id

/-- A phrase, or nothing at all. -/
def optionMade : Slot → List Piece
  | none => []
  | some id => phrase (some id)

theorem makes_construction (goals : MakesPhrases text inner) (fuel : Nat) :
    Makes text Anything (construction inner (fuel + 1)) phrase := by
  have outer : ∀ fuel, Makes text Anything (construction inner fuel) optionMade →
      Makes text Anything (construction inner (fuel + 1)) phrase := by
    intro fuel nested
    refine .position fun first => (makes_skip rfl).then fun _ => reads_position fun middle => ?_
    have finish : ∀ callee, Reads text first Anything [.token, .slot callee] (do
        let passed ← if ← at? .openParen then arguments inner else pure []
        node (.call true callee passed) first.lexer.start.offset) (Leaves text first phrase) := by
      refine fun callee => reads_at? fun _ => .ite (fun _ => ?_) fun _ => ?_
      · exact (makes_arguments goals).then fun passed =>
          reads_node (by simp [Shape.visible, Shape.slots]) (by simp) rfl
      · exact reads_node rfl (by simp) rfl
    have chained : ∀ callee, Reads text middle Anything (optionMade callee) (do
        let callee ← if callee.isSome
          then memberChain inner middle.lexer.start.offset false callee else pure callee
        let passed ← if ← at? .openParen then arguments inner else pure []
        node (.call true callee passed) first.lexer.start.offset)
        fun result s => Stretch text first middle [.token] → Leaves text first phrase result s := by
      intro callee
      cases callee with
      | none => exact .within ((finish none).forget rfl (by simp))
      | some id =>
        exact Reads.bind (reads_memberChain goals false (some id)) fun callee =>
          .within ((finish callee).forget rfl (by simp))
    refine reads_at? fun _ => .ite (fun _ => nested.then chained) fun _ => ?_
    exact (makes_primary goals).then fun callee =>
      (chained callee).forget (by cases callee <;> rfl) (by simp)
  induction fuel with
  | zero => exact outer 0 (.intro fun _ => reads_done rfl id)
  | succ fuel ih => exact outer (fuel + 1) (ih.forget (fun slot => by cases slot <;> rfl) fun slot => by simp)

theorem makes_leftHandSide (goals : MakesPhrases text inner) :
    Makes text Anything (leftHandSide inner) phrase := by
  refine .position fun first => ?_
  have rest : ∀ callee, Reads text first Anything (phrase callee) (do
      if callee.isNone then return callee
      memberChain inner first.lexer.start.offset true callee) (Leaves text first phrase) :=
    fun callee => .ite (fun _ => reads_done rfl id) fun _ => reads_memberChain goals true callee
  refine reads_at? fun _ => .ite (fun _ => ?_) fun _ => (makes_primary goals).then rest
  exact reads_limit ((keepsErrors_pure none).bind fun callee => (rest callee).keeps) fun bound =>
    (makes_construction goals bound).then rest

theorem makes_updated (goals : MakesPhrases text inner) :
    Makes text Anything (updated inner) phrase := by
  refine .position fun first => (makes_leftHandSide goals).then fun operand => reads_token fun operator => ?_
  have rest : Reads text first (fun kind => Anything kind ∧ kind = operator) (phrase operand) (do
      if operand.isSome && (operator == .plusPlus || operator == .minusMinus)
          && !(← lineBreakBefore) then
        advance
        node (.unary true operator operand) first.lexer.start.offset
      else return operand) (Leaves text first phrase) := by
    refine looks_lineBreakBefore.then fun line => .ite (fun yes => ?_) fun _ => reads_done rfl id
    simp only [Bool.and_eq_true, Bool.or_eq_true, beq_iff_eq] at yes
    refine makes_advance.andThen (fun k at_ => ?_) fun _ => reads_node rfl (by simp) rfl
    rw [at_.2]
    rcases yes.1.2 with rfl | rfl <;> rfl
  exact rest

theorem makes_operand (goals : MakesPhrases text inner) :
    Makes text Anything (operand inner) phrase :=
  .intro fun _ => reads_token fun _ => .ite
    (fun yes => (goals.prefixed.fits fun k at_ => by rwa [at_.2]).after) fun _ =>
      (makes_updated goals).after.anywhere

theorem isShown_of_isPrefixOperator {kind : TokenKind} (operator : isPrefixOperator kind = true) :
    kind.isShown = false := by
  cases kind <;> first | rfl | cases operator

theorem makes_prefixedOperand (goals : MakesPhrases text inner) :
    Makes text (isPrefixOperator · = true) (prefixedOperand inner) phrase := by
  refine .position fun first => reads_token fun operator => makes_advance.andThen
    (fun k at_ => isShown_of_isPrefixOperator at_.1) fun _ => (makes_operand goals).then fun inside => ?_
  have rest : Reads text first Anything [.token, .token, .slot inside]
      (node (.unary false operator inside) first.lexer.start.offset) (Leaves text first phrase) :=
    reads_node rfl (by simp) rfl
  exact .ite (fun _ => reads_report rest.keeps) fun _ => rest

/-! ## Operators -/

theorem isShown_of_binaryPrecedence? {kind : TokenKind} {own : Nat}
    (operator : kind.binaryPrecedence? = some own) : kind.isShown = false := by
  cases kind <;> first | rfl | cases operator

theorem makes_binary (goals : MakesPhrases text inner) (fuel least : Nat) :
    Makes text Anything (binary inner fuel least) phrase := by
  induction fuel generalizing least with
  | zero => exact makes_operand goals
  | succ fuel ih =>
    refine .position fun first => (makes_operand goals).then fun left => looks_inHead.then fun inHead =>
      looks_limit.then fun bound => reads_repeatStep phrase (fun left => ?_) bound left
    refine reads_token fun operator => ?_
    split
    · exact reads_done rfl id
    · rename_i own found
      refine .ite (fun _ => reads_done rfl id) fun _ => makes_advance.andThen
        (fun k at_ => at_.2 ▸ isShown_of_binaryPrecedence? found) fun _ => (ih _).then fun right => ?_
      have rest : Reads text first Anything [.token, .slot left, .token, .token, .slot right] (do
          return (← node (.binary left operator right) first.lexer.start.offset, true))
          (Leaves text first fun result => phrase result.1) :=
        Reads.bind (reads_node rfl (by simp) rfl) fun _ => reads_done rfl id
      exact .ite (fun _ => reads_report rest.keeps) fun _ => rest

theorem makes_conditional (goals : MakesPhrases text inner) :
    Makes text Anything (conditional inner) phrase := by
  refine .position fun first => looks_limit.then fun bound => (makes_binary goals bound _).then
    fun condition => reads_at? fun question => .ite (fun _ => reads_done rfl id) fun other => ?_
  refine makes_advance.andThen (fun k at_ => ?_) fun _ => goals.assignment.outsideHead.then fun whenTrue =>
    (makes_skip rfl).then fun _ => goals.assignment.then fun whenFalse =>
      reads_node (by simp [Shape.visible, Shape.slots]) (by simp) rfl
  have there : question = true := by simpa using (Bool.or_eq_false_iff.mp (Bool.eq_false_of_not_eq_true other)).2
  rw [eq_of_beq (at_.2.trans there)]
  rfl

theorem isShown_of_isAssignment {kind : TokenKind} (operator : kind.isAssignment = true) :
    kind.isShown = false := by
  cases kind <;> first | rfl | cases operator

theorem makes_assignment (goals : MakesPhrases text inner) :
    Makes text Anything (assignment inner) phrase := by
  refine .position fun first => (makes_conditional goals).then fun left => reads_token fun operator =>
    .ite (fun both => ?_) fun _ => reads_done rfl id
  have assigns := (Bool.and_eq_true_iff.mp both).1
  have rest : Reads text first (fun kind => Anything kind ∧ kind = operator) (phrase left) (do
      advance
      let right ← inner .assignment
      node (.binary left operator right) first.lexer.start.offset) (Leaves text first phrase) :=
    makes_advance.andThen (fun k at_ => at_.2 ▸ isShown_of_isAssignment assigns) fun _ =>
      goals.assignment.then fun right => reads_node rfl (by simp) rfl
  exact (looks_satisfies left isAssignable).then fun _ =>
    .ite (fun _ => rest) fun _ => reads_report rest.keeps

end Expressions

/-! ## Statements -/

section Statements
variable {text : List Char} {inner : Grammar} {first : ParserState}

theorem makes_expressionStatement (goals : MakesPhrases text inner) :
    Makes text Anything (expressionStatement inner) phrase :=
  .position fun _ => (makes_expression goals).then fun inside => .ite
    (fun none => by
      rw [Option.isNone_iff_eq_none.mp none]
      exact reads_done rfl id)
    fun _ => makes_endStatement.then fun _ => reads_node rfl (by simp) rfl

theorem makes_labeledStatement (goals : MakesPhrases text inner) :
    Makes text (· = .identifier) (labeledStatement inner) phrase :=
  .position fun _ => makes_identifier.andThen (fun k at_ => by rw [at_]; rfl) fun _ =>
    (makes_skip rfl).then fun _ => goals.statement.then fun _ => reads_node rfl (by simp) rfl

theorem makes_variableDeclarations (goals : MakesPhrases text inner) :
    Makes text IsMark (variableDeclarations inner) fun result => .token :: Piece.ofSlots result.2 := by
  refine .intro fun first => looks_token.then fun keyword => makes_advance.andThen (fun _ => id) fun _ => ?_
  refine Reads.bind (reads_repeatWhile
    (fun found : Array Slot => .token :: Piece.ofSlots found.toList) #[] fun found => ?_)
    fun found => reads_done rfl id
  refine reads_position fun middle => makes_bindingIdentifier.then fun name =>
    (makes_accept rfl).then fun equals => ?_
  have rest : ∀ initializer, Reads text middle Anything [.token, .slot name, .slot initializer] (do
      let entry ← node (.declaration name initializer) middle.lexer.start.offset
      return (found.push entry, ← accept .comma))
      fun result s => Stretch text first middle (.token :: Piece.ofSlots found.toList) →
        Leaves text first (fun result => .token :: Piece.ofSlots result.1.toList) result s :=
    fun initializer => Reads.bind (reads_node rfl (by simp) rfl) fun entry => (makes_option rfl).then fun _ =>
      .within (reads_done (by simp) (by simp))
  refine .ite (fun yes => goals.assignment.then fun initializer => ?_) fun no => ?_
  · exact (rest initializer).forget (by simp [yes]) (by simp)
  · exact (rest none).forget (by simp [no]) (by simp)

theorem makes_variableStatement (goals : MakesPhrases text inner) :
    Makes text IsMark (variableStatement inner) phrase :=
  .position fun _ => (makes_variableDeclarations goals).andThen (fun _ => id) fun _ =>
    makes_endStatement.then fun _ => reads_flagged _ (by simp [Shape.visible, Shape.slots]) (by simp) rfl

theorem makes_functionDeclaration (goals : MakesPhrases text inner) :
    Makes text Anything (functionDeclaration inner) phrase :=
  .position fun _ => (makes_skip rfl).then fun _ => makes_bindingIdentifier.then fun _ =>
    (makes_signatureAndBody goals).then fun _ =>
      reads_node (by simp [Shape.visible, Shape.slots, signatureMade]) (by simp) rfl

theorem makes_conditionalStatement (goals : MakesPhrases text inner) :
    Makes text Anything (conditionalStatement inner) phrase := by
  refine .position fun first => (makes_skip rfl).then fun _ => (makes_parenthesized goals).then fun test =>
    goals.statement.then fun thenBody => (makes_accept rfl).then fun more => ?_
  have rest : ∀ elseBody, Reads text first Anything
      [.token, .slot test, .slot thenBody, .slot elseBody]
      (node (.conditionalStatement test thenBody elseBody) first.lexer.start.offset)
      (Leaves text first phrase) := fun elseBody => reads_node rfl (by simp) rfl
  refine .ite (fun yes => goals.statement.then fun elseBody => ?_) fun no => ?_
  · exact (rest elseBody).forget (by simp [yes]) (by simp)
  · exact (rest none).forget (by simp [no]) (by simp)

theorem makes_loopInitializer (goals : MakesPhrases text inner) :
    Makes text Anything (loopInitializer inner) fun slot => [.slot slot] := by
  have declaration : Makes text IsMark (do
      let start ← position
      let declared ← variableDeclarations inner
      flagged (.declarationList false declared.2) declared.1 start) phrase :=
    .position fun _ => (makes_variableDeclarations goals).andThen (fun _ => id) fun _ =>
      reads_flagged _ (by simp [Shape.visible, Shape.slots]) (by simp) rfl
  have declared : Makes text IsMark _ fun slot : Slot => [.slot slot] :=
    declaration.forget (fun _ => rfl) (by simp)
  have expressed : Makes text Anything (expression inner) fun slot => [.slot slot] :=
    (makes_expression goals).forget (fun _ => rfl) (by simp)
  refine .intro fun first => reads_token fun kind => ?_
  split
  · exact declared.endAt rfl
  · exact declared.endAt rfl
  · exact declared.endAt rfl
  · exact reads_done rfl (by simp)
  · exact expressed.after.anywhere

/-- A part of the head of a loop, which is missing where its end stands. -/
theorem reads_headPart (goals : MakesPhrases text inner) (close : TokenKind) {given : List Piece}
    {next : Slot → Parser Slot}
    (rest : ∀ part, Reads text first Anything (given ++ [.slot part]) (next part) (Leaves text first phrase)) :
    Reads text first Anything given (do
      let part ← if ← at? close then pure none else outsideHead (expression inner)
      next part) (Leaves text first phrase) := by
  refine reads_at? fun _ => .ite (fun _ => ?_) fun _ => (makes_expression goals).outsideHead.then fun part => ?_
  · exact ((rest none).forget (by simp) (by simp)).anywhere
  · exact (rest part).forget (by simp) (by simp +contextual)

theorem makes_forStatement (goals : MakesPhrases text inner) :
    Makes text Anything (forStatement inner) phrase := by
  refine .position fun first => (makes_skip rfl).then fun _ => (makes_skip rfl).then fun _ =>
    (makes_loopInitializer goals).insideHead.then fun initializer => ?_
  have rest : ∀ isForIn : Bool, Reads text first Anything [.token, .slot initializer] (do
      if isForIn then
        let object ← outsideHead (expression inner)
        discard (expect .closeParen)
        let body ← inner .statement
        node (.forIn initializer object body) first.lexer.start.offset
      else
        discard (expect .semicolon)
        let test ← if ← at? .semicolon then pure none else outsideHead (expression inner)
        discard (expect .semicolon)
        let incrementor ← if ← at? .closeParen then pure none else outsideHead (expression inner)
        discard (expect .closeParen)
        let body ← inner .statement
        node (.loop .forLoop initializer test incrementor body) first.lexer.start.offset)
      (Leaves text first phrase) := by
    refine fun isForIn => .ite (fun _ => ?_) fun _ => ?_
    · exact (makes_expression goals).outsideHead.then fun object => (makes_skip rfl).then fun _ =>
        goals.statement.then fun body => reads_node rfl (by simp) rfl
    · exact (makes_skip rfl).then fun _ => reads_headPart goals _ fun test => (makes_skip rfl).then fun _ =>
        reads_headPart goals _ fun incrementor => (makes_skip rfl).then fun _ =>
          goals.statement.then fun body => reads_node rfl (by simp) rfl
  refine .ite (fun _ => (makes_accept rfl).then fun isForIn => (rest isForIn).forget ?_ (by simp)) fun _ =>
    (rest false).forget (by simp) (by simp)
  cases isForIn <;> simp

theorem makes_whileStatement (goals : MakesPhrases text inner) :
    Makes text Anything (whileStatement inner) phrase :=
  .position fun _ => (makes_skip rfl).then fun _ => (makes_parenthesized goals).then fun _ =>
    goals.statement.then fun _ => reads_node rfl (by simp) rfl

theorem makes_doStatement (goals : MakesPhrases text inner) :
    Makes text Anything (doStatement inner) phrase :=
  .position fun _ => (makes_skip rfl).then fun _ => goals.statement.then fun _ =>
    (makes_skip rfl).then fun _ => (makes_parenthesized goals).then fun _ =>
      (makes_option rfl).discarded.then fun _ => reads_node rfl (by simp) rfl

theorem reads_clauseBody (goals : MakesPhrases text inner) (isDefault : Bool) (label : Slot)
    {given : List Piece} (slots : Piece.slots given = [label]) :
    Reads text first Anything given (clauseBody inner isDefault label first.lexer.start.offset)
      (Leaves text first phrase) :=
  (makes_skip rfl).then fun _ => (makes_statementList goals _).then fun _ =>
    reads_node (by simp [Shape.visible, Shape.slots, slots]) (by simp) rfl

theorem makes_switchStatement (goals : MakesPhrases text inner) :
    Makes text Anything (switchStatement inner) phrase := by
  refine .position fun first => (makes_skip rfl).then fun _ => (makes_parenthesized goals).then
    fun discriminant => (makes_skip rfl).then fun _ => ?_
  refine Reads.bind (Reads.forget (reads_repeatWhile (fun clauses : Array Slot =>
    .token :: .slot discriminant :: Piece.ofSlots clauses.toList) #[] fun clauses => ?_) ?_ ?_)
    fun clauses => (makes_skip rfl).then fun _ => reads_node (by simp [Shape.visible, Shape.slots]) (by simp) rfl
  · refine (looks_atClose _).then fun _ => .ite (fun _ => reads_done rfl id) fun _ =>
      reads_position fun middle => reads_token fun kind => ?_
    have ends : ∀ clause, Reads text middle Anything (phrase clause) (pure (clauses.push clause, true))
        fun result s => Stretch text first middle
          (.token :: .slot discriminant :: Piece.ofSlots clauses.toList) →
            Leaves text first (fun result : Array Slot × Bool =>
              .token :: .slot discriminant :: Piece.ofSlots result.1.toList) result s :=
      fun clause => .within (reads_done (by simp) (by simp))
    split
    · exact makes_advance.thenAt rfl fun _ =>
        (makes_expression goals).outsideHead.then fun label =>
          Reads.bind (reads_clauseBody goals false label (by simp)) ends
    · have body : Reads text middle Anything [.token, .slot none]
          (clauseBody inner true none middle.lexer.start.offset) (Leaves text middle phrase) :=
        reads_clauseBody goals true none rfl
      exact makes_advance.thenAt rfl fun _ => Reads.bind (body.forget rfl (by simp)) ends
    · exact reads_report (keepsErrors_advance.bind fun _ => keepsErrors_pure _)
  · simp
  · simp

theorem makes_jumpStatement (kind : JumpKind) : Makes text IsMark (jumpStatement kind) phrase := by
  refine .position fun first => makes_advance.andThen (fun _ => id) fun _ => reads_at? fun named =>
    looks_lineBreakBefore.then fun line => ?_
  have rest : ∀ label, Reads text first Anything [.token, .slot label] (do
      endStatement
      node (.jump kind label) first.lexer.start.offset) (Leaves text first phrase) := fun label =>
    makes_endStatement.then fun _ => reads_node rfl (by simp) rfl
  refine .ite (fun both => ?_) fun _ => ((rest none).forget (by simp) (by simp)).anywhere
  exact makes_identifier.thenFound (Bool.and_eq_true_iff.mp both).1 rfl fun label =>
    (rest label).forget rfl (by simp)

theorem makes_returnStatement (goals : MakesPhrases text inner) :
    Makes text IsMark (returnStatement inner) phrase := by
  refine .position fun first => looks_inFunction.then fun inside => ?_
  have ends : ∀ result, Reads text first Anything [.token, .slot result] (do
      endStatement
      node (.exit .returns result) first.lexer.start.offset) (Leaves text first phrase) := fun result =>
    makes_endStatement.then fun _ => reads_node rfl (by simp) rfl
  have rest : Reads text first IsMark [] (do
      advance
      let result ← if ← canEndStatement then pure none else expression inner
      endStatement
      node (.exit .returns result) first.lexer.start.offset) (Leaves text first phrase) :=
    makes_advance.andThen (fun _ => id) fun _ => looks_canEndStatement.then fun _ => .ite
      (fun _ => (ends none).forget rfl (by simp)) fun _ => (makes_expression goals).then fun result =>
        (ends result).forget rfl (by simp)
  exact .ite (fun _ => rest) fun _ => reads_report rest.keeps

theorem makes_throwStatement (goals : MakesPhrases text inner) :
    Makes text IsMark (throwStatement inner) phrase := by
  refine .position fun first => makes_advance.andThen (fun _ => id) fun _ =>
    looks_lineBreakBefore.then fun line => ?_
  have rest : Reads text first Anything [.token] (do
      let thrown ← expression inner
      endStatement
      node (.exit .throws thrown) first.lexer.start.offset) (Leaves text first phrase) :=
    (makes_expression goals).then fun thrown => makes_endStatement.then fun _ =>
      reads_node rfl (by simp) rfl
  exact .ite (fun _ => reads_report rest.keeps) fun _ => rest

theorem makes_catchClause (goals : MakesPhrases text inner) :
    Makes text IsMark (catchClause inner) phrase :=
  .position fun _ => makes_advance.andThen (fun _ => id) fun _ => (makes_skip rfl).then fun _ =>
    makes_bindingIdentifier.then fun _ => (makes_skip rfl).then fun _ => (makes_block goals).then fun _ =>
      reads_node rfl (by simp) rfl

theorem makes_tryStatement (goals : MakesPhrases text inner) :
    Makes text Anything (tryStatement inner) phrase := by
  refine .position fun first => (makes_skip rfl).then fun _ => (makes_block goals).then fun body =>
    reads_at? fun caught => ?_
  have ends : ∀ handler finalizer, Reads text first Anything
      [.token, .slot body, .slot handler, .slot finalizer] (do
        if handler.isNone && finalizer.isNone then report .handlerExpected
        node (.tryStatement body handler finalizer) first.lexer.start.offset)
      (Leaves text first phrase) := by
    intro handler finalizer
    have made : Reads text first Anything [.token, .slot body, .slot handler, .slot finalizer]
        (node (.tryStatement body handler finalizer) first.lexer.start.offset) (Leaves text first phrase) :=
      reads_node rfl (by simp) rfl
    exact .ite (fun _ => reads_report made.keeps) fun _ => made
  have rest : ∀ handler, Reads text first Anything [.token, .slot body, .slot handler] (do
      let finalizer ← if ← accept .finallyKeyword then block inner else pure none
      if handler.isNone && finalizer.isNone then report .handlerExpected
      node (.tryStatement body handler finalizer) first.lexer.start.offset)
      (Leaves text first phrase) := by
    refine fun handler => (makes_accept rfl).then fun more => .ite
      (fun yes => (makes_block goals).then fun finalizer => ?_) fun no => ?_
    · exact (ends handler finalizer).forget (by simp [yes]) (by simp)
    · exact (ends handler none).forget (by simp [no]) (by simp)
  refine .ite (fun yes => (makes_catchClause goals).thenFound yes rfl fun handler => ?_) fun _ => ?_
  · exact (rest handler).forget (by simp) (by simp)
  · exact ((rest none).forget (by simp) (by simp)).anywhere

theorem makes_statement (goals : MakesPhrases text inner) :
    Makes text Anything (statement inner) phrase := by
  have empty : Makes text IsMark (do
      let start ← position
      advance
      node .emptyStatement start) phrase :=
    .position fun _ => makes_advance.andThen (fun _ => id) fun _ => reads_node rfl (by simp) rfl
  have debugger : Makes text IsMark (do
      let start ← position
      advance
      endStatement
      node .debuggerStatement start) phrase :=
    .position fun _ => makes_advance.andThen (fun _ => id) fun _ => makes_endStatement.then fun _ =>
      reads_node rfl (by simp) rfl
  refine .intro fun first => reads_token fun kind => ?_
  split
  · exact (makes_block goals).after.anywhere
  · exact empty.endAt rfl
  · exact (makes_variableStatement goals).endAt rfl
  · exact (makes_variableStatement goals).endAt rfl
  · exact (makes_variableStatement goals).endAt rfl
  · exact (makes_functionDeclaration goals).after.anywhere
  · exact (makes_conditionalStatement goals).after.anywhere
  · exact (makes_forStatement goals).after.anywhere
  · exact (makes_whileStatement goals).after.anywhere
  · exact (makes_doStatement goals).after.anywhere
  · exact (makes_switchStatement goals).after.anywhere
  · exact (makes_jumpStatement _).endAt rfl
  · exact (makes_jumpStatement _).endAt rfl
  · exact (makes_returnStatement goals).endAt rfl
  · exact (makes_throwStatement goals).endAt rfl
  · exact (makes_tryStatement goals).after.anywhere
  · exact debugger.endAt rfl
  · exact looks_peek.then fun _ => .ite (fun _ => (makes_labeledStatement goals).endAt rfl) fun _ =>
      (makes_expressionStatement goals).after.anywhere
  · exact reads_report (keepsErrors_pure _)
  · exact reads_report (keepsErrors_pure _)
  · exact reads_report (keepsErrors_pure _)
  · exact reads_report (keepsErrors_pure _)
  · exact reads_report (keepsErrors_pure _)
  · exact reads_report (keepsErrors_pure _)
  · exact (makes_expressionStatement goals).after.anywhere

/-- However deeply phrases may nest, each of them is read in full. -/
theorem grammar_makesPhrases (text : List Char) (depth : Nat) : MakesPhrases text (grammar depth) := by
  induction depth with
  | zero =>
    have none : ∀ goal {here : TokenKind → Prop}, Makes text here (grammar 0 goal) phrase := fun goal _ =>
      .intro fun first => reads_report (keepsErrors_pure _)
    exact ⟨none .statement, none .assignment, none .prefixed⟩
  | succ depth ih => exact ⟨makes_statement ih, makes_assignment ih, makes_prefixedOperand ih⟩

end Statements

end Parser

end Unflatten
