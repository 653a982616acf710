import Unflatten.Proofs.Parser.Turning

/-! # Every program that is read is a tree

Each part of the grammar makes one tree, in the role that its place asks for.  The grammar of a
depth is built from that of the depth below, and a file is made around its statements: whatever
errors there are, the program stands in its store. -/

set_option autoImplicit false

namespace Unflatten

open Store

namespace Parser

/-- What a goal is parsed for. -/
def goalRole : Goal → Role
  | .statement => .body
  | .assignment | .prefixed => .quiet

/-- A grammar makes trees in the roles of its goals. -/
def MakesGoals (inner : Grammar) : Prop :=
  ∀ goal, Turns [] (inner goal) fun slot => [(slot, goalRole goal)]

/-- Some slots in one role. -/
def parts (role : Role) (slots : List Slot) : List Part := slots.map fun slot => (slot, role)

section Parts
variable {role : Role} {slots : List Slot}

theorem map_fst_parts : (parts role slots).map Prod.fst = slots := by
  rw [parts, List.map_map]
  exact List.map_id _

theorem mem_parts {slot : Slot} (member : slot ∈ slots) : (slot, role) ∈ parts role slots :=
  List.mem_map_of_mem member

theorem parts_push (found : Array Slot) (slot : Slot) :
    parts role found.toList ++ [(slot, role)] = parts role (found.push slot).toList := by
  rw [Array.toList_push, parts, parts, List.map_append]
  rfl

end Parts

section Expressions
variable {inner : Grammar}

theorem MakesGoals.statement (goals : MakesGoals inner) :
    Turns [] (inner .statement) fun slot => [(slot, .body)] := goals .statement

theorem MakesGoals.assignment (goals : MakesGoals inner) :
    Turns [] (inner .assignment) fun slot => [(slot, .quiet)] := goals .assignment

theorem MakesGoals.prefixed (goals : MakesGoals inner) :
    Turns [] (inner .prefixed) fun slot => [(slot, .quiet)] := goals .prefixed

theorem turns_identifier : Turns [] identifier fun slot => [(slot, .quiet)] :=
  isSilent_position.andThen fun _ => isSilent_tokenEnd.andThen fun _ =>
    isSilent_value.andThen fun _ => isSilent_advance.andThen fun _ =>
      Suits.turns_nodeAt (.of_other rfl (by simp) (by simp [Shape.quietSlots])
        (by simp [Shape.bodySlots]) rfl) _ _ _

theorem turns_bindingIdentifier : Turns [] bindingIdentifier fun slot => [(slot, .quiet)] :=
  (isSilent_at? _).andThen fun _ => .ite (fun _ => turns_identifier) fun _ =>
    (isSilent_report _).andThen fun _ => turns_none _

theorem turns_literal (kind : LiteralKind) (read : String → Option Float) :
    Turns [] (literal kind read) fun slot => [(slot, .quiet)] := by
  refine isSilent_position.andThen fun _ => isSilent_value.andThen fun text =>
    isSilent_tokenEnd.andThen fun _ => isSilent_advance.andThen fun _ => ?_
  have suits : Suits (.literal kind text (read text)) [] :=
    .of_other rfl (by simp) (by simp [Shape.quietSlots]) (by simp [Shape.bodySlots]) rfl
  cases kind <;> exact suits.turns_nodeAt _ _ _

theorem suits_elements (kind : ListKind) (slots : List Slot)
    (full : (Shape.elements kind slots).isHollow = false) :
    Suits (.elements kind slots) (parts .quiet slots) :=
  .of_other map_fst_parts.symm (by simp) (fun _ => mem_parts) (by simp [Shape.bodySlots]) full

theorem isHollow_sequence {items : List Slot} (some : items ≠ []) :
    (Shape.elements .sequence items).isHollow = false := by
  cases items with
  | nil => exact absurd rfl some
  | cons => rfl

theorem turns_expression (goals : MakesGoals inner) :
    Turns [] (expression inner) fun slot => [(slot, .quiet)] := by
  refine isSilent_position.andThen fun start => goals.assignment.andThen fun first => ?_
  refine (isSilent_at? _).andThen fun _ => .ite (fun _ => turns_pure rfl) fun _ => ?_
  refine Turns.bindKnowing (turns_repeatWhile (fun items : Array Slot => parts .quiet items.toList)
    #[first] fun items => ?_) (answers_repeatWhile (fun items some => ?_) (List.cons_ne_nil first []))
    fun items some => (suits_elements .sequence _ (isHollow_sequence some)).turns_node start
  refine (isSilent_accept _).andThen fun _ => .ite (fun _ => ?_) fun _ => turns_pure rfl
  refine goals.assignment.andThen fun item => .ite (fun _ => ?_) fun _ => ?_
  · exact (isSilent_report _).andThen fun _ => (turns_pure rfl).withoutLast
  · exact turns_pure (parts_push items item)
  · refine .bind fun _ => .ite (.bind fun item => .ite (.bind fun _ => .pure some) (.pure ?_)) (.pure some)
    rw [Array.toList_push]
    exact List.append_ne_nil_of_right_ne_nil _ (List.cons_ne_nil item [])

theorem turns_parenthesized (goals : MakesGoals inner) :
    Turns [] (parenthesized inner) fun slot => [(slot, .quiet)] :=
  (isSilent_skip _).andThen fun _ => (turns_expression goals).outsideHead.andThen fun _ =>
    (isSilent_skip _).andThen fun _ => turns_pure rfl

theorem turns_items {role : Role} {item : Parser Slot} (close : TokenKind)
    (each : Turns [] item fun slot => [(slot, role)]) :
    Turns [] (items close item) fun slots => parts role slots := by
  refine Turns.bind (turns_repeatWhile (fun found : Array Slot => parts role found.toList) #[] fun found => ?_)
    fun found => turns_pure rfl
  refine (isSilent_atClose close).andThen fun _ => .ite (fun _ => turns_pure rfl) fun _ => ?_
  refine each.andThen fun next => .ite (fun _ => (turns_pure rfl).withoutLast) fun _ => ?_
  exact (isSilent_accept _).andThen fun _ => turns_pure (parts_push found next)

theorem turns_arguments (goals : MakesGoals inner) :
    Turns [] (arguments inner) fun slots => parts .quiet slots :=
  (isSilent_skip _).andThen fun _ => (turns_items _ goals.assignment).outsideHead.andThen
    fun _ => (isSilent_skip _).andThen fun _ => turns_pure rfl

theorem turns_arrayLiteral (goals : MakesGoals inner) :
    Turns [] (arrayLiteral inner) fun slot => [(slot, .quiet)] := by
  refine isSilent_position.andThen fun start => (isSilent_skip _).andThen fun _ => ?_
  refine Turns.bind (.outsideHead (turns_repeatWhile
    (fun result : Array Slot × Bool => parts .quiet result.1.toList) (#[], false) ?_))
    fun result => (isSilent_skip _).andThen fun _ => (suits_elements .array _ rfl).turns_flagged _ start
  rintro ⟨found, multiLine⟩
  refine (isSilent_atClose _).andThen fun _ => .ite (fun _ => turns_pure rfl) fun _ => ?_
  refine isSilent_lineBreakBefore.andThen fun _ => (isSilent_at? _).andThen fun _ =>
    .ite (fun _ => ?_) fun _ => ?_
  · have hole : ∀ place, Turns [] (nodeAt .omitted Flags.none place place) fun slot =>
        [(slot, Role.quiet)] := fun place => Suits.turns_nodeAt (.of_other rfl (by simp)
      (by simp [Shape.quietSlots]) (by simp [Shape.bodySlots]) rfl) _ _ _
    exact isSilent_position.andThen fun place => (hole place).andThen fun hole =>
      isSilent_advance.andThen fun _ => turns_pure (parts_push found hole)
  · refine goals.assignment.andThen fun item => .ite (fun _ => (turns_pure rfl).withoutLast)
      fun _ => ?_
    exact (isSilent_accept _).andThen fun _ => turns_pure (parts_push found item)

/-- The name of a property, if there is one. -/
def namePart (name : Option Slot) : List Part := name.toList.map fun slot => (slot, .quiet)

theorem turns_propertyName : Turns [] propertyName namePart := by
  refine isSilent_token.andThen fun _ => .ite (fun _ => ?_) fun _ => .ite (fun _ => ?_) fun _ =>
    .ite (fun _ => ?_) fun _ => ?_
  · exact (turns_literal _ _).bind fun _ => turns_pure rfl
  · exact (turns_literal _ _).bind fun _ => turns_pure rfl
  · exact turns_identifier.bind fun _ => turns_pure rfl
  · exact (isSilent_report _).andThen fun _ => turns_pure rfl

theorem turns_objectLiteral (goals : MakesGoals inner) :
    Turns [] (objectLiteral inner) fun slot => [(slot, .quiet)] := by
  refine isSilent_position.andThen fun start => (isSilent_skip _).andThen fun _ => ?_
  refine Turns.bind (turns_repeatWhile
    (fun result : Array Slot × Bool => parts .quiet result.1.toList) (#[], false) ?_)
    fun result => isSilent_lineBreakBefore.andThen fun _ => (isSilent_skip _).andThen fun _ =>
      (suits_elements .object _ rfl).turns_flagged _ start
  rintro ⟨found, multiLine⟩
  refine (isSilent_atClose _).andThen fun _ => .ite (fun _ => turns_pure rfl) fun _ => ?_
  refine isSilent_lineBreakBefore.andThen fun _ => isSilent_position.andThen fun begin =>
    turns_propertyName.andThen fun name => ?_
  cases name with
  | none => exact turns_pure (List.append_nil _)
  | some name =>
    refine (isSilent_expect _).andThen fun _ => .ite (fun _ => ?_) fun _ =>
      (turns_pure rfl).withoutLast
    refine goals.assignment.outsideHead.andThen fun initializer => ?_
    have suits : Suits (.propertyAssignment name initializer)
        [(name, .quiet), (initializer, .quiet)] :=
      .of_other rfl (by simp) (by simp [Shape.quietSlots]) (by simp [Shape.bodySlots]) rfl
    rw [List.append_assoc]
    refine Turns.onto (suits.turns_node begin) fun entry => ?_
    exact (isSilent_accept _).andThen fun _ => turns_pure (parts_push found entry)

/-! ## Blocks and functions -/

theorem turns_statementList (goals : MakesGoals inner) (isEnd : TokenKind → Bool) :
    Turns [] (statementList inner isEnd) fun slots => parts .body slots := by
  refine Turns.bind (turns_repeatWhile (fun found : Array Slot => parts .body found.toList) #[]
    fun found => ?_) fun found => turns_pure rfl
  refine isSilent_token.andThen fun kind => .ite (fun _ => turns_pure rfl) fun _ => ?_
  refine isSilent_position.andThen fun start => goals.statement.andThen fun next => ?_
  refine isSilent_position.andThen fun _ => isSilent_token.andThen fun _ => ?_
  have pushed : ∀ more : Bool, Turns (parts .body found.toList ++ [(next, .body)])
      (pure (if next.isSome then found.push next else found, more) : Parser (Array Slot × Bool))
      fun result => parts .body result.1.toList := by
    intro more
    split
    · exact turns_pure (parts_push found next)
    · exact (turns_pure rfl).withoutLast
  exact .ite (fun _ => isSilent_advance.andThen fun _ => pushed true) fun _ => pushed true

theorem suits_block (statements : List Slot) :
    Suits (.block statements) (parts .body statements) :=
  .of_other map_fst_parts.symm (by simp) (by simp [Shape.quietSlots]) (by simp [Shape.bodySlots]) rfl

theorem turns_block (goals : MakesGoals inner) :
    Turns [] (block inner) fun slot => [(slot, .body)] := by
  refine isSilent_position.andThen fun start => (isSilent_skip _).andThen fun _ => ?_
  refine (turns_statementList goals _).bind fun statements => (isSilent_skip _).andThen fun _ => ?_
  exact (suits_block statements).turns_node start

theorem turns_signatureAndBody (goals : MakesGoals inner) :
    Turns [] (signatureAndBody inner) fun result =>
      parts .quiet result.1 ++ [(result.2, .body)] := by
  refine (isSilent_skip _).andThen fun _ => (turns_items _ turns_bindingIdentifier).bind
    fun parameters => (isSilent_skip _).andThen fun _ => ?_
  exact (turns_block goals).insideFunction.andThen fun body => turns_pure rfl

theorem suits_function (isExpression : Bool) (name : Slot) (parameters : List Slot) (body : Slot) :
    Suits (.function isExpression name parameters body)
      ([(name, .quiet)] ++ (parts .quiet parameters ++ [(body, .body)])) := by
  refine .of_other ?_ (by simp) (by simp [Shape.quietSlots]) (by simp [Shape.bodySlots]) rfl
  rw [List.map_append, List.map_append, map_fst_parts]
  rfl

theorem turns_functionExpression (goals : MakesGoals inner) :
    Turns [] (functionExpression inner) fun slot => [(slot, .quiet)] := by
  refine isSilent_position.andThen fun start => (isSilent_skip _).andThen fun _ =>
    (isSilent_at? _).andThen fun _ => ?_
  have rest : ∀ name, Turns [(name, .quiet)] (do
      let result ← signatureAndBody inner
      node (.function true name result.1 result.2) start) fun slot => [(slot, .quiet)] := fun name =>
    (turns_signatureAndBody goals).andThen fun result =>
      (suits_function true name result.1 result.2).turns_node start
  exact .ite (fun _ => turns_identifier.andThen rest) fun _ => (turns_none _).andThen rest

/-! ## Operands -/

theorem turns_primary (goals : MakesGoals inner) :
    Turns [] (primary inner) fun slot => [(slot, .quiet)] := by
  have pattern : Turns [] (do
      rescanSlash
      let start ← position
      let text ← value
      let stop ← tokenEnd
      advance
      nodeAt (.literal .pattern text none) Flags.none start stop) fun slot => [(slot, .quiet)] :=
    isSilent_rescanSlash.andThen fun _ => isSilent_position.andThen fun _ =>
      isSilent_value.andThen fun _ => isSilent_tokenEnd.andThen fun _ =>
        isSilent_advance.andThen fun _ => Suits.turns_nodeAt (.of_other rfl (by simp)
          (by simp [Shape.quietSlots]) (by simp [Shape.bodySlots]) rfl) _ _ _
  have keyword : Turns [] (do
      let start ← position
      let kind ← token
      let stop ← tokenEnd
      advance
      nodeAt (.token kind) Flags.none start stop) fun slot => [(slot, .quiet)] :=
    isSilent_position.andThen fun _ => isSilent_token.andThen fun _ =>
      isSilent_tokenEnd.andThen fun _ => isSilent_advance.andThen fun _ =>
        Suits.turns_nodeAt (.of_other rfl (by simp) (by simp [Shape.quietSlots])
          (by simp [Shape.bodySlots]) rfl) _ _ _
  refine isSilent_token.andThen fun kind => ?_
  split
  · exact turns_identifier
  · exact turns_literal _ _
  · exact turns_literal _ _
  · exact pattern
  · exact pattern
  · exact keyword
  · exact keyword
  · exact keyword
  · exact keyword
  · exact turns_parenthesized goals
  · exact turns_arrayLiteral goals
  · exact turns_objectLiteral goals
  · exact turns_functionExpression goals
  · exact (isSilent_report _).andThen fun _ => turns_none _

theorem suits_access (isElement : Bool) (object property : Slot) :
    Suits (.access isElement object property) [(object, .quiet), (property, .quiet)] :=
  .of_other rfl (by simp) (by simp [Shape.quietSlots]) (by simp [Shape.bodySlots]) rfl

theorem suits_call (isNew : Bool) (callee : Slot) (passed : List Slot) :
    Suits (.call isNew callee passed) ([(callee, .quiet)] ++ parts .quiet passed) := by
  refine .of_other ?_ (by simp) ?_ (by simp [Shape.bodySlots]) rfl
  · rw [List.map_append, map_fst_parts]
    rfl
  · intro slot listed
    rcases List.mem_cons.mp listed with rfl | among
    · exact List.mem_cons_self
    · exact List.mem_cons_of_mem _ (mem_parts among)

theorem turns_memberChain (goals : MakesGoals inner) (start : Nat) (allowCall : Bool) (first : Slot) :
    Turns [(first, .quiet)] (memberChain inner start allowCall first) fun slot =>
      [(slot, .quiet)] := by
  refine turns_repeatWhile (fun object : Slot => [(object, .quiet)]) first fun object => ?_
  refine isSilent_token.andThen fun kind => ?_
  split
  · refine isSilent_advance.andThen fun _ => isSilent_token.andThen fun _ => .ite (fun _ => ?_)
      fun _ => (isSilent_report _).andThen fun _ => turns_pure rfl
    exact turns_identifier.andThen fun name =>
      ((suits_access false object name).turns_node start).bind fun _ => turns_pure rfl
  · refine isSilent_advance.andThen fun _ => (turns_expression goals).outsideHead.andThen
      fun argument => (isSilent_skip _).andThen fun _ => ?_
    exact ((suits_access true object argument).turns_node start).bind fun _ => turns_pure rfl
  · refine .ite (fun _ => ?_) fun _ => turns_pure rfl
    exact (turns_arguments goals).andThen fun passed =>
      ((suits_call false object passed).turns_node start).bind fun _ => turns_pure rfl
  · exact turns_pure rfl

theorem turns_construction (goals : MakesGoals inner) (fuel : Nat) :
    Turns [] (construction inner fuel) fun slot => [(slot, .quiet)] := by
  induction fuel with
  | zero => exact turns_none _
  | succ fuel ih =>
    refine isSilent_position.andThen fun start => (isSilent_skip _).andThen fun _ =>
      isSilent_position.andThen fun calleeStart => (isSilent_at? _).andThen fun _ => ?_
    -- The steps behind a choice are part of both of its branches, so they are stated first.
    have built : ∀ callee passed, Turns ([(callee, .quiet)] ++ parts .quiet passed)
        (node (.call true callee passed) start) fun slot => [(slot, .quiet)] := fun callee passed =>
      (suits_call true callee passed).turns_node start
    have applied : ∀ callee, Turns [(callee, .quiet)] (do
        let passed ← if ← at? .openParen then arguments inner else pure []
        node (.call true callee passed) start) fun slot => [(slot, .quiet)] := fun callee =>
      (isSilent_at? _).andThen fun _ => .ite (fun _ => (turns_arguments goals).andThen (built callee))
        fun _ => built callee []
    have reached : ∀ callee, Turns [(callee, .quiet)] (do
        let callee ← if callee.isSome then memberChain inner calleeStart false callee
          else pure callee
        let passed ← if ← at? .openParen then arguments inner else pure []
        node (.call true callee passed) start) fun slot => [(slot, .quiet)] := fun callee =>
      .ite (fun _ => (turns_memberChain goals _ _ _).bind applied) fun _ => applied callee
    exact .ite (fun _ => ih.bind reached) fun _ => (turns_primary goals).bind reached

theorem turns_leftHandSide (goals : MakesGoals inner) :
    Turns [] (leftHandSide inner) fun slot => [(slot, .quiet)] := by
  refine isSilent_position.andThen fun start => (isSilent_at? _).andThen fun _ => ?_
  have rest : ∀ first, Turns [(first, .quiet)] (do
      if first.isNone then return first
      memberChain inner start true first) fun slot => [(slot, .quiet)] := fun first =>
    .ite (fun _ => turns_pure rfl) fun _ => turns_memberChain goals _ _ _
  exact .ite (fun _ => isSilent_limit.andThen fun _ => (turns_construction goals _).bind rest)
    fun _ => (turns_primary goals).bind rest

theorem suits_unary (isUpdateAfter : Bool) (operator : TokenKind) (operand : Slot) :
    Suits (.unary isUpdateAfter operator operand) [(operand, .quiet)] :=
  .of_other rfl (by simp) (by simp [Shape.quietSlots]) (by simp [Shape.bodySlots]) rfl

theorem turns_updated (goals : MakesGoals inner) :
    Turns [] (updated inner) fun slot => [(slot, .quiet)] := by
  refine isSilent_position.andThen fun start => (turns_leftHandSide goals).bind fun operand =>
    isSilent_token.andThen fun operator => isSilent_lineBreakBefore.andThen fun _ =>
      .ite (fun _ => ?_) fun _ => turns_pure rfl
  exact isSilent_advance.andThen fun _ => (suits_unary true operator operand).turns_node start

theorem turns_operand (goals : MakesGoals inner) :
    Turns [] (operand inner) fun slot => [(slot, .quiet)] :=
  isSilent_token.andThen fun _ => .ite (fun _ => goals.prefixed) fun _ => turns_updated goals

theorem turns_prefixedOperand (goals : MakesGoals inner) :
    Turns [] (prefixedOperand inner) fun slot => [(slot, .quiet)] := by
  refine isSilent_position.andThen fun start => isSilent_token.andThen fun operator =>
    isSilent_advance.andThen fun _ => (turns_operand goals).bind fun inside => ?_
  have made := (suits_unary false operator inside).turns_node start
  exact .ite (fun _ => (isSilent_report _).andThen fun _ => made) fun _ => made

/-! ## Operators -/

theorem suits_binary (left : Slot) (operator : TokenKind) (right : Slot) :
    Suits (.binary left operator right) [(left, .quiet), (right, .quiet)] :=
  .of_other rfl (by simp) (by simp [Shape.quietSlots]) (by simp [Shape.bodySlots]) rfl

theorem turns_binary (goals : MakesGoals inner) (fuel least : Nat) :
    Turns [] (binary inner fuel least) fun slot => [(slot, .quiet)] := by
  induction fuel generalizing least with
  | zero => exact turns_operand goals
  | succ fuel ih =>
    refine isSilent_position.andThen fun start => (turns_operand goals).bind fun first =>
      isSilent_inHead.andThen fun inHead => isSilent_limit.andThen fun limit => ?_
    refine turns_repeatStep (fun left : Slot => [(left, .quiet)]) (fun left => ?_) limit first
    refine isSilent_token.andThen fun operator => ?_
    split
    · exact turns_pure rfl
    · refine .ite (fun _ => turns_pure rfl) fun _ => isSilent_advance.andThen fun _ =>
        (ih _).andThen fun right => ?_
      have made : Turns [(left, .quiet), (right, .quiet)]
          (do return (← node (.binary left operator right) start, true)) fun result =>
            [(result.1, .quiet)] :=
        ((suits_binary left operator right).turns_node start).bind fun _ => turns_pure rfl
      exact .ite (fun _ => (isSilent_report _).andThen fun _ => made) fun _ => made

theorem turns_conditional (goals : MakesGoals inner) :
    Turns [] (conditional inner) fun slot => [(slot, .quiet)] := by
  refine isSilent_position.andThen fun start => isSilent_limit.andThen fun limit =>
    (turns_binary goals _ _).bind fun condition => (isSilent_at? _).andThen fun _ =>
      .ite (fun _ => turns_pure rfl) fun _ => ?_
  refine isSilent_advance.andThen fun _ => goals.assignment.outsideHead.andThen fun whenTrue =>
    (isSilent_skip _).andThen fun _ => goals.assignment.andThen fun whenFalse => ?_
  have suits : Suits (.conditional condition whenTrue whenFalse)
      [(condition, .quiet), (whenTrue, .quiet), (whenFalse, .quiet)] :=
    .of_other rfl (by simp) (by simp [Shape.quietSlots]) (by simp [Shape.bodySlots]) rfl
  exact suits.turns_node start

theorem turns_assignment (goals : MakesGoals inner) :
    Turns [] (assignment inner) fun slot => [(slot, .quiet)] := by
  refine isSilent_position.andThen fun start => (turns_conditional goals).bind fun left =>
    isSilent_token.andThen fun operator => .ite (fun _ => ?_) fun _ => turns_pure rfl
  refine (isSilent_satisfies _ _).andThen fun _ => ?_
  have made : Turns [(left, .quiet)] (do
      advance
      let right ← inner .assignment
      node (.binary left operator right) start) fun slot => [(slot, .quiet)] :=
    isSilent_advance.andThen fun _ => goals.assignment.andThen fun right =>
      (suits_binary left operator right).turns_node start
  exact .ite (fun _ => made) fun _ => (isSilent_report _).andThen fun _ => made

end Expressions

/-! ## Statements -/

section Statements
variable {inner : Grammar}

theorem turns_expressionStatement (goals : MakesGoals inner) :
    Turns [] (expressionStatement inner) fun slot => [(slot, .body)] := by
  refine isSilent_position.andThen fun start => (turns_expression goals).bind fun inside =>
    .ite (fun _ => (turns_none _).without) fun _ => isSilent_endStatement.andThen fun _ => ?_
  have suits : Suits (.expressionStatement inside) [(inside, .quiet)] :=
    .of_other rfl (by simp) (by simp [Shape.quietSlots]) (by simp [Shape.bodySlots]) rfl
  exact suits.turns_node start

theorem turns_labeledStatement (goals : MakesGoals inner) :
    Turns [] (labeledStatement inner) fun slot => [(slot, .body)] := by
  refine isSilent_position.andThen fun start => turns_identifier.bind fun label =>
    (isSilent_skip _).andThen fun _ => goals.statement.andThen fun body => ?_
  have suits : Suits (.labeled label body) [(label, .quiet), (body, .body)] :=
    .of_other rfl (by simp) (by simp [Shape.quietSlots]) (by simp [Shape.bodySlots]) rfl
  exact suits.turns_node start

theorem turns_variableDeclarations (goals : MakesGoals inner) :
    Turns [] (variableDeclarations inner) fun result => parts .quiet result.2 := by
  refine isSilent_token.andThen fun keyword => isSilent_advance.andThen fun _ => ?_
  refine Turns.bind (turns_repeatWhile (fun found : Array Slot => parts .quiet found.toList) #[]
    fun found => ?_) fun found => turns_pure rfl
  refine isSilent_position.andThen fun start => turns_bindingIdentifier.andThen fun name =>
    (isSilent_accept _).andThen fun _ => ?_
  have rest : ∀ initializer, Turns
      ((parts .quiet found.toList ++ [(name, .quiet)]) ++ [(initializer, .quiet)]) (do
        let entry ← node (.declaration name initializer) start
        return (found.push entry, ← accept .comma)) fun result => parts .quiet result.1.toList := by
    intro initializer
    have suits : Suits (.declaration name initializer) [(name, .quiet), (initializer, .quiet)] :=
      .of_other rfl (by simp) (by simp [Shape.quietSlots]) (by simp [Shape.bodySlots]) rfl
    rw [List.append_assoc]
    exact (suits.turns_node start).onto fun entry =>
      (isSilent_accept _).andThen fun _ => turns_pure (parts_push found entry)
  exact .ite (fun _ => goals.assignment.andThen rest) fun _ => (turns_none _).andThen rest

theorem suits_declarationList (isStatement : Bool) (declarations : List Slot) :
    Suits (.declarationList isStatement declarations) (parts .quiet declarations) :=
  .of_other map_fst_parts.symm (by simp) (fun _ => mem_parts) (by simp [Shape.bodySlots]) rfl

theorem turns_variableStatement (goals : MakesGoals inner) :
    Turns [] (variableStatement inner) fun slot => [(slot, .body)] :=
  isSilent_position.andThen fun start => (turns_variableDeclarations goals).bind fun result =>
    isSilent_endStatement.andThen fun _ =>
      ((suits_declarationList true result.2).turns_flagged result.1 start).asBody

theorem turns_functionDeclaration (goals : MakesGoals inner) :
    Turns [] (functionDeclaration inner) fun slot => [(slot, .body)] :=
  isSilent_position.andThen fun start => (isSilent_skip _).andThen fun _ =>
    turns_bindingIdentifier.bind fun name => (turns_signatureAndBody goals).andThen fun result =>
      ((suits_function false name result.1 result.2).turns_node start).asBody

theorem turns_conditionalStatement (goals : MakesGoals inner) :
    Turns [] (conditionalStatement inner) fun slot => [(slot, .body)] := by
  refine isSilent_position.andThen fun start => (isSilent_skip _).andThen fun _ =>
    (turns_parenthesized goals).bind fun test => goals.statement.andThen fun thenBody =>
      (isSilent_accept _).andThen fun _ => ?_
  have rest : ∀ elseBody, Turns
      (([(test, Role.quiet)] ++ [(thenBody, Role.body)]) ++ [(elseBody, Role.body)])
      (node (.conditionalStatement test thenBody elseBody) start) fun slot => [(slot, .body)] := by
    intro elseBody
    have suits : Suits (.conditionalStatement test thenBody elseBody)
        [(test, .quiet), (thenBody, .body), (elseBody, .body)] :=
      .of_other rfl (by simp) (by simp [Shape.quietSlots]) (by simp [Shape.bodySlots]) rfl
    exact suits.turns_node start
  exact .ite (fun _ => goals.statement.andThen rest) fun _ => (turns_none _).andThen rest

/-! ## Loops -/

theorem turns_loopInitializer (goals : MakesGoals inner) :
    Turns [] (loopInitializer inner) fun slot => [(slot, .quiet)] := by
  have declared : Turns [] (do
      let start ← position
      let result ← variableDeclarations inner
      flagged (.declarationList false result.2) result.1 start) fun slot => [(slot, .quiet)] :=
    isSilent_position.andThen fun start => (turns_variableDeclarations goals).bind fun result =>
      (suits_declarationList false result.2).turns_flagged result.1 start
  refine isSilent_token.andThen fun kind => ?_
  split
  · exact declared
  · exact declared
  · exact declared
  · exact turns_none _
  · exact turns_expression goals

theorem suits_loop (kind : LoopKind) (initializer condition incrementor body : Slot)
    (regular : (Shape.loop kind initializer condition incrementor body).IsRegular) :
    Suits (.loop kind initializer condition incrementor body)
      [(initializer, .quiet), (condition, .quiet), (incrementor, .quiet), (body, .body)] :=
  ⟨rfl, regular, by simp [Shape.quietSlots], by simp [Shape.bodySlots], rfl⟩

/-- A loop without an initializer and an incrementor. -/
theorem suits_shortLoop (kind : LoopKind) (condition body : Slot) :
    Suits (.loop kind none condition none body)
      [(none, .quiet), (condition, .quiet), (none, .quiet), (body, .body)] := by
  refine suits_loop kind none condition none body ?_
  cases kind with
  | forLoop => exact .refl _
  | whileLoop => cases condition <;> exact .refl _
  | doLoop => exact (List.Perm.swap body condition []).symm.filterMap id

theorem turns_shortLoop (kind : LoopKind) (condition body : Slot) (start : Nat) :
    Turns [(condition, .quiet), (body, .body)] (node (.loop kind none condition none body) start)
      fun slot => [(slot, .body)] := by
  have made := (suits_shortLoop kind condition body).turns_node start
  have role : (Shape.loop kind none condition none body).role = .body := by cases kind <;> rfl
  rw [role] at made
  exact .absent [] [(condition, .quiet), (body, .body)] .quiet <|
    .absent [(none, .quiet), (condition, .quiet)] [(body, .body)] .quiet made

theorem turns_forStatement (goals : MakesGoals inner) :
    Turns [] (forStatement inner) fun slot => [(slot, .body)] := by
  refine isSilent_position.andThen fun start => (isSilent_skip _).andThen fun _ =>
    (isSilent_skip _).andThen fun _ => (turns_loopInitializer goals).insideHead.bind
      fun initializer => ?_
  have last : ∀ test incrementor, Turns
      [(initializer, .quiet), (test, .quiet), (incrementor, .quiet)] (do
        discard (expect .closeParen)
        let body ← inner .statement
        node (.loop .forLoop initializer test incrementor body) start) fun slot =>
        [(slot, .body)] := fun test incrementor =>
    (isSilent_skip _).andThen fun _ => goals.statement.andThen fun body =>
      (suits_loop .forLoop initializer test incrementor body (.refl _)).turns_node start
  have middle : ∀ test, Turns [(initializer, .quiet), (test, .quiet)] (do
      discard (expect .semicolon)
      let incrementor ← if ← at? .closeParen then pure none else outsideHead (expression inner)
      discard (expect .closeParen)
      let body ← inner .statement
      node (.loop .forLoop initializer test incrementor body) start) fun slot =>
      [(slot, .body)] := fun test =>
    (isSilent_skip _).andThen fun _ => (isSilent_at? _).andThen fun _ =>
      .ite (fun _ => (turns_none _).andThen (last test)) fun _ =>
        (turns_expression goals).outsideHead.andThen (last test)
  have rest : ∀ isForIn : Bool, Turns [(initializer, .quiet)] (do
      if isForIn then
        let object ← outsideHead (expression inner)
        discard (expect .closeParen)
        let body ← inner .statement
        node (.forIn initializer object body) start
      else
        discard (expect .semicolon)
        let test ← if ← at? .semicolon then pure none else outsideHead (expression inner)
        discard (expect .semicolon)
        let incrementor ← if ← at? .closeParen then pure none else outsideHead (expression inner)
        discard (expect .closeParen)
        let body ← inner .statement
        node (.loop .forLoop initializer test incrementor body) start) fun slot =>
      [(slot, .body)] := by
    intro isForIn
    refine .ite (fun _ => ?_) fun _ => ?_
    · refine (turns_expression goals).outsideHead.andThen fun object =>
        (isSilent_skip _).andThen fun _ => goals.statement.andThen fun body => ?_
      have suits : Suits (.forIn initializer object body)
          [(initializer, .quiet), (object, .quiet), (body, .body)] :=
        .of_other rfl (by simp) (by simp [Shape.quietSlots]) (by simp [Shape.bodySlots]) rfl
      exact suits.turns_node start
    · exact (isSilent_skip _).andThen fun _ => (isSilent_at? _).andThen fun _ =>
        .ite (fun _ => (turns_none _).andThen middle) fun _ =>
          (turns_expression goals).outsideHead.andThen middle
  exact .ite (fun _ => (isSilent_accept _).andThen rest) fun _ => rest false

theorem turns_whileStatement (goals : MakesGoals inner) :
    Turns [] (whileStatement inner) fun slot => [(slot, .body)] :=
  isSilent_position.andThen fun start => (isSilent_skip _).andThen fun _ =>
    (turns_parenthesized goals).bind fun test => goals.statement.andThen fun body =>
      turns_shortLoop .whileLoop test body start

theorem turns_doStatement (goals : MakesGoals inner) :
    Turns [] (doStatement inner) fun slot => [(slot, .body)] :=
  isSilent_position.andThen fun start => (isSilent_skip _).andThen fun _ =>
    goals.statement.bind fun body => (isSilent_skip _).andThen fun _ =>
      (turns_parenthesized goals).andThen fun test =>
        (isSilent_accept _).discarded.andThen fun _ =>
          (turns_shortLoop .doLoop test body start).perm (.swap _ _ _)

/-! ## Switches and jumps -/

theorem turns_clauseBody (goals : MakesGoals inner) (isDefault : Bool) (label : Slot) (start : Nat) :
    Turns [(label, .any)] (clauseBody inner isDefault label start) fun slot => [(slot, .any)] := by
  refine (isSilent_skip _).andThen fun _ => (turns_statementList goals _).andThen fun statements => ?_
  have suits : Suits (.clause isDefault label statements)
      ((label, .any) :: parts .body statements) :=
    .of_other (by rw [List.map_cons, map_fst_parts]; rfl) (by simp) (by simp [Shape.quietSlots])
      (by simp [Shape.bodySlots]) rfl
  exact (suits.turns_node start).anywhere

theorem turns_switchStatement (goals : MakesGoals inner) :
    Turns [] (switchStatement inner) fun slot => [(slot, .body)] := by
  refine isSilent_position.andThen fun start => (isSilent_skip _).andThen fun _ =>
    (turns_parenthesized goals).bind fun discriminant => (isSilent_skip _).andThen fun _ => ?_
  refine Turns.andThen (turns_repeatWhile (fun found : Array Slot => parts .any found.toList) #[]
    fun clauses => ?_) fun clauses => (isSilent_skip _).andThen fun _ => ?_
  · refine (isSilent_atClose _).andThen fun _ => .ite (fun _ => turns_pure rfl) fun _ =>
      isSilent_position.andThen fun clauseStart => isSilent_token.andThen fun kind => ?_
    split
    · refine isSilent_advance.andThen fun _ =>
        (turns_expression goals).anywhere.outsideHead.andThen fun label => ?_
      exact (turns_clauseBody goals false label clauseStart).onto fun clause =>
        turns_pure (parts_push clauses clause)
    · refine isSilent_advance.andThen fun _ => ?_
      exact (Turns.absent [] [] .any (turns_clauseBody goals true none clauseStart)).andThen
        fun clause => turns_pure (parts_push clauses clause)
    · exact (isSilent_report _).andThen fun _ => isSilent_advance.andThen fun _ => turns_pure rfl
  · have suits : Suits (.switch discriminant clauses.toList)
        ((discriminant, .quiet) :: parts .any clauses.toList) :=
      .of_other (by rw [List.map_cons, map_fst_parts]; rfl) (by simp) (by simp [Shape.quietSlots])
        (by simp [Shape.bodySlots]) rfl
    exact suits.turns_node start

theorem turns_jumpStatement (kind : JumpKind) :
    Turns [] (jumpStatement kind) fun slot => [(slot, .body)] := by
  refine isSilent_position.andThen fun start => isSilent_advance.andThen fun _ =>
    (isSilent_at? _).andThen fun _ => isSilent_lineBreakBefore.andThen fun _ => ?_
  have rest : ∀ label, Turns [(label, .quiet)] (do
      endStatement
      node (.jump kind label) start) fun slot => [(slot, .body)] := by
    intro label
    have suits : Suits (.jump kind label) [(label, .quiet)] :=
      .of_other rfl (by simp) (by simp [Shape.quietSlots]) (by simp [Shape.bodySlots]) rfl
    have role : (Shape.jump kind label).role = .body := by cases kind <;> rfl
    have made := suits.turns_node start
    rw [role] at made
    exact isSilent_endStatement.andThen fun _ => made
  exact .ite (fun _ => turns_identifier.bind rest) fun _ => (turns_none _).bind rest

theorem turns_exit (kind : ExitKind) (result : Slot) (start : Nat) :
    Turns [(result, .quiet)] (node (.exit kind result) start) fun slot => [(slot, .body)] := by
  have suits : Suits (.exit kind result) [(result, .quiet)] :=
    .of_other rfl (by simp) (by simp [Shape.quietSlots]) (by simp [Shape.bodySlots]) rfl
  have made := suits.turns_node start
  have role : (Shape.exit kind result).role = .body := by cases kind <;> rfl
  rwa [role] at made

theorem turns_returnStatement (goals : MakesGoals inner) :
    Turns [] (returnStatement inner) fun slot => [(slot, .body)] := by
  refine isSilent_position.andThen fun start => isSilent_inFunction.andThen fun _ => ?_
  have rest : ∀ result, Turns [(result, .quiet)] (do
      endStatement
      node (.exit .returns result) start) fun slot => [(slot, .body)] := fun result =>
    isSilent_endStatement.andThen fun _ => turns_exit .returns result start
  have made : Turns [] (do
      advance
      let result ← if ← canEndStatement then pure none else expression inner
      endStatement
      node (.exit .returns result) start) fun slot => [(slot, .body)] :=
    isSilent_advance.andThen fun _ => isSilent_canEndStatement.andThen fun _ =>
      .ite (fun _ => (turns_none _).bind rest) fun _ => (turns_expression goals).bind rest
  exact .ite (fun _ => made) fun _ => (isSilent_report _).andThen fun _ => made

theorem turns_throwStatement (goals : MakesGoals inner) :
    Turns [] (throwStatement inner) fun slot => [(slot, .body)] := by
  refine isSilent_position.andThen fun start => isSilent_advance.andThen fun _ =>
    isSilent_lineBreakBefore.andThen fun _ => ?_
  have made : Turns [] (do
      let thrown ← expression inner
      endStatement
      node (.exit .throws thrown) start) fun slot => [(slot, .body)] :=
    (turns_expression goals).bind fun thrown => isSilent_endStatement.andThen fun _ =>
      turns_exit .throws thrown start
  exact .ite (fun _ => (isSilent_report _).andThen fun _ => made) fun _ => made

/-! ## Handlers -/

theorem turns_catchClause (goals : MakesGoals inner) :
    Turns [] (catchClause inner) fun slot => [(slot, .body)] := by
  refine isSilent_position.andThen fun start => isSilent_advance.andThen fun _ =>
    (isSilent_skip _).andThen fun _ => turns_bindingIdentifier.bind fun name =>
      (isSilent_skip _).andThen fun _ => (turns_block goals).andThen fun body => ?_
  have suits : Suits (.catchClause name body) [(name, .quiet), (body, .body)] :=
    .of_other rfl (by simp) (by simp [Shape.quietSlots]) (by simp [Shape.bodySlots]) rfl
  exact suits.turns_node start

theorem turns_tryStatement (goals : MakesGoals inner) :
    Turns [] (tryStatement inner) fun slot => [(slot, .body)] := by
  refine isSilent_position.andThen fun start => (isSilent_skip _).andThen fun _ =>
    (turns_block goals).bind fun body => (isSilent_at? _).andThen fun _ => ?_
  have last : ∀ handler finalizer, Turns [(body, .body), (handler, .body), (finalizer, .body)] (do
      if handler.isNone && finalizer.isNone then report .handlerExpected
      node (.tryStatement body handler finalizer) start) fun slot => [(slot, .body)] := by
    intro handler finalizer
    have suits : Suits (.tryStatement body handler finalizer)
        [(body, .body), (handler, .body), (finalizer, .body)] :=
      .of_other rfl (by simp) (by simp [Shape.quietSlots]) (by simp [Shape.bodySlots]) rfl
    have made := suits.turns_node start
    exact .ite (fun _ => (isSilent_report _).andThen fun _ => made) fun _ => made
  have rest : ∀ handler, Turns [(body, .body), (handler, .body)] (do
      let finalizer ← if ← accept .finallyKeyword then block inner else pure none
      if handler.isNone && finalizer.isNone then report .handlerExpected
      node (.tryStatement body handler finalizer) start) fun slot => [(slot, .body)] := fun handler =>
    (isSilent_accept _).andThen fun _ => .ite (fun _ => (turns_block goals).andThen (last handler))
      fun _ => (turns_none _).andThen (last handler)
  exact .ite (fun _ => (turns_catchClause goals).andThen rest) fun _ => (turns_none _).andThen rest

theorem turns_statement (goals : MakesGoals inner) :
    Turns [] (statement inner) fun slot => [(slot, .body)] := by
  have empty : Suits .emptyStatement [] :=
    .of_other rfl (by simp) (by simp [Shape.quietSlots]) (by simp [Shape.bodySlots]) rfl
  have debugger : Suits .debuggerStatement [] :=
    .of_other rfl (by simp) (by simp [Shape.quietSlots]) (by simp [Shape.bodySlots]) rfl
  have nothing : Turns [] (do
      report .statementExpected
      return none) fun slot : Slot => [(slot, .body)] :=
    (isSilent_report _).andThen fun _ => turns_none _
  refine isSilent_token.andThen fun kind => ?_
  split
  · exact turns_block goals
  · exact isSilent_position.andThen fun start => isSilent_advance.andThen fun _ =>
      empty.turns_node start
  · exact turns_variableStatement goals
  · exact turns_variableStatement goals
  · exact turns_variableStatement goals
  · exact turns_functionDeclaration goals
  · exact turns_conditionalStatement goals
  · exact turns_forStatement goals
  · exact turns_whileStatement goals
  · exact turns_doStatement goals
  · exact turns_switchStatement goals
  · exact turns_jumpStatement .breaks
  · exact turns_jumpStatement .continues
  · exact turns_returnStatement goals
  · exact turns_throwStatement goals
  · exact turns_tryStatement goals
  · exact isSilent_position.andThen fun start => isSilent_advance.andThen fun _ =>
      isSilent_endStatement.andThen fun _ => debugger.turns_node start
  · exact isSilent_peek.andThen fun _ => .ite (fun _ => turns_labeledStatement goals) fun _ =>
      turns_expressionStatement goals
  · exact nothing
  · exact nothing
  · exact nothing
  · exact nothing
  · exact nothing
  · exact nothing
  · exact turns_expressionStatement goals

end Statements

/-! ## Programs -/

/-- The grammar of each depth makes trees. -/
theorem grammar_makesGoals (depth : Nat) : MakesGoals (grammar depth) := by
  induction depth with
  | zero => exact fun _ => (isSilent_report _).andThen fun _ => turns_none _
  | succ depth ih =>
    intro goal
    cases goal with
    | statement => exact turns_statement ih
    | assignment => exact turns_assignment ih
    | prefixed => exact turns_prefixedOperand ih

end Parser

/-! An empty store has nothing that could be wrong. -/

namespace Store

theorem shape?_empty (slot : Slot) : Store.empty.shape? slot = none := by
  cases slot <;> rfl

theorem parent_empty (slot : Slot) : Store.empty.parent slot = none := by
  cases slot <;> rfl

theorem hasTrueLinks_empty : Store.empty.HasTrueLinks := fun child parent linked => by
  rw [parent_empty] at linked
  cases linked

theorem isTidy_empty : Store.empty.IsTidy := fun id shape found => by
  rw [shape?_empty] at found
  cases found

/-- A new node is nobody's child. -/
theorem parent_add_self (store : Store) (shape : Shape) (flags : Flags) (start stop : Nat)
    (outside : some store.nodes.size ∉ shape.slots) :
    (store.add shape flags start stop).1.parent (some store.nodes.size) = none := by
  unfold add
  rw [parent_setParents, parent_push, if_pos rfl, if_neg fun inside => outside inside.1]

end Store

/-- A program stands, whatever its text is. -/
theorem parse_stands (text : List Char) :
    ∃ tree, (parse text).store.Stands (parse text).root tree := by
  have turns : Parser.Turns [] (do
      Parser.advance
      Parser.statementList (Parser.grammar Parser.maxDepth) (· == .endOfFile))
      fun statements => Parser.parts .body statements :=
    Parser.isSilent_advance.andThen fun _ =>
      Parser.turns_statementList (Parser.grammar_makesGoals Parser.maxDepth) _
  obtain ⟨trees, work, plays⟩ :=
    turns (Parser.initial text) [] ⟨List.forall_mem_nil _, .nil⟩ .nil
  dsimp only [parse]
  generalize (do
      Parser.advance
      Parser.statementList (Parser.grammar Parser.maxDepth) (· == .endOfFile) :
        Parser (List Slot)) (Parser.initial text) = result at work plays
  obtain ⟨statements, state⟩ := result
  have slots : statements = trees.map Tree.root := Parser.map_fst_parts.symm.trans plays.roots.symm
  have work' : Rebuilds Store.empty state.store [] (trees ++ []) := by rwa [List.append_nil]
  have made := @Rebuilds.andAdd Store.empty state.store [] trees []
    (.file ⟨text, state.lexer.comments⟩ statements) Flags.none 0 state.lexer.cursor.offset work' slots
    (.refl _) (List.forall_mem_nil _) (List.forall_mem_nil _) rfl
  have nodup := made.all.nodup
  rw [Tree.namesAll, Tree.namesAll, List.append_nil] at nodup
  refine ⟨_, made.all.holds _ List.mem_cons_self, rfl, nodup, ?_, made.links hasTrueLinks_empty,
    made.tidy isTidy_empty, ?_⟩
  · refine parent_add_self _ _ _ _ _ fun listed => ?_
    rw [show Shape.slots (.file _ statements) = statements from rfl, slots] at listed
    exact Nat.lt_irrefl _ (work.all.lt_size (Tree.mem_namesAll_of_root listed))
  · exact congrArg (Option.map Shape.kind) ((shape?_add state.store _ _ _ _ _).trans (if_pos rfl))

end Unflatten
