import Unflatten.Proofs.Parser.Building
import Unflatten.Proofs.Parser.Grammar

/-! # How deep the parser nests

Each level of the grammar puts at most five nodes around what it is built from, those in a chain
counting as one.  So a program of any length is at most five times as deep as statements and
expressions may nest, but for its chains of operators, member accesses and calls. -/

set_option autoImplicit false

namespace Unflatten

namespace Parser

/-- A grammar makes trees of a bounded depth. -/
def BuildsGoals (inner : Grammar) (level : Nat) : Prop :=
  ∀ goal, Builds [] (inner goal) (upTo level)

section Expressions
variable {inner : Grammar} {level : Nat}

theorem builds_identifier (level : Nat) : Builds [] identifier (being .name (level + 1)) :=
  isSilent_position.first fun _ => isSilent_tokenEnd.first fun _ => isSilent_value.first fun _ =>
    isSilent_advance.first fun _ =>
      Supports.nodeAt (.of_plain rfl rfl (List.forall_mem_nil _)) _ _ _

theorem builds_bindingIdentifier (level : Nat) :
    Builds [] bindingIdentifier (being .name (level + 1)) :=
  (isSilent_at? _).first fun _ => .ite (builds_identifier level) <|
    (isSilent_report _).first fun _ => builds_none (by simp)

theorem builds_literal (kind : LiteralKind) (read : String → Option Float) (level : Nat) :
    Builds [] (literal kind read) (upTo (level + 1)) :=
  isSilent_position.first fun _ => isSilent_value.first fun _ => isSilent_tokenEnd.first fun _ =>
    isSilent_advance.first fun _ =>
      Supports.nodeAt (.of_plain rfl rfl (List.forall_mem_nil _)) _ _ _

theorem builds_expression (goals : BuildsGoals inner level) :
    Builds [] (expression inner) (upTo (level + 1)) := by
  refine isSilent_position.first fun start => (goals .assignment).andThen fun first =>
    (isSilent_at? _).first fun _ => .ite ?_ ?_
  · exact (builds_pure (List.Subset.refl _)).raise (Nat.le_succ level)
  refine (builds_repeatWhile (fun items : Array Slot => noted (.levels level) items.toList)
    (by simp [noted]) fun items => ?_).bind fun items => ?_
  · refine (isSilent_accept _).first fun _ => .ite ?_ (builds_pure (by simp))
    refine (goals .assignment).andThen fun item => .ite ?_ ?_
    · exact (isSilent_report _).first fun _ => builds_pure (by simp)
    · exact builds_pure (noted_push (by simp) (by simp))
  · refine Supports.leveled (.of_plain rfl rfl fun slot member => ?_) start
    exact List.mem_append_right _ (mem_noted.mpr ⟨member, rfl⟩)

theorem builds_parenthesized (goals : BuildsGoals inner level) :
    Builds [] (parenthesized inner) (upTo (level + 1)) :=
  (isSilent_skip _).first fun _ => (builds_expression goals).outsideHead.andThen fun _ =>
    (isSilent_skip _).first fun _ => builds_pure (List.Subset.refl _)

theorem builds_items {fact : Fact} {item : Parser Slot} (close : TokenKind)
    (each : Builds [] item fun slot => [(slot, fact)]) :
    Builds [] (items close item) (noted fact) := by
  refine (builds_repeatWhile (fun found : Array Slot => noted fact found.toList)
    (List.nil_subset _) fun found => ?_).bind fun found => builds_pure (List.Subset.refl _)
  refine (isSilent_atClose close).first fun _ => .ite (builds_pure (by simp)) ?_
  refine each.andThen fun next => .ite (builds_pure (by simp)) ?_
  exact (isSilent_accept _).first fun _ => builds_pure (noted_push (by simp) (by simp))

theorem builds_arguments (goals : BuildsGoals inner level) {more : Nat} (fewer : level ≤ more) :
    Builds [] (arguments inner) (noted (.levels more)) :=
  (isSilent_skip _).first fun _ =>
    (builds_items _ ((goals .assignment).raise fewer)).outsideHead.andThen fun _ =>
      (isSilent_skip _).first fun _ => builds_pure (List.Subset.refl _)

theorem builds_arrayLiteral (goals : BuildsGoals inner level) :
    Builds [] (arrayLiteral inner) (upTo (level + 2)) := by
  refine isSilent_position.first fun start => (isSilent_skip _).first fun _ =>
    (Builds.outsideHead (builds_repeatWhile (fun turn : Array Slot × Bool =>
      noted (.levels (level + 1)) turn.1.toList) (List.nil_subset _) fun turn => ?_)).bind
        fun result => (isSilent_skip _).first fun _ => Supports.flagged (.of_plain rfl rfl ?_) _ start
  · obtain ⟨found, multiLine⟩ := turn
    refine (isSilent_atClose _).first fun _ => .ite (builds_pure (by simp)) ?_
    refine isSilent_lineBreakBefore.first fun _ => (isSilent_at? _).first fun _ => .ite ?_ ?_
    · refine isSilent_position.first fun place => ?_
      have hole : Builds [] (nodeAt .omitted Flags.none place place) (upTo (level + 1)) :=
        Supports.nodeAt (.of_plain rfl rfl (List.forall_mem_nil _)) _ _ _
      exact hole.andThen fun hole => isSilent_advance.first fun _ =>
        builds_pure (noted_push (by simp) (by simp))
    · refine ((goals .assignment).raise (Nat.le_succ level)).andThen fun item =>
        .ite (builds_pure (by simp)) ?_
      exact (isSilent_accept _).first fun _ => builds_pure (noted_push (by simp) (by simp))
  · intro slot member
    exact List.mem_append_right _ (mem_noted.mpr ⟨member, rfl⟩)

theorem builds_propertyName (level : Nat) :
    Builds [] propertyName fun name => noted (.levels (level + 1)) name.toList := by
  have known : ∀ {step : Parser Slot}, Builds [] step (upTo (level + 1)) →
      Builds [] (do return some (← step)) fun name => noted (.levels (level + 1)) name.toList :=
    fun builds => builds.andThen fun _ => builds_pure (List.Subset.refl _)
  refine isSilent_token.first fun _ => .ite (known (builds_literal _ _ level)) <|
    .ite (known (builds_literal _ _ level)) <| .ite (known ?_) <|
      (isSilent_report _).first fun _ => builds_pure (List.nil_subset _)
  exact (builds_identifier level).less fun _ => by simp

theorem builds_objectLiteral (goals : BuildsGoals inner level) :
    Builds [] (objectLiteral inner) (upTo (level + 3)) := by
  refine isSilent_position.first fun start => (isSilent_skip _).first fun _ =>
    (builds_repeatWhile (fun turn : Array Slot × Bool =>
      noted (.levels (level + 2)) turn.1.toList) (List.nil_subset _) fun turn => ?_).bind
        fun result => isSilent_lineBreakBefore.first fun _ => (isSilent_skip _).first fun _ =>
          Supports.flagged (.of_plain rfl rfl ?_) _ start
  · obtain ⟨found, multiLine⟩ := turn
    refine (isSilent_atClose _).first fun _ => .ite (builds_pure (by simp)) ?_
    refine isSilent_lineBreakBefore.first fun _ => isSilent_position.first fun begin =>
      (builds_propertyName level).andThen fun name => ?_
    cases name with
    | none => exact builds_pure (by simp)
    | some name =>
      refine (isSilent_expect _).first fun _ => .ite ?_ (builds_pure (by simp))
      refine ((goals .assignment).raise (Nat.le_succ level)).outsideHead.andThen fun initializer => ?_
      have supports : Supports ([] ++ noted (.levels (level + 2)) found.toList ++
          noted (.levels (level + 1)) [name] ++ upTo (level + 1) initializer)
          (.propertyAssignment name initializer) (level + 1) :=
        .of_plain rfl rfl (by simp [Shape.enclosed, Shape.slots])
      exact (supports.leveled begin).bind fun entry => (isSilent_accept _).first fun _ =>
        builds_pure (noted_push (by simp) (by simp))
  · intro slot member
    exact List.mem_append_right _ (mem_noted.mpr ⟨member, rfl⟩)

/-! ## Blocks and functions -/

theorem builds_statementList (goals : BuildsGoals inner level) {more : Nat} (fewer : level ≤ more)
    (isEnd : TokenKind → Bool) : Builds [] (statementList inner isEnd) (noted (.levels more)) := by
  refine (builds_repeatWhile (fun found : Array Slot => noted (.levels more) found.toList)
    (List.nil_subset _) fun found => ?_).bind fun found => builds_pure (List.Subset.refl _)
  refine isSilent_token.first fun kind => .ite (builds_pure (by simp)) ?_
  refine isSilent_position.first fun start =>
    ((goals .statement).raise fewer).andThen fun next => ?_
  refine isSilent_position.first fun _ => isSilent_token.first fun _ => ?_
  have pushed : Builds ([] ++ noted (.levels more) found.toList ++ upTo more next)
      (pure (if next.isSome then found.push next else found, true) : Parser (Array Slot × Bool))
      fun turn => noted (.levels more) turn.1.toList := by
    split
    · exact builds_pure (noted_push (by simp) (by simp))
    · exact builds_pure (by simp)
  exact .ite (isSilent_advance.first fun _ => pushed) pushed

theorem builds_block (goals : BuildsGoals inner level) :
    Builds [] (block inner) (being .block (level + 1)) := by
  refine isSilent_position.first fun start => (isSilent_skip _).first fun _ =>
    (builds_statementList goals (Nat.le_refl level) _).andThen fun statements =>
      (isSilent_skip _).first fun _ => Supports.node (.of_plain rfl rfl fun slot member => ?_) start
  exact mem_noted.mpr ⟨member, rfl⟩

def signatureNotes (level : Nat) (result : List Slot × Slot) : List Note :=
  noted (.levels level) result.1 ++ noted (.isA .name) result.1 ++ being .block level result.2

theorem builds_signatureAndBody (goals : BuildsGoals inner level) :
    Builds [] (signatureAndBody inner) (signatureNotes (level + 1)) := by
  have parameters : Builds [] (items .closeParen bindingIdentifier) fun slots =>
      noted (.levels (level + 1)) slots ++ noted (.isA .name) slots :=
    (builds_items _ ((builds_bindingIdentifier level).less fun _ => by simp)).both
      (builds_items _ ((builds_bindingIdentifier level).less fun _ => by simp))
  exact (isSilent_skip _).first fun _ => parameters.andThen fun _ => (isSilent_skip _).first fun _ =>
    (builds_block goals).insideFunction.andThen fun _ => builds_pure (List.Subset.refl _)

theorem supports_function (isExpression : Bool) (name : Slot) (result : List Slot × Slot)
    (level : Nat) : Supports (being .name level name ++ signatureNotes level result)
      (.function isExpression name result.1 result.2) level := by
  refine ⟨List.forall_mem_nil _, fun slot member => ?_, fun demand member => ?_⟩
  · simp only [Shape.enclosed, Shape.slots, List.mem_cons, List.mem_append, List.not_mem_nil,
      or_false] at member
    rcases member with rfl | listed | rfl
    · simp
    · simp [signatureNotes, listed]
    · simp [signatureNotes]
  · simp only [Shape.demands, List.mem_cons, List.mem_map] at member
    rcases member with rfl | rfl | ⟨slot, listed, rfl⟩
    · simp
    · simp [signatureNotes]
    · simp [signatureNotes, listed]

theorem builds_functionExpression (goals : BuildsGoals inner level) :
    Builds [] (functionExpression inner) (upTo (level + 2)) := by
  refine isSilent_position.first fun start => (isSilent_skip _).first fun _ =>
    (isSilent_at? _).first fun _ => ?_
  have rest : ∀ name : Slot, Builds (being .name (level + 1) name) (do
      let result ← signatureAndBody inner
      node (.function true name result.1 result.2) start) (upTo (level + 2)) := fun name =>
    (builds_signatureAndBody goals).andThen fun result =>
      (supports_function true name result (level + 1)).leveled start
  exact .ite ((builds_identifier level).andThen rest) ((rest none).given (by simp))

/-! ## Operands -/

theorem builds_primary (goals : BuildsGoals inner level) :
    Builds [] (primary inner) (upTo (level + 3)) := by
  have named : Builds [] identifier (upTo (level + 3)) :=
    (builds_identifier (level + 2)).less fun _ => by simp
  have pattern : Builds [] (do
      rescanSlash
      let start ← position
      let text ← value
      let stop ← tokenEnd
      advance
      nodeAt (.literal .pattern text none) Flags.none start stop) (upTo (level + 3)) :=
    isSilent_rescanSlash.first fun _ => isSilent_position.first fun _ => isSilent_value.first fun _ =>
      isSilent_tokenEnd.first fun _ => isSilent_advance.first fun _ =>
        Supports.nodeAt (.of_plain rfl rfl (List.forall_mem_nil _)) _ _ _
  have keyword : Builds [] (do
      let start ← position
      let kind ← token
      let stop ← tokenEnd
      advance
      nodeAt (.token kind) Flags.none start stop) (upTo (level + 3)) :=
    isSilent_position.first fun _ => isSilent_token.first fun _ => isSilent_tokenEnd.first fun _ =>
      isSilent_advance.first fun _ =>
        Supports.nodeAt (.of_plain rfl rfl (List.forall_mem_nil _)) _ _ _
  refine isSilent_token.first fun kind => ?_
  split
  · exact named
  · exact builds_literal _ _ _
  · exact builds_literal _ _ _
  · exact pattern
  · exact pattern
  · exact keyword
  · exact keyword
  · exact keyword
  · exact keyword
  · exact (builds_parenthesized goals).raise (by omega)
  · exact (builds_arrayLiteral goals).raise (by omega)
  · exact builds_objectLiteral goals
  · exact (builds_functionExpression goals).raise (by omega)
  · exact (isSilent_report _).first fun _ => builds_none (by simp)

/-- A chain of member accesses and calls stays as deep as its parts. -/
theorem builds_memberChain (goals : BuildsGoals inner level) (start : Nat) (allowCall : Bool)
    (first : Slot) : Builds (upTo (level + 3) first) (memberChain inner start allowCall first)
      (upTo (level + 3)) := by
  -- each turn puts a node on top that continues the chain, so the level lasts through all turns
  refine builds_repeatWhile (upTo (level + 3)) (List.Subset.refl _) fun object =>
    isSilent_token.first fun kind => ?_
  have linked : ∀ {known : List Note} {shape : Shape}, Supports known shape (level + 2) →
      Builds known (do return (← node shape start, true) : Parser (Slot × Bool))
        fun turn => upTo (level + 3) turn.1 :=
    fun supports => (supports.leveled start).bind fun _ => builds_pure (by simp)
  split
  · refine isSilent_advance.first fun _ => isSilent_token.first fun _ => .ite ?_ ?_
    · refine (builds_identifier (level + 1)).andThen fun name => linked ⟨?_, ?_, List.forall_mem_nil _⟩
      · simp [Shape.linked]
      · simp [Shape.enclosed]
    · exact (isSilent_report _).first fun _ => builds_pure (by simp)
  · refine isSilent_advance.first fun _ => ((builds_expression goals).raise
      (Nat.le_succ (level + 1))).outsideHead.andThen fun argument => (isSilent_skip _).first fun _ =>
        linked ⟨?_, ?_, List.forall_mem_nil _⟩
    · simp [Shape.linked]
    · simp [Shape.enclosed]
  · refine .ite ?_ (builds_pure (by simp))
    refine (builds_arguments goals (by omega : level ≤ level + 2)).andThen fun passed =>
      linked ⟨?_, ?_, List.forall_mem_nil _⟩
    · simp [Shape.linked]
    · intro slot member
      exact List.mem_append_right _ (mem_noted.mpr ⟨member, rfl⟩)
  · exact builds_pure (by simp)

theorem builds_construction (goals : BuildsGoals inner level) (fuel : Nat) :
    Builds [] (construction inner fuel) (upTo (level + 3)) := by
  induction fuel with
  | zero => exact builds_none (by simp)
  | succ fuel ih =>
    refine isSilent_position.first fun start => (isSilent_skip _).first fun _ =>
      isSilent_position.first fun calleeStart => (isSilent_at? _).first fun _ => ?_
    have built : ∀ (callee : Slot) (passed : List Slot),
        Builds (upTo (level + 3) callee ++ noted (.levels (level + 2)) passed)
          (node (.call true callee passed) start) (upTo (level + 3)) := by
      refine fun callee passed => Supports.leveled ⟨?_, fun slot member => ?_, List.forall_mem_nil _⟩ start
      · simp [Shape.linked]
      · exact List.mem_append_right _ (mem_noted.mpr ⟨member, rfl⟩)
    have called : ∀ callee : Slot, Builds (upTo (level + 3) callee) (do
        let passed ← if ← at? .openParen then arguments inner else pure []
        node (.call true callee passed) start) (upTo (level + 3)) := fun callee =>
      (isSilent_at? _).first fun _ => .ite
        ((builds_arguments goals (by omega : level ≤ level + 2)).andThen (built callee))
        ((built callee []).mono (by simp [noted]))
    have chained : ∀ callee : Slot, Builds (upTo (level + 3) callee) (do
        let callee ← if callee.isSome then memberChain inner calleeStart false callee else pure callee
        let passed ← if ← at? .openParen then arguments inner else pure []
        node (.call true callee passed) start) (upTo (level + 3)) := fun callee => .ite
      ((builds_memberChain goals calleeStart false callee).bind fun callee =>
        (called callee).mono (by simp))
      (called callee)
    exact .ite (ih.andThen chained) ((builds_primary goals).andThen chained)

theorem builds_leftHandSide (goals : BuildsGoals inner level) :
    Builds [] (leftHandSide inner) (upTo (level + 3)) := by
  refine isSilent_position.first fun start => (isSilent_at? _).first fun _ => ?_
  have rest : ∀ first : Slot, Builds (upTo (level + 3) first)
      (if first.isNone then pure first else memberChain inner start true first) (upTo (level + 3)) :=
    fun first => .ite (builds_pure (List.Subset.refl _)) (builds_memberChain goals start true first)
  exact .ite (isSilent_limit.first fun fuel => (builds_construction goals fuel).andThen rest)
    ((builds_primary goals).andThen rest)

theorem builds_updated (goals : BuildsGoals inner level) :
    Builds [] (updated inner) (upTo (level + 4)) := by
  refine isSilent_position.first fun start => (builds_leftHandSide goals).andThen fun operand =>
    isSilent_token.first fun operator => isSilent_lineBreakBefore.first fun _ => .ite ?_ ?_
  · refine isSilent_advance.first fun _ => Supports.leveled (.of_plain rfl rfl ?_) start
    simp [Shape.enclosed, Shape.slots]
  · exact (builds_pure (List.Subset.refl _)).raise (Nat.le_succ (level + 3))

theorem builds_operand (goals : BuildsGoals inner level) :
    Builds [] (operand inner) (upTo (level + 4)) :=
  isSilent_token.first fun _ => .ite ((goals .prefixed).raise (by omega)) (builds_updated goals)

theorem builds_prefixedOperand (goals : BuildsGoals inner level) :
    Builds [] (prefixedOperand inner) (upTo (level + 5)) := by
  refine isSilent_position.first fun start => isSilent_token.first fun operator =>
    isSilent_advance.first fun _ => (builds_operand goals).andThen fun inside => ?_
  have built : Builds (upTo (level + 4) inside) (node (.unary false operator inside) start)
      (upTo (level + 5)) :=
    Supports.leveled (.of_plain rfl rfl (by simp [Shape.enclosed, Shape.slots])) start
  exact .ite ((isSilent_report _).first fun _ => built) built

/-! ## Operators -/

/-- A chain of operators stays as deep as its operands. -/
theorem builds_binary (goals : BuildsGoals inner level) (fuel least : Nat) :
    Builds [] (binary inner fuel least) (upTo (level + 4)) := by
  induction fuel generalizing least with
  | zero => exact builds_operand goals
  | succ fuel ih =>
    refine isSilent_position.first fun start => (builds_operand goals).andThen fun first =>
      isSilent_inHead.first fun inHead => isSilent_limit.first fun fuel' =>
        builds_repeatStep (upTo (level + 4)) (fun left => isSilent_token.first fun operator => ?_) fuel' first
    split
    · exact builds_pure (by simp)
    · refine .ite (builds_pure (by simp)) (isSilent_advance.first fun _ => ?_)
      refine (ih _).andThen fun right => ?_
      have built : Builds ([] ++ upTo (level + 4) left ++ upTo (level + 4) right)
          (do return (← node (.binary left operator right) start, true) : Parser (Slot × Bool))
          fun turn => upTo (level + 4) turn.1 := by
        have supports : Supports ([] ++ upTo (level + 4) left ++ upTo (level + 4) right)
            (.binary left operator right) (level + 3) :=
          ⟨by simp [Shape.linked], List.forall_mem_nil _, List.forall_mem_nil _⟩
        exact (supports.leveled start).bind fun _ => builds_pure (by simp)
      exact .ite ((isSilent_report _).first fun _ => built) built

theorem builds_conditional (goals : BuildsGoals inner level) :
    Builds [] (conditional inner) (upTo (level + 5)) := by
  have branch := (goals .assignment).raise (by omega : level ≤ level + 4)
  refine isSilent_position.first fun start => isSilent_limit.first fun fuel =>
    (builds_binary goals fuel Precedence.coalesce).andThen fun condition =>
      (isSilent_at? _).first fun _ => .ite ?_ ?_
  · exact (builds_pure (List.Subset.refl _)).raise (Nat.le_succ (level + 4))
  · refine isSilent_advance.first fun _ => branch.outsideHead.andThen fun whenTrue =>
      (isSilent_skip _).first fun _ => branch.andThen fun whenFalse =>
        Supports.leveled (.of_plain rfl rfl ?_) start
    simp [Shape.enclosed, Shape.slots]

theorem builds_assignment (goals : BuildsGoals inner level) :
    Builds [] (assignment inner) (upTo (level + 5)) := by
  refine isSilent_position.first fun start => (builds_conditional goals).andThen fun left =>
    isSilent_token.first fun operator => .ite ((isSilent_satisfies _ _).first fun _ => ?_)
      (builds_pure (List.Subset.refl _))
  have built : Builds (upTo (level + 5) left) (do
      advance
      let right ← inner .assignment
      node (.binary left operator right) start) (upTo (level + 5)) := by
    refine isSilent_advance.first fun _ =>
      ((goals .assignment).raise (by omega : level ≤ level + 5)).andThen fun right =>
        Supports.leveled ⟨?_, List.forall_mem_nil _, List.forall_mem_nil _⟩ start
    simp [Shape.linked]
  exact .ite built ((isSilent_report _).first fun _ => built)

end Expressions

/-! ## Statements -/

section Statements
variable {inner : Grammar} {level : Nat}

theorem builds_expressionStatement (goals : BuildsGoals inner level) :
    Builds [] (expressionStatement inner) (upTo (level + 2)) := by
  refine isSilent_position.first fun start => (builds_expression goals).andThen fun inside =>
    .ite (builds_none (by simp)) (isSilent_endStatement.first fun _ => ?_)
  exact Supports.leveled (.of_plain rfl rfl (by simp [Shape.enclosed, Shape.slots])) start

theorem builds_labeledStatement (goals : BuildsGoals inner level) :
    Builds [] (labeledStatement inner) (upTo (level + 2)) := by
  refine isSilent_position.first fun start => (builds_identifier level).andThen fun label =>
    (isSilent_skip _).first fun _ =>
      ((goals .statement).raise (Nat.le_succ level)).andThen fun body => ?_
  exact Supports.leveled (.of_plain rfl rfl (by simp [Shape.enclosed, Shape.slots])) start

def declarationNotes (level : Nat) (declarations : List Slot) : List Note :=
  noted (.levels level) declarations ++ noted (.isA .declarator) declarations

theorem builds_variableDeclarations (goals : BuildsGoals inner level) :
    Builds [] (variableDeclarations inner) fun result => declarationNotes (level + 2) result.2 := by
  refine isSilent_token.first fun keyword => isSilent_advance.first fun _ =>
    (builds_repeatWhile (fun found : Array Slot => declarationNotes (level + 2) found.toList)
      (List.nil_subset _) fun found => ?_).bind fun found => builds_pure (List.Subset.refl _)
  refine isSilent_position.first fun start => (builds_bindingIdentifier level).andThen fun name =>
    (isSilent_accept _).first fun _ => ?_
  have rest : ∀ initializer : Slot,
      Builds (declarationNotes (level + 2) found.toList ++ being .name (level + 1) name ++
        upTo (level + 1) initializer) (do
          let entry ← node (.declaration name initializer) start
          return (found.push entry, ← accept .comma) : Parser (Array Slot × Bool))
        fun turn => declarationNotes (level + 2) turn.1.toList := by
    intro initializer
    have supports : Supports (declarationNotes (level + 2) found.toList ++
        being .name (level + 1) name ++ upTo (level + 1) initializer)
        (.declaration name initializer) (level + 1) :=
      ⟨List.forall_mem_nil _, by simp [Shape.enclosed, Shape.slots], by simp [Shape.demands]⟩
    refine (supports.node start).bind fun entry => (isSilent_accept _).first fun _ =>
      builds_pure (List.append_subset.mpr ⟨noted_push ?_ ?_, noted_push ?_ ?_⟩)
    · simp [declarationNotes]
    · simp [made]
    · simp [declarationNotes]
    · simp [made, Shape.natures]
  exact .ite (((goals .assignment).raise (Nat.le_succ level)).andThen rest)
    ((rest none).given (by simp +contextual [or_imp]))

theorem supports_declarationList (isStatement : Bool) (declarations : List Slot) (level : Nat) :
    Supports (declarationNotes level declarations) (.declarationList isStatement declarations) level := by
  refine ⟨List.forall_mem_nil _, fun slot member => ?_, fun demand member => ?_⟩
  · exact List.mem_append_left _ (mem_noted.mpr ⟨member, rfl⟩)
  · obtain ⟨slot, listed, rfl⟩ := List.mem_map.mp member
    exact List.mem_append_right _ (mem_noted.mpr ⟨listed, rfl⟩)

theorem builds_declarationList (goals : BuildsGoals inner level) (isStatement : Bool)
    {ending : Parser Unit} (silent : IsSilent ending) (start : Nat) :
    Builds [] (do
      let result ← variableDeclarations inner
      ending
      flagged (.declarationList isStatement result.2) result.1 start) (upTo (level + 3)) :=
  (builds_variableDeclarations goals).andThen fun result => silent.first fun _ =>
    (supports_declarationList isStatement result.2 (level + 2)).flagged result.1 start

theorem builds_functionDeclaration (goals : BuildsGoals inner level) :
    Builds [] (functionDeclaration inner) (upTo (level + 2)) :=
  isSilent_position.first fun start => (isSilent_skip _).first fun _ =>
    (builds_bindingIdentifier level).andThen fun name => (builds_signatureAndBody goals).andThen
      fun result => (supports_function false name result (level + 1)).leveled start

theorem builds_conditionalStatement (goals : BuildsGoals inner level) :
    Builds [] (conditionalStatement inner) (upTo (level + 2)) := by
  have branch := (goals .statement).raise (Nat.le_succ level)
  refine isSilent_position.first fun start => (isSilent_skip _).first fun _ =>
    (builds_parenthesized goals).andThen fun test => branch.andThen fun thenBody =>
      (isSilent_accept _).first fun _ => ?_
  have rest : ∀ elseBody : Slot,
      Builds (upTo (level + 1) test ++ upTo (level + 1) thenBody ++ upTo (level + 1) elseBody)
        (node (.conditionalStatement test thenBody elseBody) start) (upTo (level + 2)) := fun _ =>
    Supports.leveled (.of_plain rfl rfl (by simp [Shape.enclosed, Shape.slots])) start
  exact .ite (branch.andThen rest) ((rest none).given (by simp))

/-! ## Loops -/

theorem builds_loopInitializer (goals : BuildsGoals inner level) :
    Builds [] (loopInitializer inner) (upTo (level + 3)) := by
  have declared : Builds [] (do
      let start ← position
      let result ← variableDeclarations inner
      flagged (.declarationList false result.2) result.1 start) (upTo (level + 3)) :=
    isSilent_position.first fun start => builds_declarationList goals false (isSilent_pure ()) start
  refine isSilent_token.first fun kind => ?_
  split
  · exact declared
  · exact declared
  · exact declared
  · exact builds_none (by simp)
  · exact (builds_expression goals).raise (by omega)

theorem builds_forStatement (goals : BuildsGoals inner level) :
    Builds [] (forStatement inner) (upTo (level + 4)) := by
  have inside := ((builds_expression goals).raise (by omega : level + 1 ≤ level + 3)).outsideHead
  have body := (goals .statement).raise (by omega : level ≤ level + 3)
  refine isSilent_position.first fun start => (isSilent_skip _).first fun _ =>
    (isSilent_skip _).first fun _ => (builds_loopInitializer goals).insideHead.andThen
      fun initializer => ?_
  have last : ∀ test incrementor : Slot, Builds (upTo (level + 3) initializer ++
      upTo (level + 3) test ++ upTo (level + 3) incrementor) (do
        discard (expect .closeParen)
        let body ← inner .statement
        node (.loop .forLoop initializer test incrementor body) start) (upTo (level + 4)) := by
    refine fun test incrementor => (isSilent_skip _).first fun _ => body.andThen fun body => ?_
    exact Supports.leveled (.of_plain rfl rfl (by simp [Shape.enclosed, Shape.slots])) start
  have middle : ∀ test : Slot, Builds (upTo (level + 3) initializer ++ upTo (level + 3) test) (do
      discard (expect .semicolon)
      let incrementor ← if ← at? .closeParen then pure none else outsideHead (expression inner)
      discard (expect .closeParen)
      let body ← inner .statement
      node (.loop .forLoop initializer test incrementor body) start) (upTo (level + 4)) := fun test =>
    (isSilent_skip _).first fun _ => (isSilent_at? _).first fun _ =>
      .ite ((last test none).given (by simp)) (inside.andThen (last test))
  have rest : ∀ isForIn : Bool, Builds (upTo (level + 3) initializer) (do
      if isForIn then
        let object ← outsideHead (expression inner)
        discard (expect .closeParen)
        let body ← inner .statement
        node (.forIn initializer object body) start
      else
        discard (expect .semicolon)
        let test ← if ← at? .semicolon then pure none else outsideHead (expression inner)
        discard (expect .semicolon)
        let incrementor ← if ← at? .closeParen then pure none else outsideHead (expression inner)
        discard (expect .closeParen)
        let body ← inner .statement
        node (.loop .forLoop initializer test incrementor body) start) (upTo (level + 4)) := by
    intro isForIn
    refine .ite ?_ ?_
    · refine inside.andThen fun object => (isSilent_skip _).first fun _ => body.andThen fun body => ?_
      exact Supports.leveled (.of_plain rfl rfl (by simp [Shape.enclosed, Shape.slots])) start
    · exact (isSilent_skip _).first fun _ => (isSilent_at? _).first fun _ =>
        .ite ((middle none).given (by simp)) (inside.andThen middle)
  exact .ite ((isSilent_accept _).first rest) (rest false)

theorem builds_shortLoop (kind : LoopKind) (test body : Slot) (start : Nat) :
    Builds (upTo (level + 1) test ++ upTo (level + 1) body)
      (node (.loop kind none test none body) start) (upTo (level + 2)) := by
  have known : Builds (upTo (level + 1) none ++ upTo (level + 1) test ++ upTo (level + 1) body)
      (node (.loop kind none test none body) start) (upTo (level + 2)) :=
    Supports.leveled (.of_plain rfl rfl (by simp [Shape.enclosed, Shape.slots])) start
  exact known.given (by simp)

theorem builds_whileStatement (goals : BuildsGoals inner level) :
    Builds [] (whileStatement inner) (upTo (level + 2)) :=
  isSilent_position.first fun start => (isSilent_skip _).first fun _ =>
    (builds_parenthesized goals).andThen fun test =>
      ((goals .statement).raise (Nat.le_succ level)).andThen fun body =>
        builds_shortLoop .whileLoop test body start

theorem builds_doStatement (goals : BuildsGoals inner level) :
    Builds [] (doStatement inner) (upTo (level + 2)) :=
  isSilent_position.first fun start => (isSilent_skip _).first fun _ =>
    ((goals .statement).raise (Nat.le_succ level)).andThen fun body =>
      (isSilent_skip _).first fun _ => (builds_parenthesized goals).andThen fun test =>
        (isSilent_accept _).discarded.first fun _ =>
          (builds_shortLoop .doLoop test body start).mono (by simp)

/-! ## Switches and jumps -/

theorem builds_clauseBody (goals : BuildsGoals inner level) (isDefault : Bool) (label : Slot)
    (start : Nat) : Builds (upTo (level + 1) label) (clauseBody inner isDefault label start)
      (upTo (level + 2)) := by
  refine (isSilent_skip _).first fun _ =>
    (builds_statementList goals (Nat.le_succ level) _).andThen fun statements =>
      Supports.leveled (.of_plain rfl rfl fun slot member => ?_) start
  rcases List.mem_cons.mp member with rfl | listed
  · exact List.mem_append_left _ List.mem_cons_self
  · exact List.mem_append_right _ (mem_noted.mpr ⟨listed, rfl⟩)

theorem builds_switchStatement (goals : BuildsGoals inner level) :
    Builds [] (switchStatement inner) (upTo (level + 3)) := by
  refine isSilent_position.first fun start => (isSilent_skip _).first fun _ =>
    ((builds_parenthesized goals).raise (Nat.le_succ (level + 1))).andThen fun discriminant =>
      (isSilent_skip _).first fun _ => (builds_repeatWhile
        (fun found : Array Slot => noted (.levels (level + 2)) found.toList)
        (List.nil_subset _) fun clauses => ?_).bind fun clauses => (isSilent_skip _).first fun _ => ?_
  · refine (isSilent_atClose _).first fun _ => .ite (builds_pure (by simp)) <|
      isSilent_position.first fun clauseStart => isSilent_token.first fun kind => ?_
    split
    · refine isSilent_advance.first fun _ => (builds_expression goals).outsideHead.andThen fun label => ?_
      refine ((builds_clauseBody goals false label clauseStart).mono (by simp)).bind fun clause => ?_
      exact builds_pure (noted_push (by simp) (by simp))
    · refine isSilent_advance.first fun _ => ?_
      refine ((builds_clauseBody goals true none clauseStart).given (by simp)).bind fun clause => ?_
      exact builds_pure (noted_push (by simp) (by simp))
    · exact (isSilent_report _).first fun _ => isSilent_advance.first fun _ => builds_pure (by simp)
  · refine Supports.leveled (.of_plain rfl rfl fun slot member => ?_) start
    rcases List.mem_cons.mp member with rfl | listed
    · simp
    · exact List.mem_append_right _ (mem_noted.mpr ⟨listed, rfl⟩)

theorem builds_jumpStatement (kind : JumpKind) (level : Nat) :
    Builds [] (jumpStatement kind) (upTo (level + 2)) := by
  refine isSilent_position.first fun start => isSilent_advance.first fun _ =>
    (isSilent_at? _).first fun _ => isSilent_lineBreakBefore.first fun _ => ?_
  have rest : ∀ label : Slot, Builds (being .name (level + 1) label) (do
      endStatement
      node (.jump kind label) start) (upTo (level + 2)) := fun label =>
    isSilent_endStatement.first fun _ =>
      Supports.leveled (.of_plain rfl rfl (by simp [Shape.enclosed, Shape.slots])) start
  exact .ite ((builds_identifier level).andThen rest) ((rest none).given (by simp))

theorem builds_exit (kind : ExitKind) (result : Slot) (start : Nat) :
    Builds (upTo level result) (do
      endStatement
      node (.exit kind result) start) (upTo (level + 1)) :=
  isSilent_endStatement.first fun _ =>
    Supports.leveled (.of_plain rfl rfl (by simp [Shape.enclosed, Shape.slots])) start

theorem builds_returnStatement (goals : BuildsGoals inner level) :
    Builds [] (returnStatement inner) (upTo (level + 2)) := by
  refine isSilent_position.first fun start => isSilent_inFunction.first fun _ => ?_
  have built : Builds [] (do
      advance
      let result ← if ← canEndStatement then pure none else expression inner
      endStatement
      node (.exit .returns result) start) (upTo (level + 2)) :=
    isSilent_advance.first fun _ => isSilent_canEndStatement.first fun _ =>
      .ite ((builds_exit .returns none start).given (by simp))
        ((builds_expression goals).andThen fun result => builds_exit .returns result start)
  exact .ite built ((isSilent_report _).first fun _ => built)

theorem builds_throwStatement (goals : BuildsGoals inner level) :
    Builds [] (throwStatement inner) (upTo (level + 2)) := by
  refine isSilent_position.first fun start => isSilent_advance.first fun _ =>
    isSilent_lineBreakBefore.first fun _ => ?_
  have built : Builds [] (do
      let thrown ← expression inner
      endStatement
      node (.exit .throws thrown) start) (upTo (level + 2)) :=
    (builds_expression goals).andThen fun thrown => builds_exit .throws thrown start
  exact .ite ((isSilent_report _).first fun _ => built) built

/-! ## Handlers -/

theorem builds_catchClause (goals : BuildsGoals inner level) :
    Builds [] (catchClause inner) (upTo (level + 2)) := by
  refine isSilent_position.first fun start => isSilent_advance.first fun _ => (isSilent_skip _).first
    fun _ => (builds_bindingIdentifier level).andThen fun name => (isSilent_skip _).first fun _ =>
      (builds_block goals).andThen fun body => Supports.leveled ⟨List.forall_mem_nil _, ?_, ?_⟩ start
  · simp [Shape.enclosed, Shape.slots]
  · simp [Shape.demands]

theorem builds_tryStatement (goals : BuildsGoals inner level) :
    Builds [] (tryStatement inner) (upTo (level + 3)) := by
  have block : Builds [] (block inner) (upTo (level + 2)) :=
    ((builds_block goals).less fun _ => by simp : Builds [] (block inner) (upTo (level + 1))).raise
      (Nat.le_succ (level + 1))
  refine isSilent_position.first fun start => (isSilent_skip _).first fun _ =>
    block.andThen fun body => (isSilent_at? _).first fun _ => ?_
  have last : ∀ handler finalizer : Slot, Builds (upTo (level + 2) body ++
      upTo (level + 2) handler ++ upTo (level + 2) finalizer) (do
        if handler.isNone && finalizer.isNone then report .handlerExpected
        node (.tryStatement body handler finalizer) start) (upTo (level + 3)) := by
    intro handler finalizer
    have built : Builds (upTo (level + 2) body ++ upTo (level + 2) handler ++
        upTo (level + 2) finalizer) (node (.tryStatement body handler finalizer) start)
        (upTo (level + 3)) :=
      Supports.leveled (.of_plain rfl rfl (by simp [Shape.enclosed, Shape.slots])) start
    exact .ite ((isSilent_report _).first fun _ => built) built
  have rest : ∀ handler : Slot, Builds (upTo (level + 2) body ++ upTo (level + 2) handler) (do
      let finalizer ← if ← accept .finallyKeyword then Parser.block inner else pure none
      if handler.isNone && finalizer.isNone then report .handlerExpected
      node (.tryStatement body handler finalizer) start) (upTo (level + 3)) := fun handler =>
    (isSilent_accept _).first fun _ => .ite (block.andThen (last handler))
      ((last handler none).given (by simp))
  exact .ite ((builds_catchClause goals).andThen rest) ((rest none).given (by simp))

theorem builds_statement (goals : BuildsGoals inner level) :
    Builds [] (statement inner) (upTo (level + 5)) := by
  have leaf : ∀ {known : List Note} {shape : Shape} (start : Nat), shape.linked = [] →
      shape.demands = [] → shape.enclosed = [] → Builds known (node shape start) (upTo (level + 5)) :=
    fun start linked demands empty => Supports.leveled
      (.of_plain linked demands (by rw [empty]; exact List.forall_mem_nil _)) start
  have nothing : Builds [] (do
      report .statementExpected
      return none) (upTo (level + 5)) := (isSilent_report _).first fun _ => builds_none (by simp)
  have declared : Builds [] (variableStatement inner) (upTo (level + 5)) :=
    isSilent_position.first fun start =>
      (builds_declarationList goals true isSilent_endStatement start).raise (by omega)
  refine isSilent_token.first fun kind => ?_
  split
  · exact ((builds_block goals).less fun _ => by simp :
      Builds [] (block inner) (upTo (level + 1))).raise (by omega)
  · exact isSilent_position.first fun start => isSilent_advance.first fun _ => leaf start rfl rfl rfl
  · exact declared
  · exact declared
  · exact declared
  · exact (builds_functionDeclaration goals).raise (by omega)
  · exact (builds_conditionalStatement goals).raise (by omega)
  · exact (builds_forStatement goals).raise (by omega)
  · exact (builds_whileStatement goals).raise (by omega)
  · exact (builds_doStatement goals).raise (by omega)
  · exact (builds_switchStatement goals).raise (by omega)
  · exact (builds_jumpStatement .breaks level).raise (by omega)
  · exact (builds_jumpStatement .continues level).raise (by omega)
  · exact (builds_returnStatement goals).raise (by omega)
  · exact (builds_throwStatement goals).raise (by omega)
  · exact (builds_tryStatement goals).raise (by omega)
  · exact isSilent_position.first fun start => isSilent_advance.first fun _ =>
      isSilent_endStatement.first fun _ => leaf start rfl rfl rfl
  · exact isSilent_peek.first fun _ => .ite ((builds_labeledStatement goals).raise (by omega))
      ((builds_expressionStatement goals).raise (by omega))
  · exact nothing
  · exact nothing
  · exact nothing
  · exact nothing
  · exact nothing
  · exact nothing
  · exact (builds_expressionStatement goals).raise (by omega)

end Statements

/-- What may nest once more is five levels deeper. -/
theorem grammar_buildsGoals (depth : Nat) : BuildsGoals (grammar depth) (5 * depth) := by
  induction depth with
  | zero => exact fun _ => (isSilent_report _).first fun _ => builds_none (by simp)
  | succ depth ih =>
    rw [Nat.mul_succ]
    intro goal
    cases goal with
    | statement => exact builds_statement ih
    | assignment => exact builds_assignment ih
    | prefixed => exact builds_prefixedOperand ih

theorem builds_file : Builds [] (do
    advance
    statementList (grammar maxDepth) (· == .endOfFile)) (noted (.levels (5 * maxDepth))) :=
  isSilent_advance.first fun _ =>
    builds_statementList (grammar_buildsGoals maxDepth) (Nat.le_refl _) _

end Parser

/-- The statements of a program nest no deeper than the grammar, and its nodes are what their places
ask for. -/
theorem parse_builds (text : List Char) : (parse text).store.IsProper ∧
    (parse text).store.IsShallow (5 * Parser.maxDepth + 1) (some (parse text).root) := by
  obtain ⟨-, proper, knows⟩ :=
    Parser.builds_file (Parser.initial text) Store.isProper_empty (List.forall_mem_nil _)
  dsimp only [parse]
  generalize (do
      Parser.advance
      Parser.statementList (Parser.grammar Parser.maxDepth) (· == .endOfFile) :
        Parser (List Slot)) (Parser.initial text) = result at proper knows
  obtain ⟨statements, state⟩ := result
  refine ⟨proper.add (List.forall_mem_nil _) _ _ _, ?_⟩
  refine .node ((Store.shape?_add state.store _ _ _ _ _).trans (if_pos rfl)) (List.forall_mem_nil _)
    fun slot member => ?_
  exact Store.IsShallow.carry (knows _ (Parser.mem_noted.mpr ⟨member, rfl⟩)) (Store.keeps_add _ _ _ _ _)

theorem parse_isProper (text : List Char) : (parse text).store.IsProper := (parse_builds text).1

/-- A node of a program lies no deeper than eight times as deep as its parts may nest, but for the
steps along chains of operators, member accesses and calls. -/
theorem parse_isShallow (text : List Char) :
    ∃ tree, (parse text).store.Stands (parse text).root tree ∧
      ∀ (part : Tree) (depth : Nat), part.root.isSome → part.IsAtDepth tree depth →
        ∃ nested linked, part.LiesAt tree nested linked ∧ depth = nested + linked ∧
          nested ≤ 8 * Parser.maxDepth := by
  obtain ⟨tree, stands⟩ := parse_stands text
  refine ⟨tree, stands, fun part depth present deep => ?_⟩
  obtain ⟨nested, linked, lies, sum⟩ := stands.holds.exists_liesAt deep
  refine ⟨nested, linked, lies, sum, ?_⟩
  have nests := (parse_builds text).2
  rw [← stands.rooted] at nests
  have bound := nests.lt_of_liesAt stands.holds lies present
  omega

end Unflatten
