import Unflatten.Proofs.Parser.Lists

/-! # Texts are understood

On every level of expressions the parser takes the lexemes of a tree for that tree
(`Spells.understood`).  A tree that is spelled on one level is understood on all levels below
it, where less is demanded; `IsPrimary`, `IsChain`, `IsUpdated`, `IsOperand`, `IsRow`,
`IsAssignment` and `IsExpression` say what that means on each. -/

set_option autoImplicit false

namespace Unflatten

/-! ## Tokens that do not go on -/

section Tokens
variable {others : List Lexeme} {bound : Nat}

theorem Yields.ne_of_reach {kind : TokenKind} (yields : Yields bound others) (tight : bound < kind.reach) :
    nextKind others ≠ kind := by
  intro same
  rw [Yields, same] at yields
  exact Nat.not_le_of_lt tight yields

theorem reach_of_binaryPrecedence? {kind : TokenKind} {own : Nat}
    (operates : kind.binaryPrecedence? = some own) :
    own ≤ kind.reach := by
  cases kind <;> cases operates <;> decide

/-- An operand that is tight enough to stand in front of an operator is not drawn apart by it. -/
theorem reach_le_of_binaryPrecedence? {kind : TokenKind} {own : Nat}
    (operates : kind.binaryPrecedence? = some own)
    (tight : (if kind = .asteriskAsterisk then Precedence.update else own) ≤ bound) :
    kind.reach ≤ min bound Precedence.construction := by
  cases kind <;> cases operates <;> exact Nat.le_min.mpr ⟨tight, by decide⟩

theorem Yields.noAssignment (yields : Yields bound others) (small : bound < Precedence.construction) :
    (nextKind others).isAssignment = false := by
  refine Bool.eq_false_iff.mpr fun assigns => ?_
  have reach : (nextKind others).reach = Precedence.construction := by
    generalize nextKind others = kind at assigns
    cases kind <;> first | rfl | cases assigns
  rw [Yields, reach] at yields
  exact Nat.not_le_of_lt small yields

theorem Yields.noOperator (yields : Yields bound others) (small : bound < Precedence.coalesce) :
    (nextKind others).binaryPrecedence? = none := by
  cases operates : (nextKind others).binaryPrecedence? with
  | none => rfl
  | some own =>
    have least := (bounds_of_binaryPrecedence? operates).1
    have reach := reach_of_binaryPrecedence? operates
    rw [Yields] at yields
    exact absurd (Nat.le_trans least (Nat.le_trans reach yields)) (Nat.not_le_of_lt small)

end Tokens

/-! ## Targets of assignments -/

theorem Tree.isSome_of_isAssignable {tree : Tree}
    (target : tree.isAssignable = true) : tree.root.isSome = true := by
  cases tree with
  | nothing => cases target
  | node => rfl

/-- What stands for a target of an assignment can be assigned to. -/
theorem Store.Resembles.satisfies_isAssignable {store : Store} {slot : Slot} {tree : Tree}
    (resembles : store.Resembles slot tree) (target : tree.isAssignable = true) :
    store.satisfies slot Parser.isAssignable = true := by
  cases tree with
  | nothing => cases target
  | node id shape below =>
    obtain ⟨found, there, same, -⟩ := resembles
    rw [Store.satisfies, there]
    change Parser.isAssignable found = true
    have alike : ∀ shape : Shape, Parser.isAssignable (shape.withSlots []) = Parser.isAssignable shape := by
      intro shape
      cases shape <;> rfl
    rw [← alike, same, alike]
    exact target

namespace Parser

open Precedence TokenKind

/-! ## The levels -/

/-- An expression without operators, whatever follows. -/
structure IsPrimary (tree : Tree) (lexemes : List Lexeme) : Prop where
  noNew : nextKind lexemes ≠ .newKeyword
  noOperator : isPrefixOperator (nextKind lexemes) = false
  takes : ∀ depth others, Takes (primary (grammar depth)) single [tree] lexemes others

/-- A chain of members, which may go on. -/
structure IsChain (tree : Tree) (lexemes : List Lexeme) : Prop where
  noOperator : isPrefixOperator (nextKind lexemes) = false
  reaches : ∀ depth fuel allowCall others s, lexemes.length < fuel →
    allowCall = true ∨ tree.startsWithCall = false → Ahead (lexemes ++ others) s →
    Reaches (memberTurn (grammar depth) s.lexer.start.offset allowCall) s.store tree others
      (chain (grammar depth) fuel allowCall s)

/-- An operand with what stands behind it. -/
structure IsUpdated (bound : Nat) (tree : Tree) (lexemes : List Lexeme) : Prop where
  noOperator : isPrefixOperator (nextKind lexemes) = false
  takes : ∀ depth others, Yields bound others →
    Takes (updated (grammar depth)) single [tree] lexemes others

/-- An operand with what stands before and behind it. -/
def IsOperand (bound : Nat) (tree : Tree) (lexemes : List Lexeme) : Prop :=
  ∀ depth others, Yields bound others → Takes (operand (grammar depth)) single [tree] lexemes others

/-- A row of operators, which may go on. -/
def IsRow (bound : Nat) (tree : Tree) (lexemes : List Lexeme) : Prop :=
  ∀ depth fuel least others s, least ≤ bound → lexemes.length ≤ fuel → Yields bound others →
    Ahead (lexemes ++ others) s →
    Reaches (binaryTurn (grammar depth) fuel least s.lexer.start.offset false) s.store tree others
      (binary (grammar depth) (fuel + 1) least s)

/-- A conditional expression, or something that binds tighter. -/
def IsConditional (tree : Tree) (lexemes : List Lexeme) : Prop :=
  ∀ depth others, Yields Precedence.assignment others →
    Takes (conditional (grammar depth)) single [tree] lexemes others

/-- An assignment, or something that binds tighter. -/
def IsAssignment (tree : Tree) (lexemes : List Lexeme) : Prop :=
  ∀ depth others, Yields Precedence.assignment others →
    Takes (assignment (grammar depth)) single [tree] lexemes others

/-- Any expression. -/
def IsExpression (tree : Tree) (lexemes : List Lexeme) : Prop :=
  ∀ depth others, Yields Precedence.comma others →
    Takes (expression (grammar depth)) single [tree] lexemes others

/-- A tree is understood on all levels that its place demands. -/
structure Understood (tree : Tree) (least : Nat) (lexemes : List Lexeme) : Prop where
  primary : member < least → IsPrimary tree lexemes
  chain : member ≤ least → IsChain tree lexemes
  operand : unary ≤ least → IsOperand unary tree lexemes
  row : coalesce ≤ least → IsRow (min least Precedence.construction) tree lexemes
  assignment : Precedence.assignment ≤ least → IsAssignment tree lexemes
  expression : IsExpression tree lexemes

section Levels
variable {tree : Tree} {lexemes others : List Lexeme} {bound least fuel depth : Nat} {s : ParserState}

/-! ## From level to level -/

theorem IsPrimary.takes_chainHead (isPrimary : IsPrimary tree lexemes)
    (opens : (nextKind lexemes).opensExpression = true) :
    Takes (chainHead (grammar depth) fuel) single [tree] lexemes others := by
  intro s ahead
  have other : (s.lexer.kind == .newKeyword) = false := by
    rw [ahead.next, nextKind_append opens]
    exact beq_eq_false_iff_ne.mpr isPrimary.noNew
  exact deepOr_at? other (.ite_neg Bool.false_ne_true (isPrimary.takes depth others s ahead))

theorem IsPrimary.isChain (isPrimary : IsPrimary tree lexemes)
    (opens : (nextKind lexemes).opensExpression = true) (some : tree.root.isSome = true) :
    IsChain tree lexemes :=
  ⟨isPrimary.noOperator, fun _ _ _ _ _ _ _ ahead => chain_reaches (isPrimary.takes_chainHead opens) some ahead⟩

theorem IsChain.takes_leftHandSide (isChain : IsChain tree lexemes) (noDot : nextKind others ≠ .dot)
    (noBracket : nextKind others ≠ .openBracket) (noCall : nextKind others ≠ .openParen) :
    Takes (leftHandSide (grammar depth)) single [tree] lexemes others := by
  intro s ahead
  rw [leftHandSide_apply]
  have room := ahead.room
  rw [List.length_append] at room
  exact (isChain.reaches depth s.limit true others s (by omega) (.inl rfl) ahead).stop fun _ _ =>
    memberTurn_ends noDot noBracket fun call => absurd call noCall

/-- What `updated` does behind its operand. -/
theorem keepsErrors_update (start : Nat) (found : Slot) : KeepsErrors (do
    let operator ← token
    if found.isSome && (operator == .plusPlus || operator == .minusMinus) && !(← lineBreakBefore) then
      advance
      node (.unary true operator found) start
    else return found) :=
  looks_token.keepsErrors.bind fun _ => looks_lineBreakBefore.keepsErrors.bind fun _ => keepsErrors_ite
    (keepsErrors_advance.bind fun _ => keepsErrors_node _ _) (keepsErrors_pure found)

theorem IsChain.isUpdated (isChain : IsChain tree lexemes) :
    IsUpdated Precedence.construction tree lexemes := by
  refine ⟨isChain.noOperator, fun depth others yields s ahead => ?_⟩
  have noPlus : nextKind others ≠ .plusPlus := yields.ne_of_reach (by decide)
  have noMinus : nextKind others ≠ .minusMinus := yields.ne_of_reach (by decide)
  refine looks_position.go ((isChain.takes_leftHandSide (yields.ne_of_reach (by decide))
    (yields.ne_of_reach (by decide)) (yields.ne_of_reach (by decide))).then ahead.start
    (keepsErrors_update _) fun found s' arrives => ?_)
  refine deepOr_token arrives.ahead.next (looks_lineBreakBefore.go (.ite_neg ?_ (.inr arrives)))
  rw [beq_eq_false_iff_ne.mpr noPlus, beq_eq_false_iff_ne.mpr noMinus, Bool.or_self, Bool.and_false,
    Bool.false_and]
  exact Bool.false_ne_true

theorem IsUpdated.isOperand (isUpdated : IsUpdated bound tree lexemes)
    (opens : (nextKind lexemes).opensExpression = true) : IsOperand bound tree lexemes := by
  intro depth others yields s ahead
  refine deepOr_token ahead.next (.ite_neg ?_ (isUpdated.takes depth others yields s ahead))
  rw [nextKind_append opens, isUpdated.noOperator]
  exact Bool.false_ne_true

theorem IsOperand.isRow (isOperand : IsOperand bound tree lexemes) : IsRow bound tree lexemes :=
  fun depth _ _ others _ _ _ yields ahead => binary_reaches (isOperand depth others yields) ahead

theorem IsRow.mono {smaller : Nat} (isRow : IsRow bound tree lexemes) (le : smaller ≤ bound) :
    IsRow smaller tree lexemes :=
  fun depth fuel least others s least_le enough yields ahead =>
    isRow depth fuel least others s (Nat.le_trans least_le le) enough (yields.mono le) ahead

/-- A row of operators ends before what binds looser. -/
theorem binaryTurn_ends {inner : Grammar} {start : Nat} {slot : Slot}
    (looser : ∀ own, (nextKind others).binaryPrecedence? = some own → own < least) (ahead : Ahead others s) :
    binaryTurn inner fuel least start false slot s = ((slot, false), s) := by
  rw [binaryTurn, bind_apply]
  have here : (token s).1 = nextKind others := ahead.next
  generalize (token s).1 = operator at here ⊢
  subst here
  cases operates : (nextKind others).binaryPrecedence? with
  | none => rfl
  | some own =>
    have loose : (decide (own < least) || (nextKind others == .inKeyword && false)) = true := by
      rw [decide_eq_true (looser own operates), Bool.true_or]
    dsimp only
    rw [if_pos loose]
    rfl

theorem IsRow.takes_binary (isRow : IsRow bound tree lexemes) (least_le : least ≤ bound)
    (enough : lexemes.length < fuel) (yields : Yields bound others)
    (looser : ∀ own, (nextKind others).binaryPrecedence? = some own → own < least) :
    Takes (binary (grammar depth) fuel least) single [tree] lexemes others := by
  obtain ⟨fuel, rfl⟩ := Nat.exists_eq_succ_of_ne_zero (Nat.ne_zero_of_lt enough)
  intro s ahead
  exact (isRow depth fuel least others s least_le (Nat.le_of_lt_succ enough) yields ahead).stop
    fun _ _ => binaryTurn_ends looser

/-- What `conditional` does behind the condition. -/
theorem keepsErrors_branches (depth start : Nat) (condition : Slot) : KeepsErrors (do
    if condition.isNone || !(← at? .question) then return condition
    advance
    let whenTrue ← outsideHead (grammar depth .assignment)
    discard (expect .colon)
    let whenFalse ← grammar depth .assignment
    node (.conditional condition whenTrue whenFalse) start) :=
  (looks_at? .question).keepsErrors.bind fun _ => keepsErrors_ite (keepsErrors_pure condition) <|
    keepsErrors_advance.bind fun _ => (keepsErrors_grammar depth .assignment).outsideHead.bind fun _ =>
      (keepsErrors_skip _).bind fun _ => (keepsErrors_grammar depth .assignment).bind fun _ => keepsErrors_node _ _

theorem IsRow.takes_conditional (isRow : IsRow bound tree lexemes) (coalesce_le : coalesce ≤ bound)
    (yields : Yields bound others)
    (noOperator : (nextKind others).binaryPrecedence? = none) (noQuestion : nextKind others ≠ .question) :
    Takes (conditional (grammar depth)) single [tree] lexemes others := by
  intro s ahead
  have room := ahead.room
  rw [List.length_append] at room
  have taken : Takes (binary (grammar depth) s.limit coalesce) single [tree] lexemes others :=
    isRow.takes_binary coalesce_le (by omega) yields fun own operates => by
      rw [noOperator] at operates
      cases operates
  refine looks_position.go (looks_limit.go (taken.then ahead.start (keepsErrors_branches depth _)
    fun condition s' arrives => ?_))
  have other : (s'.lexer.kind == .question) = false := by
    rw [arrives.ahead.next]
    exact beq_eq_false_iff_ne.mpr noQuestion
  refine deepOr_at? other (.ite_pos ?_ (.inr arrives))
  rw [Bool.not_false, Bool.or_true]

theorem IsRow.isConditional (isRow : IsRow bound tree lexemes)
    (coalesce_le : coalesce ≤ bound) : IsConditional tree lexemes := fun _ _ yields =>
  isRow.takes_conditional coalesce_le (yields.mono (Nat.le_trans (by decide) coalesce_le))
    (yields.noOperator (by decide)) (yields.ne_of_reach (by decide))

/-- What `assignment` does behind the left side. -/
theorem keepsErrors_right (depth start : Nat) (left : Slot) : KeepsErrors (do
    let operator ← token
    if operator.isAssignment && left.isSome then
      unless ← satisfies left isAssignable do report .assignmentTarget
      advance
      let right ← grammar depth .assignment
      node (.binary left operator right) start
    else return left) := by
  have rest : ∀ operator, KeepsErrors (do
      advance
      let right ← grammar depth .assignment
      node (.binary left operator right) start) := fun operator =>
    keepsErrors_advance.bind fun _ => (keepsErrors_grammar depth .assignment).bind fun _ => keepsErrors_node _ _
  have looks : Looks (satisfies left isAssignable) := fun _ => rfl
  exact looks_token.keepsErrors.bind fun operator => keepsErrors_ite (looks.keepsErrors.bind fun _ =>
    keepsErrors_ite (rest operator) ((keepsErrors_report _).bind fun _ => rest operator)) (keepsErrors_pure left)

theorem IsConditional.isAssignment
    (isConditional : IsConditional tree lexemes) : IsAssignment tree lexemes := by
  intro depth others yields s ahead
  refine looks_position.go ((isConditional depth others yields).then ahead.start (keepsErrors_right depth _)
    fun left s' arrives => ?_)
  refine deepOr_token arrives.ahead.next (.ite_neg ?_ (.inr arrives))
  rw [yields.noAssignment (by decide), Bool.false_and]
  exact Bool.false_ne_true

/-- Where nothing may be nested any more, that is reported. -/
theorem takes_tooDeep (goal : Goal) (made : Slot → List Slot) (trees : List Tree) :
    Takes (grammar 0 goal) made trees lexemes others := by
  intro s ahead
  have cleared : (s.errors.back?.any (·.start == s.lexer.start.offset)) = false := by rw [ahead.clean]; rfl
  have reported : (grammar 0 goal s).2.errors = s.errors.push
      ⟨s.lexer.start.offset, s.lexer.cursor.offset - s.lexer.start.offset, .nestingTooDeep⟩ := by
    change (reportAt _ _ _ s).2.errors = _
    rw [reportAt, if_neg (by rw [cleared]; exact Bool.false_ne_true)]
  exact .inl ⟨_, reported ▸ Array.mem_push_self, rfl⟩

theorem IsAssignment.takes (isAssignment : IsAssignment tree lexemes)
    (yields : Yields Precedence.assignment others) :
    Takes (grammar depth .assignment) single [tree] lexemes others := by
  cases depth with
  | zero => exact takes_tooDeep _ _ _
  | succ depth => exact isAssignment depth others yields

theorem IsAssignment.isExpression (isAssignment : IsAssignment tree lexemes) : IsExpression tree lexemes := by
  intro depth others yields s ahead
  rw [expression_eq]
  refine looks_position.go ((isAssignment.takes (yields.mono (by decide))).then ahead.start
    (keepsErrors_sequence depth _) fun found s' arrives => ?_)
  have other : (s'.lexer.kind == .comma) = false := by
    rw [arrives.ahead.next]
    exact beq_eq_false_iff_ne.mpr (yields.ne_of_reach (by decide))
  refine deepOr_at? other (.ite_pos ?_ (.inr arrives))
  rw [Bool.not_false, Bool.or_true]

/-! ## All levels below -/

theorem IsRow.understood (isRow : IsRow bound tree lexemes) (coalesce_le : coalesce ≤ bound)
    (le : min least Precedence.construction ≤ bound) (operand : unary ≤ least → IsOperand unary tree lexemes)
    (chain : member ≤ least → IsChain tree lexemes) (primary : member < least → IsPrimary tree lexemes) :
    Understood tree least lexemes :=
  have isAssignment : IsAssignment tree lexemes := (isRow.isConditional coalesce_le).isAssignment
  ⟨primary, chain, operand, fun _ => isRow.mono le, fun _ => isAssignment, isAssignment.isExpression⟩

theorem IsOperand.understood (isOperand : IsOperand bound tree lexemes) (unary_le : unary ≤ bound)
    (le : min least Precedence.construction ≤ bound)
    (chain : member ≤ least → IsChain tree lexemes) (primary : member < least → IsPrimary tree lexemes) :
    Understood tree least lexemes :=
  isOperand.isRow.understood (Nat.le_trans (by decide) unary_le) le
    (fun _ depth others yields => isOperand depth others (yields.mono unary_le)) chain primary

theorem IsChain.understood (isChain : IsChain tree lexemes)
    (opens : (nextKind lexemes).opensExpression = true)
    (primary : member < least → IsPrimary tree lexemes) : Understood tree least lexemes :=
  (isChain.isUpdated.isOperand opens).understood (by decide) (Nat.min_le_right _ _) (fun _ => isChain) primary

theorem IsPrimary.understood (isPrimary : IsPrimary tree lexemes)
    (opens : (nextKind lexemes).opensExpression = true) (some : tree.root.isSome = true) :
    Understood tree least lexemes :=
  (isPrimary.isChain opens some).understood opens fun _ => isPrimary

theorem IsConditional.understood (isConditional : IsConditional tree lexemes) (small : least < coalesce) :
    Understood tree least lexemes where
  primary tight := absurd (Nat.lt_trans tight small) (by decide)
  chain tight := absurd (Nat.lt_of_le_of_lt tight small) (by decide)
  operand tight := absurd (Nat.lt_of_le_of_lt tight small) (by decide)
  row tight := absurd small (Nat.not_lt_of_le tight)
  assignment _ := isConditional.isAssignment
  expression := isConditional.isAssignment.isExpression

theorem IsAssignment.understood (isAssignment : IsAssignment tree lexemes) (small : least < coalesce) :
    Understood tree least lexemes where
  primary tight := absurd (Nat.lt_trans tight small) (by decide)
  chain tight := absurd (Nat.lt_of_le_of_lt tight small) (by decide)
  operand tight := absurd (Nat.lt_of_le_of_lt tight small) (by decide)
  row tight := absurd small (Nat.not_lt_of_le tight)
  assignment _ := isAssignment
  expression := isAssignment.isExpression

theorem IsExpression.understood (isExpression : IsExpression tree lexemes)
    (small : least < Precedence.assignment) :
    Understood tree least lexemes where
  primary tight := absurd (Nat.lt_trans tight small) (by decide)
  chain tight := absurd (Nat.lt_of_le_of_lt tight small) (by decide)
  operand tight := absurd (Nat.lt_of_le_of_lt tight small) (by decide)
  row tight := absurd (Nat.lt_of_le_of_lt tight small) (by decide)
  assignment tight := absurd small (Nat.not_lt_of_le tight)
  expression := isExpression

end Levels

/-! ## Operands -/

section Operands
variable {tree index callee : Tree} {lexemes inner others : List Lexeme} {id nameId : NodeId}
    {s : ParserState}
  {first second : Slot} {slots : List Slot} {items : List Spelling} {depth fuel : Nat} {store : Store}

theorem isPrimary_identifier (name : String) : IsPrimary (.node id (.identifier name) []) [⟨.identifier, name⟩] :=
  ⟨show TokenKind.identifier ≠ .newKeyword by decide, rfl, fun _ _ s ahead =>
    deepOr_token ahead.kind_eq (takes_identifier s ahead)⟩

theorem isPrimary_number (digits : String) :
    IsPrimary (.node id (.literal .number digits (Number.readLiteral digits)) []) [⟨.numericLiteral, digits⟩] :=
  ⟨show TokenKind.numericLiteral ≠ .newKeyword by decide, rfl, fun _ _ s ahead =>
    deepOr_token ahead.kind_eq (takes_literal _ _ s ahead)⟩

theorem isPrimary_string (value : String) :
    IsPrimary (.node id (.literal .string value none) []) [⟨.stringLiteral, value⟩] :=
  ⟨show TokenKind.stringLiteral ≠ .newKeyword by decide, rfl, fun _ _ s ahead =>
    deepOr_token ahead.kind_eq (takes_literal _ _ s ahead)⟩

theorem isPrimary_token {kind : TokenKind}
    (word : kind ∈ [thisKeyword, trueKeyword, falseKeyword, nullKeyword]) :
    IsPrimary (.node id (.token kind) []) [kind.lexeme] := by
  have taken : ∀ others, Takes (do
      let start ← position
      let kind ← token
      let stop ← tokenEnd
      advance
      nodeAt (.token kind) Flags.none start stop) single [.node id (.token kind) []] [kind.lexeme] others := by
    intro others s ahead
    refine looks_position.go (deepOr_token ahead.kind_eq (.inr ?_))
    exact ahead.start.advance.nodeAt (.token kind) rfl (by rfl) Flags.none s.lexer.start.offset s.lexer.cursor.offset
  simp only [List.mem_cons, List.not_mem_nil, or_false] at word
  rcases word with rfl | rfl | rfl | rfl <;>
    exact ⟨by decide, rfl, fun _ others s ahead => deepOr_token ahead.kind_eq (taken others s ahead)⟩

theorem IsExpression.grouped (isExpression : IsExpression tree lexemes) :
    IsPrimary tree (openParen.lexeme :: (lexemes ++ [closeParen.lexeme])) := by
  refine ⟨show openParen ≠ .newKeyword by decide, rfl, fun depth others s ahead =>
    deepOr_token ahead.kind_eq ?_⟩
  rw [List.cons_append, List.append_assoc] at ahead
  have taken : Takes (expression (grammar depth)) single [tree] lexemes (closeParen.lexeme :: others) :=
    isExpression depth _ (show closeParen.reach ≤ _ by decide)
  refine deepOr_skip ahead.kind_eq (taken.outsideHead.then ahead.start.advance (fun _ =>
    (keepsErrors_skip _).bind fun _ => keepsErrors_pure _) fun found s' arrives => ?_)
  exact deepOr_skip arrives.ahead.kind_eq (.inr arrives.advance)

theorem isPrimary_array (each : ∀ depth, ∀ entry ∈ items, IsEntry depth entry) :
    IsPrimary (.node id (.elements .array slots) (items.map Spelling.tree))
      (openBracket.lexeme :: (Spelling.listLexemes items ++ [closeBracket.lexeme])) :=
  ⟨show openBracket ≠ .newKeyword by decide, rfl, fun depth _ s ahead =>
    deepOr_token ahead.kind_eq (takes_array (each depth) s ahead)⟩

/-- A turn of a chain finishes with a node. -/
theorem Arrives.turned {slot other : Slot} {more : Tree}
    (arrives : Arrives store others [slot, other] [tree, more] s)
    (isElement : Bool) (start : Nat) :
    DeepOr (fun result s' => result.2 = true ∧
        Arrives store others [result.1] [.node id (.access isElement first second) [tree, more]] s')
      ((do return (← Parser.node (.access isElement slot other) start, true) : Parser (Slot × Bool)) s) :=
  .inr ⟨rfl, arrives.node (Shape.access isElement slot other) rfl (by rfl) start⟩

theorem IsChain.property {name : String} (isChain : IsChain tree lexemes)
    (opens : (nextKind lexemes).opensExpression = true) :
    IsChain (.node id (.access false first second) [tree, .node nameId (.identifier name) []])
      (lexemes ++ [dot.lexeme, ⟨(keyword? name).getD .identifier, name⟩]) := by
  refine ⟨by rw [nextKind_append opens]; exact isChain.noOperator,
    fun depth fuel allowCall others s enough calls ahead => ?_⟩
  rw [List.append_assoc] at ahead
  rw [List.length_append] at enough
  refine (isChain.reaches depth fuel allowCall _ s (by omega) calls ahead).goOn
    (keepsErrors_memberTurn depth _ allowCall) (by simp) fun slot s' arrives => ?_
  have word : ((keyword? name).getD .identifier).isIdentifierOrKeyword = true := by
    cases found : keyword? name with
    | none => rfl
    | some kind => rw [Option.getD_some, isIdentifierOrKeyword, isKeyword_of_keyword? found, Bool.or_true]
  refine deepOr_token arrives.ahead.kind_eq (deepOr_advance (deepOr_token arrives.advance.ahead.kind_eq
    (.ite_pos word (takes_identifier.then arrives.advance (fun _ => ?_) fun _ _ further => further.turned false _))))
  exact (keepsErrors_node _ _).bind fun _ => keepsErrors_pure _

theorem IsChain.element (isChain : IsChain tree lexemes) (opens : (nextKind lexemes).opensExpression = true)
    (isExpression : IsExpression index inner) :
    IsChain (.node id (.access true first second) [tree, index])
      (lexemes ++ openBracket.lexeme :: (inner ++ [closeBracket.lexeme])) := by
  refine ⟨by rw [nextKind_append opens]; exact isChain.noOperator,
    fun depth fuel allowCall others s enough calls ahead => ?_⟩
  rw [List.append_assoc, List.cons_append, List.append_assoc] at ahead
  rw [List.length_append] at enough
  refine (isChain.reaches depth fuel allowCall _ s (by omega) calls ahead).goOn
    (keepsErrors_memberTurn depth _ allowCall) (by simp; omega) fun slot s' arrives => ?_
  have taken : Takes (expression (grammar depth)) single [index] inner (closeBracket.lexeme :: others) :=
    isExpression depth _ (show closeBracket.reach ≤ _ by decide)
  have finish : ∀ argument : Slot, KeepsErrors (do
      discard (expect .closeBracket)
      return (← node (.access true slot argument) s.lexer.start.offset, true)) := fun _ =>
    (keepsErrors_skip _).bind fun _ => (keepsErrors_node _ _).bind fun _ => keepsErrors_pure _
  refine deepOr_token arrives.ahead.kind_eq (deepOr_advance (taken.outsideHead.then arrives.advance finish
    fun argument s'' further => ?_))
  exact deepOr_skip further.ahead.kind_eq (further.advance.turned true _)

theorem IsChain.call (isChain : IsChain callee lexemes) (opens : (nextKind lexemes).opensExpression = true)
    (each : ∀ depth, ∀ item ∈ items, IsItem depth item) :
    IsChain (.node id (.call false first slots) (callee :: items.map Spelling.tree))
      (lexemes ++ openParen.lexeme :: (Spelling.listLexemes items ++ [closeParen.lexeme])) := by
  refine ⟨by rw [nextKind_append opens]; exact isChain.noOperator,
    fun depth fuel allowCall others s enough calls ahead => ?_⟩
  obtain rfl : allowCall = true := calls.resolve_right Bool.noConfusion
  rw [List.append_assoc] at ahead
  rw [List.length_append] at enough
  refine (isChain.reaches depth fuel true _ s (by omega) (.inl rfl) ahead).goOn
    (keepsErrors_memberTurn depth _ true) (by simp; omega) fun slot s' arrives => ?_
  refine deepOr_token arrives.ahead.kind_eq (.ite_pos rfl ((takes_arguments (each depth)).then arrives (fun _ => ?_)
    fun passed s'' further => .inr ⟨rfl, further.node _ rfl (by rfl) _⟩))
  exact (keepsErrors_node _ _).bind fun _ => keepsErrors_pure _

/-- What `construction` does behind the callee. -/
theorem keepsErrors_passed (depth start : Nat) (callee : Slot) : KeepsErrors (do
    let passed ← if ← at? .openParen then arguments (grammar depth) else pure []
    node (.call true callee passed) start) := by
  have goals := grammar_makesPhrases [] depth
  exact (looks_at? .openParen).keepsErrors.bind fun _ => keepsErrors_ite
    ((makes_arguments goals).keeps.bind fun _ => keepsErrors_node _ _)
    ((keepsErrors_pure _).bind fun _ => keepsErrors_node _ _)

/-- A callee that no call is part of. -/
theorem takes_callee (bare : IsPrimary callee lexemes ∨ IsChain callee lexemes ∧ callee.startsWithCall = false)
    (opens : (nextKind lexemes).opensExpression = true) (some : callee.root.isSome = true)
    (enough : lexemes.length < fuel) :
    Takes (chain (grammar depth) fuel false) single [callee] lexemes (openParen.lexeme :: others) := by
  intro s ahead
  have reaches : Reaches (memberTurn (grammar depth) s.lexer.start.offset false) s.store callee
      (openParen.lexeme :: others) (chain (grammar depth) fuel false s) := by
    rcases bare with isPrimary | ⟨isChain, calm⟩
    · exact chain_reaches (isPrimary.takes_chainHead opens) some ahead
    · exact isChain.reaches depth fuel false _ s enough (.inr calm) ahead
  exact reaches.stop fun _ _ => memberTurn_ends (show openParen ≠ .dot by decide)
    (show openParen ≠ .openBracket by decide) fun _ => rfl

theorem isChain_construct (bare : IsPrimary callee lexemes ∨ IsChain callee lexemes ∧ callee.startsWithCall = false)
    (opens : (nextKind lexemes).opensExpression = true) (some : callee.root.isSome = true)
    (each : ∀ depth, ∀ item ∈ items, IsItem depth item) :
    IsChain (.node id (.call true first slots) (callee :: items.map Spelling.tree))
      (newKeyword.lexeme :: (lexemes ++
        openParen.lexeme :: (Spelling.listLexemes items ++ [closeParen.lexeme]))) := by
  refine ⟨rfl, fun depth fuel allowCall others s enough _ ahead => chain_reaches ?_ rfl ahead⟩
  clear ahead
  intro s ahead
  obtain ⟨fuel, rfl⟩ := Nat.exists_eq_succ_of_ne_zero (Nat.ne_zero_of_lt enough)
  refine deepOr_at? (beq_iff_eq.mpr ahead.kind_eq) (.ite_pos rfl ?_)
  rw [construction_succ]
  rw [List.cons_append, List.append_assoc] at ahead
  rw [List.length_cons, List.length_append] at enough
  refine looks_position.go (deepOr_skip ahead.kind_eq ((takes_callee bare opens some (by omega)).then
    ahead.start.advance (keepsErrors_passed depth _) fun found s' arrives => ?_))
  refine deepOr_at? (beq_iff_eq.mpr arrives.ahead.kind_eq) (.ite_pos rfl ((takes_arguments (each depth)).then arrives
    (fun _ => keepsErrors_node _ _) fun passed s'' further => .inr (further.node _ rfl (by rfl) _)))

theorem IsChain.behind {operator : TokenKind} (isChain : IsChain tree lexemes)
    (opens : (nextKind lexemes).opensExpression = true) (some : tree.root.isSome = true)
    (operates : operator = .plusPlus ∨ operator = .minusMinus) :
    IsUpdated update (.node id (.unary true operator first) [tree]) (lexemes ++ [operator.lexeme]) := by
  refine ⟨by rw [nextKind_append opens]; exact isChain.noOperator, fun depth others _ s ahead => ?_⟩
  rw [List.append_assoc] at ahead
  have noMember : operator ≠ .dot ∧ operator ≠ .openBracket ∧ operator ≠ .openParen := by
    rcases operates with rfl | rfl <;> decide
  have taken : Takes (leftHandSide (grammar depth)) single [tree] lexemes (operator.lexeme :: others) :=
    isChain.takes_leftHandSide noMember.1 noMember.2.1 noMember.2.2
  refine looks_position.go (taken.then ahead.start (keepsErrors_update _) fun found s' arrives => ?_)
  refine deepOr_token arrives.ahead.kind_eq (looks_lineBreakBefore.go (.ite_pos ?_
    (deepOr_advance (.inr (arrives.advance.node (Shape.unary true operator found) rfl (by rfl) _)))))
  have filled : found.isSome = true := by
    rw [← Option.not_isNone, Bool.not_eq_true']
    exact Bool.eq_false_iff.mpr (arrives.isNone_eq some)
  have sameLine : (lineBreakBefore s').1 = false := arrives.ahead.sameLine
  rw [filled, sameLine]
  rcases operates with rfl | rfl <;> rfl

theorem IsOperand.before {operator : TokenKind} (isOperand : IsOperand unary tree lexemes)
    (some : tree.root.isSome = true) (operates : isPrefixOperator operator = true) :
    IsOperand unary (.node id (.unary false operator first) [tree]) (operator.lexeme :: lexemes) := by
  intro depth others yields s ahead
  refine deepOr_token ahead.kind_eq (.ite_pos operates ?_)
  cases depth with
  | zero => exact takes_tooDeep _ _ _ s ahead
  | succ depth =>
    have finish : ∀ inside : Slot, KeepsErrors (do
        if inside.isNone then report .expressionExpected
        node (.unary false operator inside) s.lexer.start.offset) := fun _ =>
      keepsErrors_ite ((keepsErrors_report _).bind fun _ => keepsErrors_node _ _) (keepsErrors_node _ _)
    refine looks_position.go (deepOr_token ahead.kind_eq (deepOr_advance ((isOperand depth others yields).then
      ahead.start.advance finish fun inside s' arrives => ?_)))
    exact .ite_neg (arrives.isNone_eq some) (.inr (arrives.node _ rfl (by rfl) _))

end Operands

/-! ## Operators -/

section Operators
variable {left right condition whenTrue whenFalse : Tree} {leftLexemes rightLexemes lexemes trueLexemes
    falseLexemes others : List Lexeme} {id : NodeId} {first second third : Slot} {operator : TokenKind}
  {own leftBound rightBound depth fuel : Nat} {slots : List Slot} {items : List Spelling}

/-- An operator is followed by one that binds looser than its right operand. -/
theorem looser_of_yields (operates : operator.binaryPrecedence? = some own) (yields : Yields own others) :
    ∀ next, (nextKind others).binaryPrecedence? = some next →
      next < if operator = .asteriskAsterisk then own else own + 1 := by
  intro next follows
  have reach := Nat.le_trans (reach_of_binaryPrecedence? follows) yields
  split
  · rename_i power
    rw [power] at operates
    obtain rfl : exponentiation = own := Option.some.inj operates
    refine Nat.lt_of_le_of_ne reach fun same => ?_
    rw [same] at follows
    have again : nextKind others = .asteriskAsterisk := by
      generalize nextKind others = kind at follows
      cases kind <;> first | rfl | cases follows
    rw [Yields, again] at yields
    exact absurd yields (by decide)
  · exact Nat.lt_succ_of_le reach

/-- What a turn of a row does behind the right operand. -/
theorem keepsErrors_joined (start : Nat) (left right : Slot) : KeepsErrors (do
    if right.isNone then report .expressionExpected
    return (← node (.binary left operator right) start, true)) :=
  have rest : KeepsErrors (do return (← node (.binary left operator right) start, true)) :=
    (keepsErrors_node _ _).bind fun _ => keepsErrors_pure _
  keepsErrors_ite ((keepsErrors_report _).bind fun _ => rest) rest

/-- A turn takes an operator with its right operand. -/
theorem deepOr_binaryTurn {least start : Nat} {slot : Slot} {s : ParserState} {store : Store}
    (operates : operator.binaryPrecedence? = some own) (fits : least ≤ own)
    (right_some : right.root.isSome = true)
    (taken : Takes (binary (grammar depth) fuel (if operator = .asteriskAsterisk then own else own + 1)) single
      [right] rightLexemes others)
    (arrives : Arrives store (operator.lexeme :: (rightLexemes ++ others)) [slot] [left] s) :
    DeepOr (fun result s' => result.2 = true ∧
        Arrives store others [result.1] [.node id (.binary first operator second) [left, right]] s')
      (binaryTurn (grammar depth) fuel least start false slot s) := by
  have tight : ¬(decide (own < least) || (operator == .inKeyword && false)) = true := by
    rw [Bool.and_false, Bool.or_false, decide_eq_true_eq]
    exact Nat.not_lt_of_le fits
  refine deepOr_token arrives.ahead.kind_eq ?_
  dsimp only [TokenKind.lexeme]
  rw [operates]
  refine .ite_neg tight (deepOr_advance (taken.then arrives.advance (keepsErrors_joined start slot)
    fun inside s' further => .ite_neg (further.isNone_eq right_some) (.inr ⟨rfl, ?_⟩)))
  exact further.node (Shape.binary slot operator inside) rfl (by rfl) _

theorem IsRow.joined (isLeft : IsRow leftBound left leftLexemes)
    (isRight : IsRow rightBound right rightLexemes)
    (right_some : right.root.isSome = true) (operates : operator.binaryPrecedence? = some own)
    (leftTight : operator.reach ≤ leftBound)
    (rightTight : (if operator = .asteriskAsterisk then own else own + 1) ≤ rightBound) :
    IsRow own (.node id (.binary first operator second) [left, right])
      (leftLexemes ++ operator.lexeme :: rightLexemes) := by
  intro depth fuel least others s fits enough yields ahead
  rw [List.append_assoc, List.cons_append] at ahead
  rw [List.length_append, List.length_cons] at enough
  have own_le : own ≤ leftBound := Nat.le_trans (reach_of_binaryPrecedence? operates) leftTight
  have own_le_right : own ≤ rightBound := Nat.le_trans (by split <;> omega) rightTight
  have taken : Takes (binary (grammar depth) fuel (if operator = .asteriskAsterisk then own else own + 1)) single
      [right] rightLexemes others :=
    isRight.takes_binary rightTight (by omega) (yields.mono own_le_right) (looser_of_yields operates yields)
  refine (isLeft depth fuel least _ s (Nat.le_trans fits own_le) (by omega)
    (show Yields leftBound (operator.lexeme :: (rightLexemes ++ others)) from leftTight) ahead).goOn
    (keepsErrors_binaryTurn depth fuel least _ false) ?_ fun slot s' arrives =>
      deepOr_binaryTurn operates fits right_some taken arrives
  rw [List.length_cons, List.length_append]
  omega

theorem IsRow.branches {bound : Nat} (isRow : IsRow bound condition lexemes) (coalesce_le : coalesce ≤ bound)
    (some : condition.root.isSome = true) (isTrue : IsAssignment whenTrue trueLexemes)
    (isFalse : IsAssignment whenFalse falseLexemes) :
    IsConditional (.node id (.conditional first second third) [condition, whenTrue, whenFalse])
      (lexemes ++ question.lexeme :: (trueLexemes ++ colon.lexeme :: falseLexemes)) := by
  intro depth others yields s ahead
  rw [List.append_assoc, List.cons_append, List.append_assoc, List.cons_append] at ahead
  have room := ahead.room
  rw [List.length_append] at room
  have taken : Takes (binary (grammar depth) s.limit coalesce) single [condition] lexemes
      (question.lexeme :: (trueLexemes ++ colon.lexeme :: (falseLexemes ++ others))) :=
    isRow.takes_binary coalesce_le (by omega) (show TokenKind.reach .question ≤ _ from coalesce_le)
      fun _ operates => by cases operates
  have takenTrue : Takes (grammar depth .assignment) single [whenTrue] trueLexemes
      (colon.lexeme :: (falseLexemes ++ others)) := isTrue.takes (show colon.reach ≤ _ by decide)
  have takenFalse : Takes (grammar depth .assignment) single [whenFalse] falseLexemes others := isFalse.takes yields
  refine looks_position.go (looks_limit.go (taken.then ahead.start (keepsErrors_branches depth _)
    fun test s' arrives => ?_))
  refine deepOr_at? (beq_iff_eq.mpr arrives.ahead.kind_eq) (.ite_neg ?_ (deepOr_advance ?_))
  · rw [Bool.not_true, Bool.or_false]
    exact arrives.isNone_eq some
  refine takenTrue.outsideHead.then arrives.advance (fun _ => (keepsErrors_skip _).bind fun _ =>
    (keepsErrors_grammar depth .assignment).bind fun _ => keepsErrors_node _ _) fun one s₁ arrives₁ => ?_
  refine deepOr_skip arrives₁.ahead.kind_eq (takenFalse.then arrives₁.advance (fun _ => keepsErrors_node _ _)
    fun other s₂ arrives₂ => .inr ?_)
  exact arrives₂.node (Shape.conditional test one other) rfl (by rfl) _

theorem IsRow.assigned {bound : Nat} (isRow : IsRow bound left leftLexemes)
    (tight : Precedence.construction ≤ bound) (target : left.isAssignable = true)
    (isAssignment : IsAssignment right rightLexemes) (assigns : operator.isAssignment = true) :
    IsAssignment (.node id (.binary first operator second) [left, right])
      (leftLexemes ++ operator.lexeme :: rightLexemes) := by
  intro depth others yields s ahead
  rw [List.append_assoc, List.cons_append] at ahead
  have kinds : operator.binaryPrecedence? = none ∧ operator ≠ .question ∧
      operator.reach = Precedence.construction := by
    cases operator <;> first | decide | cases assigns
  have taken : Takes (conditional (grammar depth)) single [left] leftLexemes
      (operator.lexeme :: (rightLexemes ++ others)) :=
    isRow.takes_conditional (Nat.le_trans (by decide) tight)
      (show operator.reach ≤ bound from kinds.2.2 ▸ tight) kinds.1 kinds.2.1
  have takenRight : Takes (grammar depth .assignment) single [right] rightLexemes others := isAssignment.takes yields
  refine looks_position.go (taken.then ahead.start (keepsErrors_right depth _) fun slot s' arrives => ?_)
  have held : (satisfies slot isAssignable s').1 = true := arrives.resembles.1.satisfies_isAssignable target
  have found : slot.isSome = true := by
    rw [← Option.not_isNone, arrives.resembles.1.isNone_eq (Tree.isSome_of_isAssignable target)]
    rfl
  have looks : Looks (satisfies slot isAssignable) := fun _ => rfl
  refine deepOr_token arrives.ahead.kind_eq (.ite_pos (Bool.and_eq_true_iff.mpr ⟨assigns, found⟩)
    (looks.go (.ite_pos held (deepOr_advance ?_))))
  refine takenRight.then arrives.advance (fun _ => keepsErrors_node _ _) fun value s'' further => .inr ?_
  exact further.node (Shape.binary slot operator value) rfl (by rfl) _

end Operators

end Parser

/-! ## Texts of trees -/

theorem opensExpression_of_isPrefixOperator {kind : TokenKind}
    (operates : Parser.isPrefixOperator kind = true) :
    kind.opensExpression = true := by
  cases kind <;> first | rfl | cases operates

namespace Spells
variable {tree : Tree} {least : Nat} {text : List Char} {lexemes : List Lexeme}

theorem isSome (spells : Spells tree least text lexemes) : tree.root.isSome = true := by
  induction spells with
  | grouped _ ih => exact ih
  | _ => rfl

theorem isHole_eq (spells : Spells tree least text lexemes) : tree.isHole = false := by
  induction spells with
  | grouped _ ih => exact ih
  | _ => rfl

/-- An expression starts with a token that opens one. -/
theorem opens (spells : Spells tree least text lexemes) : (nextKind lexemes).opensExpression = true := by
  induction spells with
  | identifier | number | string | grouped | array | construct => rfl
  | token word =>
    simp only [List.mem_cons, List.not_mem_nil, or_false] at word
    rcases word with rfl | rfl | rfl | rfl <;> rfl
  | property _ _ _ _ _ ih | call _ _ _ _ ih | behind _ _ _ ih =>
    rw [nextKind_append ih]
    exact ih
  | element _ _ _ ih => rwa [nextKind_append ih]
  | before _ operates => exact opensExpression_of_isPrefixOperator operates
  | binary _ _ _ _ _ _ ih | assignment _ _ _ _ _ ih => rwa [nextKind_append ih]
  | conditional _ _ _ _ ih => rwa [nextKind_append ih]
  | @sequence _ _ items _ _ several _ noHoles ih =>
    cases items with
    | nil => cases several
    | cons first rest =>
      have here := ih first List.mem_cons_self
      rwa [Parser.listLexemes_cons noHoles, nextKind_append here]

end Spells

namespace Parser

open Precedence TokenKind

/-- An item of a list that is understood. -/
theorem Understood.isItem {item : Spelling} {depth : Nat}
    (understood : Understood item.tree Precedence.assignment item.lexemes)
    (spells : Spells item.tree Precedence.assignment item.text item.lexemes) : IsItem depth item :=
  ⟨spells.isSome, spells.isHole_eq, spells.opens, fun _ => (understood.assignment (Nat.le_refl _)).takes⟩

/-- On all levels that its place demands, the parser takes the lexemes of a text for the tree. -/
theorem understood {tree : Tree} {least : Nat} {text : List Char} {lexemes : List Lexeme}
    (spells : Spells tree least text lexemes) : Understood tree least lexemes := by
  have opens := spells.opens
  induction spells with
  | identifier => exact (isPrimary_identifier _).understood opens rfl
  | token word => exact (isPrimary_token word).understood opens rfl
  | number => exact (isPrimary_number _).understood opens rfl
  | string => exact (isPrimary_string _).understood opens rfl
  | grouped inside ih => exact (ih inside.opens).expression.grouped.understood opens inside.isSome
  | @array _ _ items _ each holes ih =>
    have entries : ∀ depth, ∀ entry ∈ items, IsEntry depth entry := by
      intro depth entry member
      cases hole : entry.tree.isHole with
      | true => exact .inl ⟨hole, (holes entry member hole).2⟩
      | false =>
        have spelled := each entry member hole
        exact .inr ((ih entry member hole spelled.opens).isItem spelled)
    exact (isPrimary_array entries).understood opens rfl
  | property fits inside tight pointed isName ih =>
    refine IsChain.understood ?_ opens fun tighter => absurd fits (Nat.not_le_of_lt tighter)
    exact ((ih inside.opens).chain tight).property inside.opens
  | element fits inside argument ih ihIndex =>
    refine IsChain.understood ?_ opens fun tighter => absurd fits (Nat.not_le_of_lt tighter)
    exact ((ih inside.opens).chain (Nat.le_refl _)).element inside.opens (ihIndex argument.opens).expression
  | call fits inside each noHoles ih ihEach =>
    refine IsChain.understood ?_ opens fun tighter => absurd fits (Nat.not_le_of_lt tighter)
    exact ((ih inside.opens).chain (Nat.le_refl _)).call inside.opens fun depth item member =>
      (ihEach item member (each item member).opens).isItem (each item member)
  | @construct _ _ _ callee _ _ _ _ lexemes fits inside calm each noHoles ih ihEach =>
    have callee_understood := ih inside.opens
    have bare : IsPrimary callee lexemes ∨ IsChain callee lexemes ∧ callee.startsWithCall = false := by
      rcases calm with rfl | ⟨rfl, calm⟩
      · exact .inl (callee_understood.primary (Nat.lt_succ_self _))
      · exact .inr ⟨callee_understood.chain (Nat.le_refl _), calm⟩
    refine IsChain.understood ?_ opens fun tighter => absurd fits (Nat.not_le_of_lt tighter)
    exact isChain_construct bare inside.opens inside.isSome fun depth item member =>
      (ihEach item member (each item member).opens).isItem (each item member)
  | behind fits operates inside ih =>
    refine IsOperand.understood (IsUpdated.isOperand ?_ opens) (by decide) (Nat.le_trans (Nat.min_le_left _ _) fits)
      (fun tighter => absurd (Nat.le_trans tighter fits) (by decide))
      fun tighter => absurd (Nat.lt_of_lt_of_le tighter fits) (by decide)
    exact ((ih inside.opens).chain (Nat.le_refl _)).behind inside.opens inside.isSome operates
  | before fits operates inside spaced apart ih =>
    refine IsOperand.understood ?_ (Nat.le_refl _) (Nat.le_trans (Nat.min_le_left _ _) fits)
      (fun tighter => absurd (Nat.le_trans tighter fits) (by decide))
      fun tighter => absurd (Nat.lt_of_lt_of_le tighter fits) (by decide)
    exact ((ih inside.opens).operand (Nat.le_refl _)).before inside.isSome operates
  | @binary _ operator _ _ _ _ _ own leftBound rightBound _ _ _ _ operates fits leftInside leftTight rightInside
      rightTight ihLeft ihRight =>
    obtain ⟨least_le, le_most⟩ := bounds_of_binaryPrecedence? operates
    have left_tight := reach_le_of_binaryPrecedence? operates leftTight
    have own_le : own ≤ leftBound := Nat.le_trans (reach_of_binaryPrecedence? operates) (Nat.le_min.mp left_tight).1
    have right_le : own ≤ rightBound := Nat.le_trans (by split <;> omega) rightTight
    have isLeft := (ihLeft leftInside.opens).row (Nat.le_trans least_le own_le)
    have isRight := (ihRight rightInside.opens).row (Nat.le_trans least_le right_le)
    have small : own < Precedence.construction := Nat.lt_of_le_of_lt le_most (by decide)
    have right_tight : (if operator = .asteriskAsterisk then own else own + 1) ≤
        min rightBound Precedence.construction := Nat.le_min.mpr ⟨rightTight, by split <;> omega⟩
    refine IsRow.understood (isLeft.joined isRight rightInside.isSome operates left_tight right_tight) least_le
      (Nat.le_trans (Nat.min_le_left _ _) fits) (fun tighter => ?_) (fun tighter => ?_) fun tighter => ?_
    all_goals exact absurd (Nat.le_trans (Nat.le_trans tighter fits) le_most) (by decide)
  | conditional fits inside trueInside falseInside ih ihTrue ihFalse =>
    refine IsConditional.understood ?_ (Nat.lt_of_le_of_lt fits (by decide))
    exact ((ih inside.opens).row (Nat.le_refl _)).branches (by decide) inside.isSome
      ((ihTrue trueInside.opens).assignment (Nat.le_refl _)) ((ihFalse falseInside.opens).assignment (Nat.le_refl _))
  | assignment assigns fits target leftInside rightInside ihLeft ihRight =>
    refine IsAssignment.understood ?_ (Nat.lt_of_le_of_lt fits (by decide))
    exact ((ihLeft leftInside.opens).row (by decide)).assigned (by decide) target
      ((ihRight rightInside.opens).assignment (Nat.le_refl _)) assigns
  | @sequence _ slots items _ fits several each noHoles ih =>
    have isItem : ∀ depth, ∀ item ∈ items, IsItem depth item := fun depth item member =>
      (ih item member (each item member).opens).isItem (each item member)
    match items, several with
    | first :: second :: rest, _ =>
      refine IsExpression.understood (fun depth others yields => ?_) (Nat.lt_of_le_of_lt fits (by decide))
      exact takes_sequence (isItem depth) yields

end Parser

end Unflatten
