import Unflatten.Proofs.Parser.Taking
import Unflatten.Proofs.Printer.Spelling

/-! # The levels of expressions

The parsers of expressions stand above one another: assignments, operators by their precedence,
operands, members.  `Parser.Understood` says that on each level that a text fits the parser takes
its lexemes for a tree, as long as the token behind them does not bind tighter than the place
(`TokenKind.reach`).  On two levels operands are gathered in a loop, so there the parser comes to
the loop (`Parser.Reaches`). -/

set_option autoImplicit false

namespace Unflatten

/-- How tightly a token binds what stands in front of it. -/
def TokenKind.reach : TokenKind → Nat
  | .comma => 1
  | .question => Precedence.coalesce
  | .asteriskAsterisk => Precedence.update
  | .plusPlus | .minusMinus | .dot | .openBracket | .openParen => Precedence.member
  | kind => if kind.isAssignment then Precedence.construction else kind.binaryPrecedence?.getD 0

/-- The kind of the first of some lexemes. -/
def nextKind : List Lexeme → TokenKind
  | [] => .endOfFile
  | first :: _ => first.kind

/-- What follows does not bind tighter than a bound. -/
def Yields (bound : Nat) (others : List Lexeme) : Prop := (nextKind others).reach ≤ bound

theorem Yields.mono {bound wider : Nat} {others : List Lexeme} (yields : Yields bound others)
    (le : bound ≤ wider) : Yields wider others := Nat.le_trans yields le

namespace Parser

variable {depth fuel least start bound : Nat} {lexemes others : List Lexeme} {s : ParserState} {store : Store}
  {tree : Tree} {slot : Slot} {allowCall : Bool}

theorem Ahead.next (ahead : Ahead others s) : s.lexer.kind = nextKind others := by
  cases others with
  | nil => exact ahead.feeds.2
  | cons => exact ahead.kind_eq

/-! ## Loops -/

/-- The parser comes to a loop at a slot that stands for a tree. -/
def Reaches (turn : Slot → Parser (Slot × Bool)) (store : Store) (tree : Tree) (others : List Lexeme) :
    Slot × ParserState → Prop :=
  DeepOr fun result after => ∃ fuel slot s, others.length < fuel ∧
    (result, after) = repeatStep turn fuel slot s ∧ Arrives store others [slot] [tree] s

section Loops
variable {turn : Slot → Parser (Slot × Bool)} {outcome : Slot × ParserState} {longer : List Lexeme}
    {larger : Tree}

/-- A turn takes more lexemes. -/
theorem Reaches.goOn (reaches : Reaches turn store tree longer outcome)
    (keeps : ∀ slot, KeepsErrors (turn slot)) (shorter : others.length < longer.length)
    (taken : ∀ slot s, Arrives store longer [slot] [tree] s →
      DeepOr (fun result s' => result.2 = true ∧ Arrives store others [result.1] [larger] s') (turn slot s)) :
    Reaches turn store larger others outcome := by
  rcases reaches with deep | ⟨fuel, slot, s, enough, same, arrives⟩
  · exact .inl deep
  · obtain ⟨fuel, rfl⟩ := Nat.exists_eq_succ_of_ne_zero (Nat.ne_zero_of_lt enough)
    have outcome_eq : outcome = repeatStep turn (fuel + 1) slot s := same
    rw [outcome_eq]
    rcases taken slot s arrives with deep | ⟨more, further⟩
    · refine .inl ?_
      rw [repeatStep, bind_apply]
      exact deep.keep (keepsErrors_ite (keepsErrors_repeatStep keeps fuel _) (keepsErrors_pure _))
    · rw [repeatStep_more more]
      exact .inr ⟨fuel, _, _, by omega, rfl, further⟩

/-- The loop ends where a turn finds nothing more to take. -/
theorem Reaches.stop (reaches : Reaches turn store tree others outcome)
    (ends : ∀ slot s, Ahead others s → turn slot s = ((slot, false), s)) :
    DeepOr (fun slot => Arrives store others [slot] [tree]) outcome := by
  rcases reaches with deep | ⟨fuel, slot, s, enough, same, arrives⟩
  · exact .inl deep
  · obtain ⟨fuel, rfl⟩ := Nat.exists_eq_succ_of_ne_zero (Nat.ne_zero_of_lt enough)
    have outcome_eq : outcome = repeatStep turn (fuel + 1) slot s := same
    rw [outcome_eq, repeatStep, bind_apply, ends slot s arrives.ahead]
    exact .inr arrives

end Loops

/-! ## Members -/

/-- A turn of a chain of members. -/
def memberTurn (inner : Grammar) (start : Nat) (allowCall : Bool) (object : Slot) : Parser (Slot × Bool) := do
  match ← token with
  | .dot =>
    advance
    if (← token).isIdentifierOrKeyword then
      let name ← identifier
      return (← node (.access false object name) start, true)
    else
      report .identifierExpected
      return (object, false)
  | .openBracket =>
    advance
    let argument ← outsideHead (expression inner)
    discard (expect .closeBracket)
    return (← node (.access true object argument) start, true)
  | .openParen =>
    if allowCall then
      let passed ← arguments inner
      return (← node (.call false object passed) start, true)
    else return (object, false)
  | _ => return (object, false)

/-- What a chain of members starts with. -/
def chainHead (inner : Grammar) (fuel : Nat) : Parser Slot := do
  if ← at? .newKeyword then construction inner fuel else primary inner

/-- A chain of members with what it starts with. -/
def chain (inner : Grammar) (fuel : Nat) (allowCall : Bool) : Parser Slot := do
  let start ← position
  let first ← chainHead inner fuel
  if first.isNone then return first
  memberChain inner start allowCall first

theorem leftHandSide_apply (inner : Grammar) (s : ParserState) :
    leftHandSide inner s = chain inner s.limit true s := by
  generalize rest : (fun first : Slot => if first.isNone then pure first
    else memberChain inner s.lexer.start.offset true first : Slot → Parser Slot) = next
  have left : leftHandSide inner s = (if (s.lexer.kind == .newKeyword) = true
      then limit >>= fun bound => construction inner bound >>= next else primary inner >>= next) s := by
    rw [← rest]
    rfl
  have right : chain inner s.limit true s = ((if (s.lexer.kind == .newKeyword) = true
      then construction inner s.limit else primary inner) >>= next) s := by
    rw [← rest]
    rfl
  rw [left, right]
  split <;> rfl

theorem construction_succ (inner : Grammar) (fuel : Nat) :
    construction inner (fuel + 1) = (do
      let start ← position
      discard (expect .newKeyword)
      let callee ← chain inner fuel false
      let passed ← if ← at? .openParen then arguments inner else pure []
      node (.call true callee passed) start) := by
  funext s
  rw [construction]
  unfold chain chainHead
  simp only [bind_assoc]
  refine congrArg (fun next => (position >>= next) s) (funext fun start => ?_)
  refine congrArg _ (funext fun _ => ?_)
  refine congrArg _ (funext fun calleeStart => ?_)
  refine congrArg _ (funext fun found => ?_)
  generalize finished : (fun callee : Slot => (do
    let passed ← if ← at? .openParen then arguments inner else pure []
    node (.call true callee passed) start : Parser Slot)) = finish
  have same : ∀ callee : Slot, (if callee.isSome
      then memberChain inner calleeStart false callee >>= finish else pure callee >>= finish) =
      ((if callee.isNone then pure callee else memberChain inner calleeStart false callee) >>= finish) := by
    intro callee
    cases callee <;> rfl
  cases found with
  | true => exact congrArg (construction inner fuel >>= ·) (funext same)
  | false => exact congrArg (primary inner >>= ·) (funext same)

theorem keepsErrors_memberTurn (depth start : Nat) (allowCall : Bool) (object : Slot) :
    KeepsErrors (memberTurn (grammar depth) start allowCall object) := by
  have goals := grammar_makesPhrases [] depth
  have word : KeepsErrors identifier := fun _ _ there => there
  have made : ∀ shape, KeepsErrors (do return (← node shape start, true)) := fun _ _ _ there => there
  refine looks_token.keepsErrors.bind fun kind => ?_
  split
  · exact keepsErrors_advance.bind fun _ => looks_token.keepsErrors.bind fun _ => keepsErrors_ite
      (word.bind fun _ => made _) ((keepsErrors_report _).bind fun _ => keepsErrors_pure _)
  · exact keepsErrors_advance.bind fun _ => (makes_expression goals).keeps.outsideHead.bind fun _ =>
      (keepsErrors_skip _).bind fun _ => made _
  · exact keepsErrors_ite ((makes_arguments goals).keeps.bind fun _ => made _) (keepsErrors_pure _)
  · exact keepsErrors_pure _

/-- A chain of members ends before what is no member. -/
theorem memberTurn_ends {inner : Grammar} (noDot : nextKind others ≠ .dot)
    (noBracket : nextKind others ≠ .openBracket) (noCall : nextKind others = .openParen → allowCall = false)
    (ahead : Ahead others s) : memberTurn inner start allowCall slot s = ((slot, false), s) := by
  rw [memberTurn, bind_apply]
  dsimp only [token]
  rw [ahead.next]
  generalize nextKind others = kind at noDot noBracket noCall
  cases allowCall with
  | true =>
    split
    · exact absurd rfl noDot
    · exact absurd rfl noBracket
    · exact absurd (noCall rfl) (by decide)
    · rfl
  | false =>
    split
    · exact absurd rfl noDot
    · exact absurd rfl noBracket
    · rfl
    · rfl

/-- What starts a chain leads to its turns. -/
theorem chain_reaches (head : Takes (chainHead (grammar depth) fuel) single [tree] lexemes others)
    (some : tree.root.isSome = true) (ahead : Ahead (lexemes ++ others) s) :
    Reaches (memberTurn (grammar depth) s.lexer.start.offset allowCall) s.store tree others
      (chain (grammar depth) fuel allowCall s) := by
  have keeps : ∀ first, KeepsErrors (if first.isNone then pure first
      else memberChain (grammar depth) s.lexer.start.offset allowCall first : Parser Slot) := fun first =>
    keepsErrors_ite (keepsErrors_pure first) <|
      keepsErrors_repeatWhile (keepsErrors_memberTurn depth _ allowCall) first
  refine looks_position.go (head.then ahead.start keeps fun first s' arrives => ?_)
  exact .ite_neg (arrives.isNone_eq some) (.inr ⟨_, _, _, arrives.ahead.room, rfl, arrives⟩)

/-! ## Operators -/

/-- A turn of a row of operators. -/
def binaryTurn (inner : Grammar) (fuel least start : Nat) (inHead : Bool)
    (left : Slot) : Parser (Slot × Bool) := do
  let operator ← token
  match operator.binaryPrecedence? with
  | none => return (left, false)
  | some own =>
    if own < least || (operator == .inKeyword && inHead) then return (left, false)
    advance
    let right ← binary inner fuel (if operator = .asteriskAsterisk then own else own + 1)
    if right.isNone then report .expressionExpected
    return (← node (.binary left operator right) start, true)

theorem binary_succ (inner : Grammar) (fuel least : Nat) : binary inner (fuel + 1) least = (do
    let start ← position
    let first ← operand inner
    let inHead ← inHead
    repeatStep (binaryTurn inner fuel least start inHead) (← limit) first) := rfl

theorem keepsErrors_binaryTurn (depth fuel least start : Nat) (inHead : Bool) (left : Slot) :
    KeepsErrors (binaryTurn (grammar depth) fuel least start inHead left) := by
  have goals := grammar_makesPhrases [] depth
  refine looks_token.keepsErrors.bind fun operator => ?_
  split
  · exact keepsErrors_pure _
  · have rest : ∀ right, KeepsErrors (do return (← node (.binary left operator right) start, true)) :=
      fun _ _ _ there => there
    exact keepsErrors_ite (keepsErrors_pure _) <| keepsErrors_advance.bind fun _ =>
      (makes_binary goals fuel _).keeps.bind fun right => keepsErrors_ite
        ((keepsErrors_report _).bind fun _ => rest right) (rest right)

/-- An operand leads to the operators behind it. -/
theorem binary_reaches (first : Takes (operand (grammar depth)) single [tree] lexemes others)
    (ahead : Ahead (lexemes ++ others) s) :
    Reaches (binaryTurn (grammar depth) fuel least s.lexer.start.offset false) s.store tree others
      (binary (grammar depth) (fuel + 1) least s) := by
  have keeps : ∀ first, KeepsErrors (do
      let inHead ← inHead
      repeatStep (binaryTurn (grammar depth) fuel least s.lexer.start.offset inHead) (← limit) first) :=
    fun first => looks_inHead.keepsErrors.bind fun inHead =>
      keepsErrors_repeatWhile (keepsErrors_binaryTurn depth fuel least _ inHead) first
  rw [binary_succ]
  refine looks_position.go (first.then ahead.start keeps fun left s' arrives => ?_)
  have outside : (Parser.inHead s').1 = false := arrives.ahead.outside
  refine looks_inHead.go ?_
  rw [outside]
  exact .inr ⟨_, _, _, arrives.ahead.room, rfl, arrives⟩

end Parser

end Unflatten
