import Unflatten.Proofs.Parser.Grammar
import Unflatten.Proofs.Program.Passes
import Unflatten.Proofs.Syntax.Spans
import Unflatten.Proofs.Token.Scanning

/-! # Every text is read to its end

Whatever errors there are, each step of the parser either stays at its token or goes on to a later
place, and no list of children it makes has an empty slot (`Parser.Advances`).  A turn of the list
of statements always goes on, so the list ends at the end of the text, and the file spans all of it
(`parse_wellFormed`). -/

set_option autoImplicit false

namespace Unflatten

namespace Shape

/-- The slots in the lists of a shape.  The others may be empty. -/
def listed : Shape → List Slot
  | .file _ statements | .block statements | .clause _ _ statements => statements
  | .declarationList _ declarations => declarations
  | .function _ _ parameters _ => parameters
  | .switch _ clauses => clauses
  | .elements _ items => items
  | .call _ _ arguments => arguments
  | _ => []

end Shape

/-- No list of children has an empty slot. -/
def Store.IsFull (store : Store) : Prop :=
  ∀ id shape, store.shape? (some id) = some shape → none ∉ shape.listed

theorem Store.IsFull.add {store : Store} (full : store.IsFull) {shape : Shape}
    (listed : none ∉ shape.listed) (flags : Flags) (start stop : Nat) :
    (store.add shape flags start stop).1.IsFull := by
  intro id other found
  rw [shape?_add] at found
  split at found
  · cases found
    exact listed
  · exact full id other found

namespace Parser

/-- The parser stands at a token of a text, and no list in its store has an empty slot. -/
structure IsUnderWay (text : List Char) (s : ParserState) : Prop where
  lexer : s.lexer.IsOn text
  full : s.store.IsFull

/-- The parser is at the same token, or at a later place. -/
def GoesOn (s s' : ParserState) : Prop :=
  (s'.lexer.start = s.lexer.start ∧ s'.lexer.kind = s.lexer.kind) ∨
    s.lexer.start.LeadsBeyond s'.lexer.start

/-- A step that never goes back, makes no list with an empty slot, and gives a certain answer. -/
def Advances {α : Type} (text : List Char) (step : Parser α) (answers : α → Prop) : Prop :=
  ∀ s, IsUnderWay text s → IsUnderWay text (step s).2 ∧ GoesOn s (step s).2 ∧ answers (step s).1

/-- A step that moves nothing and makes nothing. -/
def KeepsPlace {α : Type} (step : Parser α) : Prop :=
  ∀ s, (step s).2.lexer = s.lexer ∧ (step s).2.store = s.store

/-- Nothing is said of an answer. -/
abbrev Anything {α : Type} : α → Prop := fun _ => True

section Combinators
variable {text : List Char} {α β σ : Type} {step : Parser α} {next : α → Parser β}
  {known : α → Prop} {answers : β → Prop} {s s' s'' : ParserState}

theorem GoesOn.refl (s : ParserState) : GoesOn s s := .inl ⟨rfl, rfl⟩

theorem GoesOn.trans (first : GoesOn s s') (second : GoesOn s' s'') : GoesOn s s'' := by
  rcases first with ⟨start, kind⟩ | beyond
  · rcases second with ⟨start', kind'⟩ | beyond
    · exact .inl ⟨start'.trans start, kind'.trans kind⟩
    · exact .inr (start ▸ beyond)
  · rcases second with ⟨start', -⟩ | beyond'
    · exact .inr (start' ▸ beyond)
    · exact .inr (beyond.thenTo beyond'.leads)

theorem advances_pure {result : β} (holds : answers result) :
    Advances text (pure result : Parser β) answers :=
  fun s under => ⟨under, .refl s, holds⟩

theorem bind_apply (step : Parser α) (next : α → Parser β) (s : ParserState) :
    (step >>= next) s = next (step s).1 (step s).2 := rfl

theorem advances_answer (result : β) : Advances text (pure result : Parser β) Anything :=
  advances_pure trivial

theorem Advances.bind (first : Advances text step known)
    (rest : ∀ result, known result → Advances text (next result) answers) :
    Advances text (step >>= next) answers := by
  intro s under
  obtain ⟨under', on, knows⟩ := first s under
  obtain ⟨under'', on', holds⟩ := rest (step s).1 knows (step s).2 under'
  exact ⟨under'', on.trans on', holds⟩

theorem Advances.ite {condition : Prop} [Decidable condition] {first second : Parser β}
    (one : condition → Advances text first answers) (two : ¬condition → Advances text second answers) :
    Advances text (if condition then first else second) answers := by
  split
  · exact one ‹_›
  · exact two ‹_›

theorem Advances.either {condition : Bool} {first second : Parser β}
    (one : Advances text first answers) (two : Advances text second answers) :
    Advances text (if condition then first else second) answers :=
  .ite (fun _ => one) fun _ => two

theorem Advances.forget (advances : Advances text step known) : Advances text step Anything :=
  fun s under => ⟨(advances s under).1, (advances s under).2.1, trivial⟩

theorem KeepsPlace.advances (keeps : KeepsPlace step) : Advances text step Anything := by
  intro s under
  obtain ⟨lexer, store⟩ := keeps s
  refine ⟨⟨lexer ▸ under.lexer, store ▸ under.full⟩, .inl ?_, trivial⟩
  rw [lexer]
  exact ⟨rfl, rfl⟩

theorem KeepsPlace.andThen (keeps : KeepsPlace step)
    (rest : ∀ result, Advances text (next result) answers) : Advances text (step >>= next) answers :=
  keeps.advances.bind fun result _ => rest result

/-- A step whose answer does not matter. -/
theorem Advances.andThen (first : Advances text step known)
    (rest : ∀ result, Advances text (next result) answers) : Advances text (step >>= next) answers :=
  first.bind fun result _ => rest result

theorem Advances.outsideHead (advances : Advances text step known) :
    Advances text (outsideHead step) known := fun s under =>
  have ⟨under', on, holds⟩ := advances { s with inHead := false } ⟨under.lexer, under.full⟩
  ⟨⟨under'.lexer, under'.full⟩, on, holds⟩

theorem Advances.insideHead (advances : Advances text step known) :
    Advances text (insideHead step) known := fun s under =>
  have ⟨under', on, holds⟩ := advances { s with inHead := true } ⟨under.lexer, under.full⟩
  ⟨⟨under'.lexer, under'.full⟩, on, holds⟩

theorem Advances.insideFunction (advances : Advances text step known) :
    Advances text (insideFunction step) known := fun s under =>
  have ⟨under', on, holds⟩ :=
    advances { s with inHead := false, inFunction := true } ⟨under.lexer, under.full⟩
  ⟨⟨under'.lexer, under'.full⟩, on, holds⟩

/-- What each turn keeps holds in the end. -/
theorem advances_repeatStep (holds : σ → Prop) {step : σ → Parser (σ × Bool)}
    (each : ∀ found, holds found → Advances text (step found) fun result => holds result.1)
    (fuel : Nat) (found : σ) (initially : holds found) :
    Advances text (repeatStep step fuel found) holds := by
  induction fuel generalizing found with
  | zero => exact advances_pure initially
  | succ fuel ih =>
    exact (each found initially).bind fun result kept =>
      .ite (fun _ => ih result.1 kept) fun _ => advances_pure kept

theorem keepsPlace_limit : KeepsPlace limit := fun _ => ⟨rfl, rfl⟩

theorem advances_repeatWhile (holds : σ → Prop) {step : σ → Parser (σ × Bool)} {initial : σ}
    (each : ∀ found, holds found → Advances text (step found) fun result => holds result.1)
    (initially : holds initial) : Advances text (repeatWhile initial step) holds :=
  keepsPlace_limit.andThen fun fuel => advances_repeatStep holds each fuel initial initially

end Combinators

/-! ## Tokens and nodes -/

section Tokens
variable {text : List Char}

theorem keepsPlace_token : KeepsPlace token := fun _ => ⟨rfl, rfl⟩

theorem keepsPlace_at? (kind : TokenKind) : KeepsPlace (at? kind) := fun _ => ⟨rfl, rfl⟩

theorem keepsPlace_position : KeepsPlace position := fun _ => ⟨rfl, rfl⟩

theorem keepsPlace_tokenEnd : KeepsPlace tokenEnd := fun _ => ⟨rfl, rfl⟩

theorem keepsPlace_value : KeepsPlace value := fun _ => ⟨rfl, rfl⟩

theorem keepsPlace_lineBreakBefore : KeepsPlace lineBreakBefore := fun _ => ⟨rfl, rfl⟩

theorem keepsPlace_lastEnd : KeepsPlace lastEnd := fun _ => ⟨rfl, rfl⟩

theorem keepsPlace_inHead : KeepsPlace inHead := fun _ => ⟨rfl, rfl⟩

theorem keepsPlace_inFunction : KeepsPlace inFunction := fun _ => ⟨rfl, rfl⟩

theorem keepsPlace_satisfies (slot : Slot) (test : Shape → Bool) : KeepsPlace (satisfies slot test) :=
  fun _ => ⟨rfl, rfl⟩

theorem keepsPlace_canEndStatement : KeepsPlace canEndStatement := fun _ => ⟨rfl, rfl⟩

theorem keepsPlace_peek : KeepsPlace peek := fun s => ⟨s.lexer.restore_scan, rfl⟩

theorem keepsPlace_report (cause : SyntaxError.Cause) : KeepsPlace (report cause) := by
  intro s
  change (reportAt _ _ cause s).2.lexer = _ ∧ (reportAt _ _ cause s).2.store = _
  unfold reportAt
  split <;> exact ⟨rfl, rfl⟩

theorem keepsPlace_atClose (close : TokenKind) : KeepsPlace (atClose close) := fun _ => ⟨rfl, rfl⟩

theorem advances_advance : Advances text advance Anything := by
  intro s under
  refine ⟨⟨under.lexer.scan, under.full⟩, ?_, trivial⟩
  by_cases ended : s.lexer.kind = .endOfFile
  · obtain ⟨start, kind⟩ := under.lexer.scan_ended ended
    exact .inl ⟨start, kind.trans ended.symm⟩
  · exact .inr (under.lexer.scan_beyond ended)

theorem advances_accept (kind : TokenKind) : Advances text (accept kind) Anything :=
  (keepsPlace_at? kind).andThen fun _ =>
    .either (advances_advance.andThen fun _ => advances_answer _) (advances_answer _)

theorem advances_expect (kind : TokenKind) : Advances text (expect kind) Anything :=
  (advances_accept kind).andThen fun _ =>
    .either (advances_answer _) ((keepsPlace_report _).andThen fun _ => advances_answer _)

theorem advances_skip (kind : TokenKind) : Advances text (discard (expect kind)) Anything :=
  advances_expect kind

theorem advances_endStatement : Advances text endStatement Anything :=
  (advances_accept _).andThen fun _ => .either (advances_answer _) <|
    keepsPlace_canEndStatement.andThen fun _ => .either (advances_answer _) (advances_skip _)

theorem advances_nodeAt (shape : Shape) (listed : none ∉ shape.listed) (flags : Flags)
    (start stop : Nat) : Advances text (nodeAt shape flags start stop) (· ≠ none) :=
  fun _ under => ⟨⟨under.lexer, under.full.add listed flags start stop⟩, .refl _,
    Option.some_ne_none _⟩

theorem advances_flagged (shape : Shape) (listed : none ∉ shape.listed) (flags : Flags) (start : Nat) :
    Advances text (flagged shape flags start) (· ≠ none) :=
  keepsPlace_lastEnd.andThen fun _ => advances_nodeAt shape listed flags start _

theorem advances_node (shape : Shape) (listed : none ∉ shape.listed) (start : Nat) :
    Advances text (node shape start) (· ≠ none) := advances_flagged shape listed Flags.none start

/-- A node, whatever becomes of it. -/
theorem advances_marked (shape : Shape) (listed : none ∉ shape.listed) (flags : Flags) (start : Nat) :
    Advances text (flagged shape flags start) Anything := (advances_flagged shape listed flags start).forget

theorem advances_made (shape : Shape) (listed : none ∉ shape.listed) (start : Nat) :
    Advances text (node shape start) Anything := (advances_node shape listed start).forget

theorem advances_identifier : Advances text identifier (· ≠ none) :=
  keepsPlace_position.andThen fun _ => keepsPlace_tokenEnd.andThen fun _ =>
    keepsPlace_value.andThen fun _ => advances_advance.andThen fun _ =>
      advances_nodeAt _ List.not_mem_nil _ _ _

theorem advances_bindingIdentifier : Advances text bindingIdentifier Anything :=
  (keepsPlace_at? _).andThen fun _ => .either advances_identifier.forget
    ((keepsPlace_report _).andThen fun _ => advances_answer _)

theorem advances_literal (kind : LiteralKind) (read : String → Option Float) :
    Advances text (literal kind read) (· ≠ none) :=
  keepsPlace_position.andThen fun _ => keepsPlace_value.andThen fun _ =>
    keepsPlace_tokenEnd.andThen fun _ => advances_advance.andThen fun _ =>
      advances_nodeAt _ List.not_mem_nil _ _ _

/-- A regular expression starts where the slash does. -/
theorem advances_pattern : Advances text (do
    rescanSlash
    let start ← position
    let text ← value
    let stop ← tokenEnd
    advance
    nodeAt (.literal .pattern text none) Flags.none start stop) (· ≠ none) := by
  intro s under
  by_cases slash : s.lexer.kind = .slash ∨ s.lexer.kind = .slashEquals
  · obtain ⟨on, start, kind, -⟩ := under.lexer.rescanSlash slash
    refine ⟨⟨on.scan, under.full.add List.not_mem_nil _ _ _⟩, .inr ?_, Option.some_ne_none _⟩
    have beyond := on.scan_beyond (by rw [kind]; decide)
    rwa [start] at beyond
  · have same : s.lexer.rescanSlash = s.lexer := if_neg slash
    have rest : Advances text (do
        let start ← position
        let text ← value
        let stop ← tokenEnd
        advance
        nodeAt (.literal .pattern text none) Flags.none start stop) (· ≠ none) :=
      advances_literal .pattern fun _ => none
    have still : (rescanSlash s).2 = s := by rw [rescanSlash, same]
    rw [bind_apply, still]
    exact rest s under

end Tokens

/-! ## Expressions -/

/-- A list that grows by full slots. -/
theorem none_notMem_push {found : Array Slot} {slot : Slot} (full : none ∉ found.toList)
    (some : slot ≠ none) : none ∉ (found.push slot).toList := by
  rw [Array.toList_push, List.mem_append, List.mem_singleton]
  exact fun listed => listed.elim full some.symm

/-- Whatever is nested, the parser goes on. -/
def GoalsAdvance (text : List Char) (inner : Grammar) : Prop :=
  ∀ goal, Advances text (inner goal) Anything

section Expressions
variable {text : List Char} {inner : Grammar}

theorem advances_expression (goals : GoalsAdvance text inner) :
    Advances text (expression inner) Anything := by
  refine keepsPlace_position.andThen fun start => (goals .assignment).andThen fun first =>
    (keepsPlace_at? _).andThen fun comma => .ite (fun _ => advances_answer _) fun more => ?_
  have some : first ≠ none := by
    rintro rfl
    exact more rfl
  refine (advances_repeatWhile (fun items : Array Slot => none ∉ items.toList)
    (fun items full => ?_) (by simpa using some.symm)).bind
    fun items full => advances_made (.elements .sequence items.toList) full start
  refine (advances_accept _).andThen fun _ => .either ?_ (advances_pure full)
  refine (goals .assignment).andThen fun item => .ite (fun _ => ?_) fun filled => ?_
  · exact (keepsPlace_report _).andThen fun _ => advances_pure full
  · exact advances_pure (none_notMem_push full (by simpa using filled))

theorem advances_parenthesized (goals : GoalsAdvance text inner) :
    Advances text (parenthesized inner) Anything :=
  (advances_skip _).andThen fun _ => (advances_expression goals).outsideHead.andThen fun _ =>
    (advances_skip _).andThen fun _ => advances_answer _

theorem advances_items {item : Parser Slot} (close : TokenKind)
    (each : Advances text item Anything) : Advances text (items close item) (none ∉ ·) := by
  refine (advances_repeatWhile (fun found : Array Slot => none ∉ found.toList)
    (fun found full => ?_) List.not_mem_nil).bind fun found full => advances_pure full
  refine (keepsPlace_atClose close).andThen fun _ => .either (advances_pure full) ?_
  refine each.andThen fun next => .ite (fun _ => advances_pure full) fun filled => ?_
  exact (advances_accept _).andThen fun _ =>
    advances_pure (none_notMem_push full (by simpa using filled))

theorem advances_arguments (goals : GoalsAdvance text inner) :
    Advances text (arguments inner) (none ∉ ·) :=
  (advances_skip _).andThen fun _ => (advances_items _ (goals .assignment)).outsideHead.bind
    fun _ full => (advances_skip _).andThen fun _ => advances_pure full

theorem advances_arrayLiteral (goals : GoalsAdvance text inner) :
    Advances text (arrayLiteral inner) Anything := by
  refine keepsPlace_position.andThen fun start => (advances_skip _).andThen fun _ => ?_
  refine (Advances.outsideHead (advances_repeatWhile
    (fun result : Array Slot × Bool => none ∉ result.1.toList) ?_ List.not_mem_nil)).bind
    fun result full => (advances_skip _).andThen fun _ => advances_marked (.elements .array result.1.toList) full _ start
  rintro ⟨found, multiLine⟩ full
  refine (keepsPlace_atClose _).andThen fun _ => .either (advances_pure full) ?_
  refine keepsPlace_lineBreakBefore.andThen fun _ => (keepsPlace_at? _).andThen fun _ =>
    .either ?_ ?_
  · exact keepsPlace_position.andThen fun place => (advances_nodeAt _ List.not_mem_nil _ _ _).bind
      fun hole filled => advances_advance.andThen fun _ =>
        advances_pure (none_notMem_push full filled)
  · refine (goals .assignment).andThen fun item => .ite (fun _ => advances_pure full) fun filled => ?_
    exact (advances_accept _).andThen fun _ =>
      advances_pure (none_notMem_push full (by simpa using filled))

theorem advances_propertyName : Advances text propertyName Anything :=
  keepsPlace_token.andThen fun _ =>
    .ite (fun _ => (advances_literal _ _).andThen fun _ => advances_answer _) fun _ =>
    .ite (fun _ => (advances_literal _ _).andThen fun _ => advances_answer _) fun _ =>
    .either (advances_identifier.andThen fun _ => advances_answer _)
      ((keepsPlace_report _).andThen fun _ => advances_answer _)

theorem advances_objectLiteral (goals : GoalsAdvance text inner) :
    Advances text (objectLiteral inner) Anything := by
  refine keepsPlace_position.andThen fun start => (advances_skip _).andThen fun _ => ?_
  refine (advances_repeatWhile (fun result : Array Slot × Bool => none ∉ result.1.toList)
    ?_ List.not_mem_nil).bind fun result full => keepsPlace_lineBreakBefore.andThen fun _ =>
      (advances_skip _).andThen fun _ => advances_marked (.elements .object result.1.toList) full _ start
  rintro ⟨found, multiLine⟩ full
  refine (keepsPlace_atClose _).andThen fun _ => .either (advances_pure full) ?_
  refine keepsPlace_lineBreakBefore.andThen fun _ => keepsPlace_position.andThen fun begin =>
    advances_propertyName.andThen fun name => ?_
  cases name with
  | none => exact advances_pure full
  | some name =>
    refine (advances_expect _).andThen fun _ => .either ?_ (advances_pure full)
    refine (goals .assignment).outsideHead.andThen fun initializer =>
      (advances_node _ List.not_mem_nil begin).bind fun entry filled =>
        (advances_accept _).andThen fun _ => advances_pure (none_notMem_push full filled)

/-! ## Blocks and functions -/

/-- A turn of a list of statements. -/
def statementTurn (inner : Grammar) (isEnd : TokenKind → Bool) (found : Array Slot) :
    Parser (Array Slot × Bool) := do
  let kind ← token
  if isEnd kind || kind == .endOfFile then return (found, false)
  let start ← position
  let next ← inner .statement
  let found := if next.isSome then found.push next else found
  if (← position) == start && (← token) == kind then advance
  return (found, true)

theorem statementList_eq (inner : Grammar) (isEnd : TokenKind → Bool) :
    statementList inner isEnd =
      repeatWhile #[] (statementTurn inner isEnd) >>= fun found => pure found.toList := rfl

theorem advances_statementTurn (goals : GoalsAdvance text inner) (isEnd : TokenKind → Bool)
    (found : Array Slot) (full : none ∉ found.toList) :
    Advances text (statementTurn inner isEnd found) fun result => none ∉ result.1.toList := by
  refine keepsPlace_token.andThen fun kind => .either (advances_pure full) ?_
  refine keepsPlace_position.andThen fun start => (goals .statement).andThen fun next =>
    keepsPlace_position.andThen fun _ => keepsPlace_token.andThen fun _ => ?_
  have pushed : none ∉ (if next.isSome then found.push next else found).toList := by
    split
    · exact none_notMem_push full (Option.isSome_iff_ne_none.mp ‹_›)
    · exact full
  exact .either (advances_advance.andThen fun _ => advances_pure pushed) (advances_pure pushed)

theorem advances_statementList (goals : GoalsAdvance text inner) (isEnd : TokenKind → Bool) :
    Advances text (statementList inner isEnd) (none ∉ ·) := by
  rw [statementList_eq]
  exact (advances_repeatWhile (fun found : Array Slot => none ∉ found.toList)
    (advances_statementTurn goals isEnd) List.not_mem_nil).bind fun found full => advances_pure full

theorem advances_block (goals : GoalsAdvance text inner) : Advances text (block inner) Anything :=
  keepsPlace_position.andThen fun start => (advances_skip _).andThen fun _ =>
    (advances_statementList goals _).bind fun statements full => (advances_skip _).andThen fun _ =>
      advances_made (.block statements) full start

theorem advances_signatureAndBody (goals : GoalsAdvance text inner) :
    Advances text (signatureAndBody inner) fun result => none ∉ result.1 :=
  (advances_skip _).andThen fun _ => (advances_items _ advances_bindingIdentifier).bind
    fun _ full => (advances_skip _).andThen fun _ =>
      (advances_block goals).insideFunction.andThen fun _ => advances_pure full

theorem advances_functionExpression (goals : GoalsAdvance text inner) :
    Advances text (functionExpression inner) Anything := by
  refine keepsPlace_position.andThen fun start => (advances_skip _).andThen fun _ =>
    (keepsPlace_at? _).andThen fun _ => ?_
  have rest : ∀ name, Advances text (do
      let result ← signatureAndBody inner
      node (.function true name result.1 result.2) start) Anything := fun name =>
    (advances_signatureAndBody goals).bind fun result full =>
      advances_made (.function true name result.1 result.2) full start
  exact .either (advances_identifier.andThen rest) ((advances_answer _).andThen rest)

/-! ## Operands -/

theorem advances_primary (goals : GoalsAdvance text inner) :
    Advances text (primary inner) Anything := by
  have keyword : Advances text (do
      let start ← position
      let kind ← token
      let stop ← tokenEnd
      advance
      nodeAt (.token kind) Flags.none start stop) Anything :=
    keepsPlace_position.andThen fun _ => keepsPlace_token.andThen fun _ =>
      keepsPlace_tokenEnd.andThen fun _ => advances_advance.andThen fun _ =>
        (advances_nodeAt _ List.not_mem_nil _ _ _).forget
  refine keepsPlace_token.andThen fun kind => ?_
  split
  · exact advances_identifier.forget
  · exact (advances_literal _ _).forget
  · exact (advances_literal _ _).forget
  · exact advances_pattern.forget
  · exact advances_pattern.forget
  · exact keyword
  · exact keyword
  · exact keyword
  · exact keyword
  · exact advances_parenthesized goals
  · exact advances_arrayLiteral goals
  · exact advances_objectLiteral goals
  · exact advances_functionExpression goals
  · exact (keepsPlace_report _).andThen fun _ => advances_answer _

theorem advances_memberChain (goals : GoalsAdvance text inner) (start : Nat) (allowCall : Bool)
    (first : Slot) : Advances text (memberChain inner start allowCall first) Anything := by
  refine advances_repeatWhile Anything (fun object _ => ?_) trivial
  refine keepsPlace_token.andThen fun kind => ?_
  split
  · refine advances_advance.andThen fun _ => keepsPlace_token.andThen fun _ => .either ?_
      ((keepsPlace_report _).andThen fun _ => advances_answer _)
    exact advances_identifier.andThen fun name =>
      (advances_node _ List.not_mem_nil start).andThen fun _ => advances_answer _
  · exact advances_advance.andThen fun _ => (advances_expression goals).outsideHead.andThen
      fun argument => (advances_skip _).andThen fun _ =>
        (advances_node _ List.not_mem_nil start).andThen fun _ => advances_answer _
  · refine .either ?_ (advances_answer _)
    exact (advances_arguments goals).bind fun passed full =>
      (advances_node (.call false object passed) full start).andThen fun _ => advances_answer _
  · exact advances_answer _

theorem advances_construction (goals : GoalsAdvance text inner) (fuel : Nat) :
    Advances text (construction inner fuel) Anything := by
  induction fuel with
  | zero => exact advances_answer _
  | succ fuel ih =>
    refine keepsPlace_position.andThen fun start => (advances_skip _).andThen fun _ =>
      keepsPlace_position.andThen fun calleeStart => (keepsPlace_at? _).andThen fun _ => ?_
    have applied : ∀ callee, Advances text (do
        let passed ← if ← at? .openParen then arguments inner else pure []
        node (.call true callee passed) start) Anything := fun callee =>
      (keepsPlace_at? _).andThen fun _ => .either
        ((advances_arguments goals).bind fun passed full =>
          advances_made (.call true callee passed) full start)
        (advances_made (.call true callee []) List.not_mem_nil start)
    have reached : ∀ callee, Advances text (do
        let callee ← if callee.isSome then memberChain inner calleeStart false callee
          else pure callee
        let passed ← if ← at? .openParen then arguments inner else pure []
        node (.call true callee passed) start) Anything := fun callee =>
      .either ((advances_memberChain goals _ _ _).andThen applied) (applied callee)
    exact .either (ih.andThen reached) ((advances_primary goals).andThen reached)

theorem advances_leftHandSide (goals : GoalsAdvance text inner) :
    Advances text (leftHandSide inner) Anything := by
  refine keepsPlace_position.andThen fun start => (keepsPlace_at? _).andThen fun _ => ?_
  have rest : ∀ first, Advances text (do
      if first.isNone then return first
      memberChain inner start true first) Anything := fun first =>
    .either (advances_answer _) (advances_memberChain goals _ _ _)
  exact .either (keepsPlace_limit.andThen fun _ => (advances_construction goals _).andThen rest)
    ((advances_primary goals).andThen rest)

theorem advances_updated (goals : GoalsAdvance text inner) :
    Advances text (updated inner) Anything :=
  keepsPlace_position.andThen fun start => (advances_leftHandSide goals).andThen fun _ =>
    keepsPlace_token.andThen fun _ => keepsPlace_lineBreakBefore.andThen fun _ =>
      .either (advances_advance.andThen fun _ => advances_made _ List.not_mem_nil start)
        (advances_answer _)

theorem advances_operand (goals : GoalsAdvance text inner) :
    Advances text (operand inner) Anything :=
  keepsPlace_token.andThen fun _ => .either (goals .prefixed) (advances_updated goals)

theorem advances_prefixedOperand (goals : GoalsAdvance text inner) :
    Advances text (prefixedOperand inner) Anything := by
  refine keepsPlace_position.andThen fun start => keepsPlace_token.andThen fun operator =>
    advances_advance.andThen fun _ => (advances_operand goals).andThen fun inside => ?_
  have made : Advances text (node (.unary false operator inside) start) Anything :=
    advances_made _ List.not_mem_nil start
  exact .either ((keepsPlace_report _).andThen fun _ => made) made

/-! ## Operators -/

theorem advances_binary (goals : GoalsAdvance text inner) (fuel least : Nat) :
    Advances text (binary inner fuel least) Anything := by
  induction fuel generalizing least with
  | zero => exact advances_operand goals
  | succ fuel ih =>
    refine keepsPlace_position.andThen fun start => (advances_operand goals).andThen fun first =>
      keepsPlace_inHead.andThen fun inHead => keepsPlace_limit.andThen fun limit => ?_
    refine advances_repeatStep Anything (fun left _ => ?_) limit first trivial
    refine keepsPlace_token.andThen fun operator => ?_
    split
    · exact advances_answer _
    · refine .either (advances_answer _) (advances_advance.andThen fun _ =>
        (ih _).andThen fun right => ?_)
      have made : Advances text
          (do return (← node (.binary left operator right) start, true)) Anything :=
        (advances_node _ List.not_mem_nil start).andThen fun _ => advances_answer _
      exact .either ((keepsPlace_report _).andThen fun _ => made) made

theorem advances_conditional (goals : GoalsAdvance text inner) :
    Advances text (conditional inner) Anything :=
  keepsPlace_position.andThen fun start => keepsPlace_limit.andThen fun _ =>
    (advances_binary goals _ _).andThen fun _ => (keepsPlace_at? _).andThen fun _ =>
      .either (advances_answer _) <| advances_advance.andThen fun _ =>
        (goals .assignment).outsideHead.andThen fun _ => (advances_skip _).andThen fun _ =>
          (goals .assignment).andThen fun _ => advances_made _ List.not_mem_nil start

theorem advances_assignment (goals : GoalsAdvance text inner) :
    Advances text (assignment inner) Anything := by
  refine keepsPlace_position.andThen fun start => (advances_conditional goals).andThen fun left =>
    keepsPlace_token.andThen fun operator => .either ?_ (advances_answer _)
  have made : Advances text (do
      advance
      let right ← inner .assignment
      node (.binary left operator right) start) Anything :=
    advances_advance.andThen fun _ => (goals .assignment).andThen fun right =>
      advances_made _ List.not_mem_nil start
  exact (keepsPlace_satisfies _ _).andThen fun _ =>
    .either made ((keepsPlace_report _).andThen fun _ => made)

end Expressions

/-! ## Statements -/

section Statements
variable {text : List Char} {inner : Grammar}

theorem advances_expressionStatement (goals : GoalsAdvance text inner) :
    Advances text (expressionStatement inner) Anything :=
  keepsPlace_position.andThen fun start => (advances_expression goals).andThen fun _ =>
    .either (advances_answer _) <| advances_endStatement.andThen fun _ =>
      advances_made _ List.not_mem_nil start

theorem advances_labeledStatement (goals : GoalsAdvance text inner) :
    Advances text (labeledStatement inner) Anything :=
  keepsPlace_position.andThen fun start => advances_identifier.andThen fun _ =>
    (advances_skip _).andThen fun _ => (goals .statement).andThen fun _ =>
      advances_made _ List.not_mem_nil start

theorem advances_variableDeclarations (goals : GoalsAdvance text inner) :
    Advances text (variableDeclarations inner) fun result => none ∉ result.2 := by
  refine keepsPlace_token.andThen fun keyword => advances_advance.andThen fun _ => ?_
  refine (advances_repeatWhile (fun found : Array Slot => none ∉ found.toList)
    (fun found full => ?_) List.not_mem_nil).bind fun found full => advances_pure full
  refine keepsPlace_position.andThen fun start => advances_bindingIdentifier.andThen fun name =>
    (advances_accept _).andThen fun _ => ?_
  have rest : ∀ initializer, Advances text (do
      let entry ← node (.declaration name initializer) start
      return (found.push entry, ← accept .comma)) fun result => none ∉ result.1.toList :=
    fun initializer => (advances_node _ List.not_mem_nil start).bind fun entry filled =>
      (advances_accept _).andThen fun _ => advances_pure (none_notMem_push full filled)
  exact .either ((goals .assignment).andThen rest) ((advances_answer _).andThen rest)

theorem advances_variableStatement (goals : GoalsAdvance text inner) :
    Advances text (variableStatement inner) Anything :=
  keepsPlace_position.andThen fun start => (advances_variableDeclarations goals).bind
    fun result full => advances_endStatement.andThen fun _ => 
      advances_marked (.declarationList true result.2) full _ start

theorem advances_functionDeclaration (goals : GoalsAdvance text inner) :
    Advances text (functionDeclaration inner) Anything :=
  keepsPlace_position.andThen fun start => (advances_skip _).andThen fun _ =>
    advances_bindingIdentifier.andThen fun name => (advances_signatureAndBody goals).bind
      fun result full => advances_made (.function false name result.1 result.2) full start

theorem advances_conditionalStatement (goals : GoalsAdvance text inner) :
    Advances text (conditionalStatement inner) Anything := by
  refine keepsPlace_position.andThen fun start => (advances_skip _).andThen fun _ =>
    (advances_parenthesized goals).andThen fun test => (goals .statement).andThen fun thenBody =>
      (advances_accept _).andThen fun _ => ?_
  have rest : ∀ elseBody, Advances text
      (node (.conditionalStatement test thenBody elseBody) start) Anything := fun elseBody =>
    advances_made _ List.not_mem_nil start
  exact .either ((goals .statement).andThen rest) ((advances_answer _).andThen rest)

theorem advances_loopInitializer (goals : GoalsAdvance text inner) :
    Advances text (loopInitializer inner) Anything := by
  have declared : Advances text (do
      let start ← position
      let declared ← variableDeclarations inner
      flagged (.declarationList false declared.2) declared.1 start) Anything :=
    keepsPlace_position.andThen fun start => (advances_variableDeclarations goals).bind
      fun result full => advances_marked (.declarationList false result.2) full _ start
  refine keepsPlace_token.andThen fun kind => ?_
  split
  · exact declared
  · exact declared
  · exact declared
  · exact advances_answer _
  · exact advances_expression goals

theorem advances_forStatement (goals : GoalsAdvance text inner) :
    Advances text (forStatement inner) Anything := by
  refine keepsPlace_position.andThen fun start => (advances_skip _).andThen fun _ =>
    (advances_skip _).andThen fun _ => (advances_loopInitializer goals).insideHead.andThen
      fun initializer => ?_
  have within : ∀ close : TokenKind, ∀ {next : Slot → Parser Slot},
      (∀ part, Advances text (next part) Anything) → Advances text (do
        let part ← if ← at? close then pure none else outsideHead (expression inner)
        next part) Anything := fun close next rest =>
    (keepsPlace_at? _).andThen fun _ => .either ((advances_answer _).andThen rest)
      ((advances_expression goals).outsideHead.andThen rest)
  have rest : ∀ isForIn : Bool, Advances text (do
      if isForIn then
        let object ← outsideHead (expression inner)
        discard (expect .closeParen)
        let body ← inner .statement
        node (.forIn initializer object body) start
      else
        discard (expect .semicolon)
        let test ← if ← at? .semicolon then pure none else outsideHead (expression inner)
        discard (expect .semicolon)
        let incrementor ← if ← at? .closeParen then pure none else outsideHead (expression inner)
        discard (expect .closeParen)
        let body ← inner .statement
        node (.loop .forLoop initializer test incrementor body) start) Anything := by
    intro isForIn
    refine .either ?_ ?_
    · exact (advances_expression goals).outsideHead.andThen fun object =>
        (advances_skip _).andThen fun _ => (goals .statement).andThen fun body =>
          advances_made _ List.not_mem_nil start
    · exact (advances_skip _).andThen fun _ => within _ fun test =>
        (advances_skip _).andThen fun _ => within _ fun incrementor =>
          (advances_skip _).andThen fun _ => (goals .statement).andThen fun body =>
            advances_made _ List.not_mem_nil start
  exact .either ((advances_accept _).andThen rest) (rest false)

theorem advances_whileStatement (goals : GoalsAdvance text inner) :
    Advances text (whileStatement inner) Anything :=
  keepsPlace_position.andThen fun start => (advances_skip _).andThen fun _ =>
    (advances_parenthesized goals).andThen fun _ => (goals .statement).andThen fun _ =>
      advances_made _ List.not_mem_nil start

theorem advances_doStatement (goals : GoalsAdvance text inner) :
    Advances text (doStatement inner) Anything :=
  keepsPlace_position.andThen fun start => (advances_skip _).andThen fun _ =>
    (goals .statement).andThen fun _ => (advances_skip _).andThen fun _ =>
      (advances_parenthesized goals).andThen fun _ => (advances_accept _).andThen fun _ =>
        advances_made _ List.not_mem_nil start

theorem advances_clauseBody (goals : GoalsAdvance text inner) (isDefault : Bool) (label : Slot)
    (start : Nat) : Advances text (clauseBody inner isDefault label start) (· ≠ none) :=
  (advances_skip _).andThen fun _ => (advances_statementList goals _).bind fun statements full =>
    advances_node (.clause isDefault label statements) full start

theorem advances_switchStatement (goals : GoalsAdvance text inner) :
    Advances text (switchStatement inner) Anything := by
  refine keepsPlace_position.andThen fun start => (advances_skip _).andThen fun _ =>
    (advances_parenthesized goals).andThen fun discriminant => (advances_skip _).andThen fun _ => ?_
  refine (advances_repeatWhile (fun found : Array Slot => none ∉ found.toList)
    (fun clauses full => ?_) List.not_mem_nil).bind fun clauses full =>
      (advances_skip _).andThen fun _ => advances_made (.switch discriminant clauses.toList) full start
  refine (keepsPlace_atClose _).andThen fun _ => .either (advances_pure full) <|
    keepsPlace_position.andThen fun clauseStart => keepsPlace_token.andThen fun kind => ?_
  split
  · exact advances_advance.andThen fun _ => (advances_expression goals).outsideHead.andThen
      fun label => (advances_clauseBody goals false label clauseStart).bind fun clause filled =>
        advances_pure (none_notMem_push full filled)
  · exact advances_advance.andThen fun _ =>
      (advances_clauseBody goals true none clauseStart).bind fun clause filled =>
        advances_pure (none_notMem_push full filled)
  · exact (keepsPlace_report _).andThen fun _ => advances_advance.andThen fun _ => advances_pure full

theorem advances_jumpStatement (kind : JumpKind) : Advances text (jumpStatement kind) Anything := by
  refine keepsPlace_position.andThen fun start => advances_advance.andThen fun _ =>
    (keepsPlace_at? _).andThen fun _ => keepsPlace_lineBreakBefore.andThen fun _ => ?_
  have rest : ∀ label, Advances text (do
      endStatement
      node (.jump kind label) start) Anything := fun label =>
    advances_endStatement.andThen fun _ => advances_made _ List.not_mem_nil start
  exact .either (advances_identifier.andThen rest) ((advances_answer _).andThen rest)

theorem advances_returnStatement (goals : GoalsAdvance text inner) :
    Advances text (returnStatement inner) Anything := by
  refine keepsPlace_position.andThen fun start => keepsPlace_inFunction.andThen fun _ => ?_
  have rest : ∀ result, Advances text (do
      endStatement
      node (.exit .returns result) start) Anything := fun result =>
    advances_endStatement.andThen fun _ => advances_made _ List.not_mem_nil start
  have made : Advances text (do
      advance
      let result ← if ← canEndStatement then pure none else expression inner
      endStatement
      node (.exit .returns result) start) Anything :=
    advances_advance.andThen fun _ => keepsPlace_canEndStatement.andThen fun _ =>
      .either ((advances_answer _).andThen rest) ((advances_expression goals).andThen rest)
  exact .either made ((keepsPlace_report _).andThen fun _ => made)

theorem advances_throwStatement (goals : GoalsAdvance text inner) :
    Advances text (throwStatement inner) Anything := by
  refine keepsPlace_position.andThen fun start => advances_advance.andThen fun _ =>
    keepsPlace_lineBreakBefore.andThen fun _ => ?_
  have made : Advances text (do
      let thrown ← expression inner
      endStatement
      node (.exit .throws thrown) start) Anything :=
    (advances_expression goals).andThen fun thrown => advances_endStatement.andThen fun _ =>
      advances_made _ List.not_mem_nil start
  exact .either ((keepsPlace_report _).andThen fun _ => made) made

theorem advances_catchClause (goals : GoalsAdvance text inner) :
    Advances text (catchClause inner) Anything :=
  keepsPlace_position.andThen fun start => advances_advance.andThen fun _ =>
    (advances_skip _).andThen fun _ => advances_bindingIdentifier.andThen fun _ =>
      (advances_skip _).andThen fun _ => (advances_block goals).andThen fun _ =>
        advances_made _ List.not_mem_nil start

theorem advances_tryStatement (goals : GoalsAdvance text inner) :
    Advances text (tryStatement inner) Anything := by
  refine keepsPlace_position.andThen fun start => (advances_skip _).andThen fun _ =>
    (advances_block goals).andThen fun body => (keepsPlace_at? _).andThen fun _ => ?_
  have last : ∀ handler finalizer, Advances text (do
      if handler.isNone && finalizer.isNone then report .handlerExpected
      node (.tryStatement body handler finalizer) start) Anything := by
    intro handler finalizer
    have made : Advances text (node (.tryStatement body handler finalizer) start) Anything :=
      advances_made _ List.not_mem_nil start
    exact .either ((keepsPlace_report _).andThen fun _ => made) made
  have rest : ∀ handler, Advances text (do
      let finalizer ← if ← accept .finallyKeyword then block inner else pure none
      if handler.isNone && finalizer.isNone then report .handlerExpected
      node (.tryStatement body handler finalizer) start) Anything := fun handler =>
    (advances_accept _).andThen fun _ => .either ((advances_block goals).andThen (last handler))
      ((advances_answer _).andThen (last handler))
  exact .either ((advances_catchClause goals).andThen rest) ((advances_answer _).andThen rest)

theorem advances_statement (goals : GoalsAdvance text inner) :
    Advances text (statement inner) Anything := by
  have nothing : Advances text (do
      report .statementExpected
      return none) (Anything (α := Slot)) :=
    (keepsPlace_report _).andThen fun _ => advances_answer _
  refine keepsPlace_token.andThen fun kind => ?_
  split
  · exact advances_block goals
  · exact keepsPlace_position.andThen fun start => advances_advance.andThen fun _ =>
      advances_made _ List.not_mem_nil start
  · exact advances_variableStatement goals
  · exact advances_variableStatement goals
  · exact advances_variableStatement goals
  · exact advances_functionDeclaration goals
  · exact advances_conditionalStatement goals
  · exact advances_forStatement goals
  · exact advances_whileStatement goals
  · exact advances_doStatement goals
  · exact advances_switchStatement goals
  · exact advances_jumpStatement .breaks
  · exact advances_jumpStatement .continues
  · exact advances_returnStatement goals
  · exact advances_throwStatement goals
  · exact advances_tryStatement goals
  · exact keepsPlace_position.andThen fun start => advances_advance.andThen fun _ =>
      advances_endStatement.andThen fun _ => advances_made _ List.not_mem_nil start
  · exact keepsPlace_peek.andThen fun _ =>
      .either (advances_labeledStatement goals) (advances_expressionStatement goals)
  · exact nothing
  · exact nothing
  · exact nothing
  · exact nothing
  · exact nothing
  · exact nothing
  · exact advances_expressionStatement goals

end Statements

theorem grammar_goalsAdvance (text : List Char) (depth : Nat) : GoalsAdvance text (grammar depth) := by
  induction depth with
  | zero => exact fun _ => (keepsPlace_report _).andThen fun _ => advances_answer _
  | succ depth ih =>
    intro goal
    cases goal with
    | statement => exact advances_statement ih
    | assignment => exact advances_assignment ih
    | prefixed => exact advances_prefixedOperand ih

/-! ## Files -/

section Files
variable {text : List Char} {inner : Grammar} {s : ParserState}

/-- A turn at a token that ends the list. -/
theorem statementTurn_ended {isEnd : TokenKind → Bool} (found : Array Slot)
    (ended : (isEnd s.lexer.kind || s.lexer.kind == .endOfFile) = true) :
    statementTurn inner isEnd found s = ((found, false), s) := by
  rw [statementTurn, bind_apply]
  change (if (isEnd s.lexer.kind || s.lexer.kind == TokenKind.endOfFile) = true then _ else _ :
    Parser (Array Slot × Bool)) s = _
  rw [ended]
  rfl

/-- A turn at a token that does not end the list. -/
theorem statementTurn_apply {isEnd : TokenKind → Bool} (found : Array Slot)
    (more : (isEnd s.lexer.kind || s.lexer.kind == .endOfFile) = false) :
    let made := inner .statement s
    statementTurn inner isEnd found s =
      ((if made.1.isSome then found.push made.1 else found, true),
        if made.2.lexer.start.offset == s.lexer.start.offset && made.2.lexer.kind == s.lexer.kind
        then (advance made.2).2 else made.2) := by
  have opened : statementTurn inner isEnd found s =
      (do
        let start ← position
        let next ← inner .statement
        let found := if next.isSome then found.push next else found
        if (← position) == start && (← token) == s.lexer.kind then advance
        return (found, true) : Parser (Array Slot × Bool)) s := by
    unfold statementTurn
    rw [bind_apply]
    change (if (isEnd s.lexer.kind || s.lexer.kind == TokenKind.endOfFile) = true then _ else _ :
      Parser (Array Slot × Bool)) s = _
    rw [if_neg (by rw [more]; exact Bool.false_ne_true)]
    rfl
  rw [opened]
  dsimp only
  generalize still : ((inner .statement s).2.lexer.start.offset == s.lexer.start.offset &&
    (inner .statement s).2.lexer.kind == s.lexer.kind) = stays
  change (if ((inner .statement s).2.lexer.start.offset == s.lexer.start.offset &&
    (inner .statement s).2.lexer.kind == s.lexer.kind) = true then _ else _ :
      Parser (Array Slot × Bool)) _ = _
  rw [still]
  cases stays <;> rfl

/-- At a token, a turn of the statements of a file goes on to a later place. -/
theorem statementTurn_beyond (goals : GoalsAdvance text inner) (under : IsUnderWay text s)
    (more : s.lexer.kind ≠ .endOfFile) (found : Array Slot) :
    (statementTurn inner (· == .endOfFile) found s).1.2 = true ∧
      s.lexer.start.LeadsBeyond (statementTurn inner (· == .endOfFile) found s).2.lexer.start := by
  obtain ⟨under', on, -⟩ := goals .statement s under
  rw [statementTurn_apply found (by simpa using more)]
  refine ⟨rfl, ?_⟩
  simp only
  rcases on with ⟨start, kind⟩ | beyond
  · rw [start, kind, beq_self_eq_true, beq_self_eq_true, Bool.and_self, if_pos rfl, ← start]
    exact under'.lexer.scan_beyond (kind ▸ more)
  · split
    · exact beyond.thenTo under'.lexer.scan_leads
    · exact beyond

theorem repeatStep_more {σ : Type} {step : σ → Parser (σ × Bool)} {fuel : Nat} {found : σ}
    (more : (step found s).1.2 = true) :
    repeatStep step (fuel + 1) found s = repeatStep step fuel (step found s).1.1 (step found s).2 := by
  rw [repeatStep, bind_apply]
  generalize step found s = outcome at more
  obtain ⟨⟨next, again⟩, after⟩ := outcome
  cases more
  rfl

/-- Enough turns reach the end of the text. -/
theorem statementTurns_end (goals : GoalsAdvance text inner) (fuel : Nat) (found : Array Slot)
    (full : none ∉ found.toList) (under : IsUnderWay text s) (enough : s.lexer.start.length < fuel) :
    (repeatStep (statementTurn inner (· == .endOfFile)) fuel found s).2.lexer.kind = .endOfFile := by
  induction fuel generalizing found s with
  | zero => exact absurd enough (Nat.not_lt_zero _)
  | succ fuel ih =>
    by_cases ended : s.lexer.kind = .endOfFile
    · rw [repeatStep, bind_apply, statementTurn_ended found (by rw [ended]; rfl)]
      exact ended
    · obtain ⟨more, beyond⟩ := statementTurn_beyond goals under ended found
      obtain ⟨under', -, full'⟩ := advances_statementTurn goals (· == .endOfFile) found full s under
      have less := beyond.less
      rw [repeatStep_more more]
      exact ih _ full' under' (by omega)

/-- The statements of a file, from its first token on. -/
def fileStatements : Parser (List Slot) := do
  advance
  statementList (grammar maxDepth) (· == .endOfFile)

/-- The parser before the first token of a text is under way. -/
theorem isUnderWay_first (text : List Char) : IsUnderWay text (advance (initial text)).2 := by
  refine ⟨(Lexer.isReady_ofText text).scan, fun id shape found => ?_⟩
  rw [show (advance (initial text)).2.store = Store.empty from rfl, Store.shape?_empty] at found
  cases found

theorem fileStatements_end (text : List Char) :
    IsUnderWay text (fileStatements (initial text)).2 ∧
      (fileStatements (initial text)).2.lexer.kind = .endOfFile ∧
      none ∉ (fileStatements (initial text)).1 := by
  have goals := grammar_goalsAdvance text maxDepth
  obtain ⟨under, -, full⟩ := advances_statementList goals (· == .endOfFile) _ (isUnderWay_first text)
  refine ⟨under, ?_, full⟩
  have within := (isUnderWay_first text).lexer.start.length_le
  exact statementTurns_end goals (text.length + 2) #[] List.not_mem_nil (isUnderWay_first text)
    (Nat.lt_succ_of_le (Nat.le_succ_of_le within))

end Files

end Parser

section Program
variable (text : List Char)

/-- The parser behind the last statement of a file. -/
def lastState : ParserState := (Parser.fileStatements (Parser.initial text)).2

theorem parse_store : (parse text).store = ((lastState text).store.add
    (.file ⟨text, (lastState text).lexer.comments⟩ (Parser.fileStatements (Parser.initial text)).1)
    Flags.none 0 (lastState text).lexer.cursor.offset).1 := rfl

theorem parse_root : (parse text).root = (lastState text).store.nodes.size := rfl

theorem isFull_parse : (parse text).store.IsFull := by
  obtain ⟨under, -, full⟩ := Parser.fileStatements_end text
  rw [parse_store]
  exact Store.IsFull.add under.full (by exact full) _ _ _

theorem span?_parse_root : (parse text).store.span? (parse text).root = some (0, Text.byteCount text) := by
  obtain ⟨under, ended, -⟩ := Parser.fileStatements_end text
  rw [parse_store, parse_root, Store.span?_add, if_pos rfl]
  obtain ⟨front, rest, offset⟩ := under.lexer.leads
  rw [under.lexer.ended.mp ended] at rest
  have last := under.lexer.cursorIsIn.offset_eq (List.append_eq_nil_iff.mp rest.symm).2
  rw [← last]
  rfl

/-- Whatever errors a text has, it is read as a file that spans all of it.  What is reached from the
file is a tree with no node in two slots, every child links to its parent, and no list of children
has an empty slot. -/
theorem parse_wellFormed :
    (∃ comments statements, (parse text).store.shape? (some (parse text).root) =
        some (.file ⟨text, comments⟩ statements)) ∧
      (parse text).store.span? (parse text).root = some (0, Text.byteCount text) ∧
      (∀ id, (parse text).store.Reaches (parse text).root id →
        ∃ shape, (parse text).store.shape? (some id) = some shape ∧ none ∉ shape.listed ∧
          ∀ child, some child ∈ shape.slots → (parse text).store.parent (some child) = some id) ∧
      (parse text).store.IsLinkedTree (parse text).root ∧
      (parse text).store.IsTree (parse text).root := by
  obtain ⟨tree, stands⟩ := parse_stands text
  have file := (Store.shape?_add (lastState text).store (.file ⟨text, (lastState text).lexer.comments⟩
    (Parser.fileStatements (Parser.initial text)).1) Flags.none 0 (lastState text).lexer.cursor.offset
    (lastState text).store.nodes.size).trans (if_pos rfl)
  refine ⟨⟨_, _, file⟩, span?_parse_root text, fun id reached => ?_, stands.isLinkedTree,
    ⟨tree, stands.holds, stands.rooted, stands.nodup⟩⟩
  · have inside := stands.reaches_iff.mp reached
    obtain ⟨part, within, root⟩ := Tree.exists_within inside
    cases stands.holds.within within with
    | nothing => cases root
    | @node name shape below found regular roots links inner =>
      cases root
      exact ⟨shape, found, isFull_parse text id shape found, fun child listed =>
        (stands.holds.slot_mem inside found listed).2⟩

end Program

end Unflatten
