import Unflatten.Proofs.Parser.Understanding
import Unflatten.Proofs.Parser.Verbatim
import Unflatten.Proofs.Printer.Writing

/-! # A text with one expression

The text of an expression with a semicolon behind it is parsed as a file with one statement, which
stands for the tree of the expression (`parse_sentence`). -/

set_option autoImplicit false

namespace Unflatten

open Precedence TokenKind

/-- A name with which some lexemes start has no colon behind it, if none follows them. -/
def HasNoLabel (lexemes : List Lexeme) : Prop :=
  nextKind lexemes = .identifier → ∀ others, nextKind others ≠ .colon → nextKind (lexemes ++ others).tail ≠ .colon

theorem HasNoLabel.append {lexemes more : List Lexeme} (noLabel : HasNoLabel lexemes)
    (opens : (nextKind lexemes).opensExpression = true)
    (next : ∀ others, nextKind others ≠ .colon → nextKind (more ++ others) ≠ .colon) :
    HasNoLabel (lexemes ++ more) := by
  intro named others other
  rw [nextKind_append opens] at named
  rw [List.append_assoc]
  exact noLabel named _ (next others other)

theorem Spells.hasNoLabel {tree : Tree} {least : Nat} {text : List Char} {lexemes : List Lexeme}
    (spells : Spells tree least text lexemes) : HasNoLabel lexemes := by
  induction spells with
  | identifier | number | string | token => exact fun _ _ other => other
  | grouped | array | construct => exact fun named => nomatch named
  | @before _ operator _ _ _ _ _ _ operates =>
    intro named
    have same : operator = .identifier := named
    rw [same] at operates
    cases operates
  | behind _ operates inside ih =>
    exact ih.append inside.opens fun _ _ => by rcases operates with rfl | rfl <;> exact TokenKind.noConfusion
  | property _ inside _ _ _ ih => exact ih.append inside.opens fun _ _ => TokenKind.noConfusion
  | element _ inside _ ih => exact ih.append inside.opens fun _ _ => TokenKind.noConfusion
  | call _ inside _ _ ih => exact ih.append inside.opens fun _ _ => TokenKind.noConfusion
  | binary operates _ inside _ _ _ ih =>
    refine ih.append inside.opens fun _ _ same => ?_
    obtain rfl := same
    cases operates
  | assignment assigns _ _ inside _ ih =>
    refine ih.append inside.opens fun _ _ same => ?_
    obtain rfl := same
    cases assigns
  | conditional _ inside _ _ ih => exact ih.append inside.opens fun _ _ => TokenKind.noConfusion
  | @sequence _ _ items _ _ several each noHoles ih =>
    cases items with
    | nil => cases several
    | cons first rest =>
      rw [Parser.listLexemes_cons noHoles]
      refine (ih first List.mem_cons_self).append (each first List.mem_cons_self).opens fun others other => ?_
      cases rest with
      | nil => exact other
      | cons => exact TokenKind.noConfusion

namespace Parser

section Sentence
variable {tree : Tree} {least : Nat} {text : List Char} {lexemes others : List Lexeme} {id : NodeId}
  {first : Slot} {depth : Nat}

/-- The token behind the first. -/
theorem Ahead.scan_kind {s : ParserState} (ahead : Ahead lexemes s) (filled : lexemes ≠ []) :
    s.lexer.scan.kind = nextKind lexemes.tail := by
  obtain ⟨lexeme, rest, rfl⟩ := List.exists_cons_of_ne_nil filled
  exact ahead.advance.next

theorem keepsErrors_endStatement : KeepsErrors endStatement := by
  refine (keepsErrors_accept _).bind fun ended => ?_
  cases ended with
  | true => exact keepsErrors_pure ()
  | false =>
    exact looks_canEndStatement.keepsErrors.bind fun ended => by
      cases ended with
      | true => exact keepsErrors_pure ()
      | false => exact keepsErrors_skip _

theorem takes_expressionStatement (isExpression : IsExpression tree lexemes)
    (some : tree.root.isSome = true) :
    Takes (expressionStatement (grammar depth)) single [.node id (.expressionStatement first) [tree]]
      (lexemes ++ [semicolon.lexeme]) others := by
  intro s ahead
  rw [List.append_assoc] at ahead
  have taken : Takes (expression (grammar depth)) single [tree] lexemes (semicolon.lexeme :: others) :=
    isExpression depth _ (show semicolon.reach ≤ _ by decide)
  refine looks_position.go (taken.then ahead.start (fun inside => keepsErrors_ite (keepsErrors_pure none) <|
    keepsErrors_endStatement.bind fun _ => keepsErrors_node _ _) fun inside s' arrives => ?_)
  refine .ite_neg (arrives.isNone_eq some) ?_
  have ended : endStatement s' = ((), (advance s').2) := by
    have here : s'.lexer.kind = .semicolon := arrives.ahead.kind_eq
    rw [endStatement, bind_apply, accept_here here]
    rfl
  rw [bind_apply, ended]
  exact .inr (arrives.advance.node (Shape.expressionStatement inside) rfl (by rfl) _)

/-- A statement that starts with an expression and has no label is an expression. -/
theorem statement_apply {inner : Grammar} {s : ParserState} (opens : s.lexer.kind.opensExpression = true)
    (noLabel : s.lexer.kind = .identifier → s.lexer.scan.kind ≠ .colon) :
    statement inner s = expressionStatement inner s := by
  rw [statement, bind_apply]
  dsimp only [token]
  generalize here : s.lexer.kind = kind at opens noLabel
  cases kind
  case identifier =>
    have other : ((peek s).1 == .colon) = false := beq_eq_false_iff_ne.mpr (noLabel rfl)
    dsimp only
    rw [bind_apply, looks_peek s, other]
    rfl
  all_goals first | rfl | cases opens

theorem takes_statement (isExpression : IsExpression tree lexemes) (some : tree.root.isSome = true)
    (opens : (nextKind lexemes).opensExpression = true) (noLabel : HasNoLabel lexemes) :
    Takes (grammar depth .statement) single [.node id (.expressionStatement first) [tree]]
      (lexemes ++ [semicolon.lexeme]) others := by
  cases depth with
  | zero => exact takes_tooDeep _ _ _
  | succ depth =>
    intro s ahead
    have taken : Takes (expressionStatement (grammar depth)) single
        [.node id (.expressionStatement first) [tree]] (lexemes ++ [semicolon.lexeme]) others :=
      takes_expressionStatement isExpression some
    have taken := taken s ahead
    rw [List.append_assoc] at ahead
    have next : s.lexer.kind = nextKind lexemes := by rw [ahead.next, nextKind_append opens]
    have unnamed : s.lexer.kind = .identifier → s.lexer.scan.kind ≠ .colon := by
      intro named
      have second := ahead.scan_kind (List.append_ne_nil_of_right_ne_nil _ (List.cons_ne_nil _ _))
      rw [second]
      exact noLabel (next ▸ named) _ TokenKind.noConfusion
    change DeepOr _ (statement (grammar depth) s)
    rwa [statement_apply (next ▸ opens) unnamed]

/-- A turn of a list of statements takes all that is left. -/
theorem deepOr_statementTurn {s : ParserState}
    (taken : Takes (grammar depth .statement) single [tree] lexemes [])
    (opens : (nextKind lexemes).opensExpression = true) (some : tree.root.isSome = true) (ahead : Ahead lexemes s) :
    DeepOr (fun result s' => result.2 = true ∧ Arrives s.store [] result.1.toList [tree] s')
      (statementTurn (grammar depth) (· == .endOfFile) #[] s) := by
  have begun : s.lexer.kind ≠ .endOfFile := ahead.next ▸ opensExpression_ne opens rfl
  rw [statementTurn_apply #[] (by simpa using begun)]
  rcases taken s (by rwa [List.append_nil]) with deep | arrives
  · refine .inl ?_
    dsimp only
    split
    · exact deep
    · exact deep
  · have moved : ((grammar depth .statement s).2.lexer.kind == s.lexer.kind) = false := by
      rw [arrives.ahead.next]
      exact beq_eq_false_iff_ne.mpr begun.symm
    have filled : (grammar depth .statement s).1.isSome = true := by
      rw [← Option.not_isNone, arrives.resembles.1.isNone_eq some]
      rfl
    rw [moved, filled, Bool.and_false]
    exact .inr ⟨rfl, arrives⟩

/-- A list of statements that is one statement. -/
theorem takes_statementList (taken : Takes (grammar depth .statement) single [tree] lexemes [])
    (opens : (nextKind lexemes).opensExpression = true) (some : tree.root.isSome = true) :
    Takes (statementList (grammar depth) (· == .endOfFile)) (fun slots => slots) [tree] lexemes [] := by
  intro s ahead
  rw [List.append_nil] at ahead
  have keeps : ∀ found, KeepsErrors (statementTurn (grammar depth) (· == .endOfFile) found) := fun found =>
    (@reads_statementTurn [] _ s (grammar_makesPhrases [] depth) _ found).keeps
  have loop : DeepOr (fun found => Arrives s.store [] found.toList [tree])
      (repeatWhile #[] (statementTurn (grammar depth) (· == .endOfFile)) s) := by
    obtain ⟨lexeme, rest, rfl⟩ := List.exists_cons_of_ne_nil (l := lexemes) fun empty => by
      rw [empty] at opens
      cases opens
    obtain ⟨fuel, enough⟩ : ∃ fuel, s.limit = fuel + 2 := by
      have room := ahead.room
      rw [List.length_cons] at room
      exact ⟨s.limit - 2, by omega⟩
    refine looks_limit.go ?_
    change DeepOr _ (repeatStep _ s.limit #[] s)
    rw [enough]
    refine (deepOr_statementTurn taken opens some ahead).again keeps fun result s' ⟨more, arrives⟩ => ⟨more, ?_⟩
    refine .last ?_ keeps
    rw [statementTurn_ended _ (by rw [arrives.ahead.next]; rfl)]
    exact .inr ⟨rfl, arrives⟩
  rw [statementList_eq]
  exact loop.bind (fun _ => keepsErrors_pure _) fun _ _ arrives => .inr arrives

end Sentence

end Parser

/-! ## Files -/

section Files
variable {tree : Tree} {text : List Char} {lexemes : List Lexeme}

/-- A parser before the lexemes of a text. -/
theorem Tokens.ahead (tokens : Tokens text lexemes) :
    Parser.Ahead lexemes (Parser.advance (Parser.initial text)).2 :=
  ⟨tokens.feeds ⟨rfl, rfl, rfl⟩ rfl, rfl, rfl,
    Nat.lt_of_le_of_lt tokens.length_le (Nat.lt_add_of_pos_right (by decide))⟩

/-- Errors of the parser are errors of the file. -/
theorem mem_parse_errors {error : SyntaxError} (there : error ∈ (lastState text).errors) :
    error ∈ (parse text).errors :=
  List.mem_mergeSort.mpr (List.mem_append_left _ (Array.mem_def.mp there))

theorem parse_errors_eq_nil (clean : (lastState text).errors = #[]) (fresh : (lastState text).lexer.errors = #[]) :
    (parse text).errors = [] := by
  change List.mergeSort ((lastState text).errors.toList ++ (lastState text).lexer.errors.toList.map _) _ = []
  rw [clean, fresh]
  exact List.mergeSort_nil

/-- The text of an expression with a semicolon behind it is parsed as one statement of the
expression. -/
theorem parse_sentence (spells : Spells tree Precedence.comma text lexemes) :
    let program := parse (text ++ [';', '\n'])
    (∃ error ∈ program.errors, error.cause = .nestingTooDeep) ∨
      program.errors = [] ∧ ∃ source again, program.store.Holds again ∧ again.root = some program.root ∧
        again.bare = .node 0 (.file source []) [.node 0 (.expressionStatement none) [tree.bare]] := by
  have tokens : Tokens (text ++ [';', '\n']) (lexemes ++ [semicolon.lexeme]) :=
    spells.tokens (Tokens.finish.mark ';' .semicolon rfl rfl) (.of_mem (by decide))
  have opens : (nextKind (lexemes ++ [semicolon.lexeme])).opensExpression = true := by
    rw [nextKind_append spells.opens]
    exact spells.opens
  have isExpression := (Parser.understood spells).expression
  have taken : Parser.Takes (Parser.grammar Parser.maxDepth .statement) Parser.single
      [.node 0 (.expressionStatement none) [tree]] (lexemes ++ [semicolon.lexeme]) [] :=
    Parser.takes_statement isExpression spells.isSome spells.opens spells.hasNoLabel
  generalize text ++ [';', '\n'] = whole at tokens
  rcases Parser.takes_statementList taken opens rfl _ (by rw [List.append_nil]; exact tokens.ahead) with
    ⟨error, there, deep⟩ | arrives
  · exact .inl ⟨error, mem_parse_errors there, deep⟩
  obtain ⟨again, stands⟩ := parse_stands whole
  have keeps : (lastState whole).store.Keeps (parse whole).store := Store.keeps_add _ _ _ _ _
  have resembles : (parse whole).store.Resembles again.root (.node 0 (.file ⟨whole, (lastState whole).lexer.comments⟩ [])
      [.node 0 (.expressionStatement none) [tree]]) := by
    rw [stands.rooted]
    exact ⟨_, shape?_parse_root whole, rfl, arrives.resembles.mono keeps⟩
  exact .inr ⟨parse_errors_eq_nil arrives.ahead.clean arrives.ahead.feeds.isFresh.errors, _, again, stands.holds,
    stands.rooted, resembles.bare_eq stands.holds⟩

end Files

end Unflatten

/-! ## Printing and parsing again

An expression of names, literals and operators is printed as one of its texts
(`Store.print_sentence`), and each of its texts is parsed as the same expression
(`parse_sentence`): the parentheses that the parser drops are put back where they are needed. -/

namespace Unflatten

/-- The text of an expression, printed as a statement, is parsed as a file with the same statement,
unless its expressions nest too deeply for the parser. -/
theorem parse_print {store : Store} {id : NodeId} {slot : Slot} {tree : Tree}
    (holds : store.Holds (.node id (.expressionStatement slot) [tree])) (nodup : tree.names.Nodup)
    (plain : tree.IsPlain) (options : PrinterOptions) :
    let program := parse (store.print options (some id)).toList
    (∃ error ∈ program.errors, error.message = "Nesting too deep.") ∨
      program.errors = [] ∧ ∃ source again, program.store.Holds again ∧ again.root = some program.root ∧
        again.bare = .node 0 (.file source []) [.node 0 (.expressionStatement none) [tree.bare]] := by
  obtain ⟨text, lexemes, spells, printed⟩ := Store.print_sentence holds nodup plain options
  rw [printed, String.toList_ofList]
  refine (parse_sentence spells).imp_left fun ⟨error, there, deep⟩ => ⟨error, there, ?_⟩
  rw [SyntaxError.message, deep]
  rfl

/-- A name with two signs in front of it, as a statement. -/
def negatedTwice : Store :=
  let name := (Store.empty.make (.identifier "a")).1
  let once := (name.make (.unary false .minus (some 0))).1
  let twice := (once.make (.unary false .minus (some 1))).1
  (twice.make (.expressionStatement (some 2))).1

/-- Its expression. -/
def twoSigns : Tree :=
  .node 2 (.unary false .minus (some 1)) [.node 1 (.unary false .minus (some 0)) [.node 0 (.identifier "a") []]]

theorem parse_print_twoSigns :
    negatedTwice.Holds (.node 3 (.expressionStatement (some 2)) [twoSigns]) ∧ twoSigns.names.Nodup ∧
      twoSigns.IsPlain ∧
      let program := parse (negatedTwice.print PrinterOptions.standard (some 3)).toList
      (∃ error ∈ program.errors, error.message = "Nesting too deep.") ∨
        program.errors = [] ∧ ∃ source again, program.store.Holds again ∧ again.root = some program.root ∧
          again.bare = .node 0 (.file source []) [.node 0 (.expressionStatement none) [twoSigns.bare]] := by
  have holds : negatedTwice.Holds (.node 3 (.expressionStatement (some 2)) [twoSigns]) :=
    (@Store.treeAt_isGrown negatedTwice 4 (some 3) (by decide)).1
  have nodup : twoSigns.names.Nodup := by decide
  have plain : twoSigns.IsPlain :=
    .before rfl (.before rfl (.identifier ⟨'a', [], rfl, by decide, List.forall_mem_nil _⟩ (by decide)))
  exact ⟨holds, nodup, plain, parse_print holds nodup plain PrinterOptions.standard⟩

end Unflatten
