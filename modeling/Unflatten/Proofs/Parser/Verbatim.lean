import Unflatten.Proofs.Parser.Phrases

/-! # A tree accounts for its text

Where parsing reports no error, the statements of a file are a stretch from the first token to the
end of the text.  So the nodes nest in the text (`parse_spansNest`), and the names, numbers and
strings among them are those that scanning finds (`parse_keepsWords`). -/

set_option autoImplicit false

namespace Unflatten

/-- The literal of a regular expression. -/
def Shape.isPattern : Shape → Bool
  | .literal .pattern _ _ => true
  | _ => false

theorem Shape.isPattern_of_token? {shape : Shape} {text : List Char} {start stop : Nat} {token : Token}
    (found : shape.token? text start stop = some token) (kind : token.kind = .regularExpressionLiteral) :
    shape.isPattern = true := by
  unfold Shape.token? at found
  split at found
  · split at found <;> cases found
    cases kind
  · cases found
    cases kind
  · cases found
    cases kind
  · rfl
  · cases found

namespace Parser

/-- Before the first token there is nothing to show. -/
theorem isClean_first (text : List Char) : IsClean text (advance (initial text)).2 := by
  have shapes : ∀ slot, (advance (initial text)).2.store.shape? slot = none := Store.shape?_empty
  refine ⟨(Lexer.isReady_ofText text).scan, Nat.zero_le _, ⟨[], text, rfl, rfl⟩, Nat.succ_pos _, ?_, ?_⟩
  · intro id shape found
    rw [shapes] at found
    cases found
  · intro id span found
    obtain ⟨shape, there⟩ := (Store.exists_shape?_iff _ id).mpr ⟨span, found⟩
    rw [shapes] at there
    cases there

end Parser

section Program
variable {text : List Char}

/-- Errors of the parser are errors of the file. -/
theorem lastState_errors (clean : (parse text).errors = []) : (lastState text).errors = #[] := by
  have merged : ((lastState text).errors.toList ++ (lastState text).lexer.errors.toList.map fun error =>
      (⟨error.start, error.length, .lexical error.cause⟩ : SyntaxError)).length = 0 := by
    rw [← List.length_mergeSort]
    exact List.length_eq_zero_iff.mpr clean
  rw [List.length_append] at merged
  exact Array.eq_empty_of_size_eq_zero (Nat.eq_zero_of_add_eq_zero_right merged)

/-- The statements of a file are a stretch from its first token on. -/
theorem stretch_file (clean : (parse text).errors = []) :
    Parser.Stretch text (Parser.advance (Parser.initial text)).2 (lastState text)
      (Parser.Piece.ofSlots (Parser.fileStatements (Parser.initial text)).1) := by
  have made := Parser.makes_statementList (Parser.grammar_makesPhrases text Parser.maxDepth) (· == .endOfFile)
  exact (made.makes _ (Parser.isClean_first text) trivial).resolve_left fun error =>
    error (lastState_errors clean)

/-- The file, which is the last node. -/
abbrev fileShape (text : List Char) : Shape :=
  .file ⟨text, (lastState text).lexer.comments⟩ (Parser.fileStatements (Parser.initial text)).1

theorem shape?_parse_root (text : List Char) :
    (parse text).store.shape? (some (parse text).root) = some (fileShape text) := by
  rw [parse_store, parse_root, Store.shape?_add, if_pos rfl]

theorem nodes_fileStatements (text : List Char) :
    Parser.Piece.nodes (Parser.Piece.ofSlots (Parser.fileStatements (Parser.initial text)).1) =
      (fileShape text).children := congrArg (List.filterMap id) (Parser.Piece.slots_ofSlots _)

theorem parse_isNested (clean : (parse text).errors = []) : (parse text).store.IsNested text := by
  have stretch := stretch_file clean
  have last := stretch.clean
  have line := stretch.line.mono (Nat.zero_le _) (Nat.le_trans last.last last.lexer.leads.offset_le)
  rw [nodes_fileStatements] at line
  rw [parse_store]
  exact last.nested.add (Nat.zero_le _) ⟨[], text, rfl, rfl⟩ last.lexer.cursorIsIn.isBoundary line

/-- The names, numbers, strings and regular expressions of a tree are those that the parser has gone
over. -/
theorem shown_parse_root (clean : (parse text).errors = []) :
    ∃ passed, (Parser.advance (Parser.initial text)).2.lexer.Passes passed (lastState text).lexer ∧
      passed.filter (·.kind.isShown) = (parse text).store.shown text (parse text).root := by
  have stretch := stretch_file clean
  have nested := parse_isNested clean
  have file := shape?_parse_root text
  have lasts : (lastState text).store.LastsIn (parse text).store := Store.lastsIn_add _ _ _ _ _
  obtain ⟨passed, passes, same⟩ := stretch.shows
  refine ⟨passed, passes, ?_⟩
  rw [nested.shown_eq file, Store.token?_eq _ _ file (span?_parse_root text), same, nodes_fileStatements]
  refine List.flatMap_congr fun child listed => ?_
  obtain ⟨_, _, spans, -⟩ := stretch.line.within child (nodes_fileStatements text ▸ listed)
  obtain ⟨_, there⟩ := (Store.exists_shape?_iff _ child).mpr ⟨_, spans⟩
  exact (stretch.clean.nested.shown_carry nested lasts (Store.lt_size_of_shape? there)).symm

/-- Where parsing reports no error, every node spans a stretch of the text between two characters,
and its children span stretches inside of it, one behind the other. -/
theorem parse_spansNest (text : List Char) (clean : (parse text).errors = []) (id : NodeId) (shape : Shape)
    (found : (parse text).store.shape? (some id) = some shape) :
    ∃ start stop, (parse text).store.span? id = some (start, stop) ∧
      start ≤ stop ∧ stop ≤ Text.byteCount text ∧
      Text.IsBoundary text start ∧ Text.IsBoundary text stop ∧
      (parse text).store.InLine start stop shape.children := by
  obtain ⟨start, stop, spans, order, starts, stops, line⟩ := (parse_isNested clean id shape found).span
  exact ⟨start, stop, spans, order, stops.le, starts, stops, line⟩

theorem parse_spansNest_call :
    (parse "f(1)".toList).errors = [] ∧ (parse "f(1)".toList).store.span? 2 = some (0, 4) ∧
      (parse "f(1)".toList).store.InLine 0 4 [0, 1] := by
  have clean : (parse "f(1)".toList).errors = [] := by decide +kernel
  have spans : (parse "f(1)".toList).store.span? 2 = some (0, 4) := by decide +kernel
  have below : (parse "f(1)".toList).store.children 2 = [0, 1] := by decide +kernel
  obtain ⟨shape, found⟩ := (Store.exists_shape?_iff _ 2).mpr ⟨_, spans⟩
  obtain ⟨start, stop, found', -, -, -, -, line⟩ := parse_spansNest _ clean 2 shape found
  cases spans.symm.trans found'
  rw [← Store.children_eq _ 2 found, below] at line
  exact ⟨clean, spans, line⟩

/-- Where parsing reports no error and finds no regular expression, the names, numbers and strings
of the tree are those that scanning the text finds, each at its place. -/
theorem parse_keepsWords (text : List Char) (clean : (parse text).errors = [])
    (plain : ∀ id ∈ (parse text).store.descendants (some (parse text).root),
      (parse text).store.satisfies (some id) Shape.isPattern = false) :
    (Lexer.ofText text false).tokens.filter (·.kind.isWord) =
      (((parse text).store.descendants (some (parse text).root)).filterMap
        ((parse text).store.token? text)).filter (·.kind.isWord) := by
  have nested := parse_isNested clean
  rw [nested.descendants_eq (shape?_parse_root text)] at plain ⊢
  obtain ⟨passed, passes, same⟩ := shown_parse_root clean
  have ended : (lastState text).lexer.kind = .endOfFile := (Parser.fileStatements_end text).2.1
  -- A regular expression passed would be shown by a node.
  have none : ∀ token ∈ passed, token.kind ≠ .regularExpressionLiteral := by
    intro token member kind
    have listed : token ∈ passed.filter (·.kind.isShown) :=
      List.mem_filter.mpr ⟨member, by rw [kind]; rfl⟩
    rw [same] at listed
    obtain ⟨id, below, stands⟩ := List.mem_filterMap.mp listed
    obtain ⟨node, found, stands⟩ := Option.bind_eq_some_iff.mp stands
    have pattern := Shape.isPattern_of_token? stands kind
    have refused := plain id below
    simp [Store.satisfies, Store.shape?, Store.node?, found, pattern] at refused
  have words := passes.words_eq (Parser.isClean_first text).lexer none
  have last : (lastState text).lexer.words = [] := by
    rw [Lexer.words, if_pos ended]
    rfl
  rw [last, List.append_nil] at words
  calc (Lexer.ofText text false).tokens.filter (·.kind.isWord)
      = (Parser.advance (Parser.initial text)).2.lexer.words := by
        rw [Lexer.tokens]
        rfl
    _ = passed.filter (·.kind.isWord) := words
    _ = (passed.filter (·.kind.isShown)).filter (·.kind.isWord) := by
        rw [List.filter_filter]
        refine List.filter_congr fun token _ => ?_
        rw [TokenKind.isShown]
        cases token.kind.isWord <;> rfl
    _ = _ := by rw [same, Store.shown]

theorem parse_keepsWords_call :
    (Lexer.ofText "f(1, in2)".toList false).tokens.filter (·.kind.isWord) =
      [⟨.identifier, 0, 1, "f"⟩, ⟨.numericLiteral, 2, 3, "1"⟩, ⟨.identifier, 5, 8, "in2"⟩] := by
  rw [parse_keepsWords "f(1, in2)".toList (by decide +kernel) (by decide +kernel)]
  decide +kernel

end Program

end Unflatten
