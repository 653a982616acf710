import Unflatten.Parser.Error
import Unflatten.Syntax.Store

/-! # The state of the parser

The parser reads the token the lexer stands at, adds nodes to a store and collects
errors.  `Parser` is the type of its steps.  A step that a token decides (`accept`,
`expect`) moves on only if the token is there.

Repetitions are bounded by `ParserState.limit`, a number no smaller than the number of
tokens: each turn of a repetition takes at least one token. -/

set_option autoImplicit false

namespace Unflatten

/-- What the parser knows. -/
structure ParserState where
  lexer : Lexer
  store : Store
  errors : Array SyntaxError
  /-- The end of the token read last. -/
  lastEnd : Nat
  /-- Inside the head of a `for` loop, where `in` is no operator. -/
  inHead : Bool
  /-- Inside a function, where `return` is allowed. -/
  inFunction : Bool
  /-- A bound on the number of tokens. -/
  limit : Nat

/-- A step of the parser. -/
abbrev Parser := StateM ParserState

namespace Parser

/-- The state before the first token of a text. -/
def initial (text : List Char) : ParserState where
  lexer := Lexer.ofText text false
  store := Store.empty
  errors := #[]
  lastEnd := 0
  inHead := false
  inFunction := false
  limit := text.length + 2

/-! ## Tokens -/

/-- The kind of the token. -/
def token : Parser TokenKind := fun s => (s.lexer.kind, s)

/-- Whether the token is of a kind. -/
def at? (kind : TokenKind) : Parser Bool := fun s => (s.lexer.kind == kind, s)

/-- Where the token starts. -/
def position : Parser Nat := fun s => (s.lexer.start.offset, s)

/-- The place behind the token. -/
def tokenEnd : Parser Nat := fun s => (s.lexer.cursor.offset, s)

/-- The value of the token. -/
def value : Parser String := fun s => (s.lexer.value, s)

/-- Whether a line end stands before the token. -/
def lineBreakBefore : Parser Bool := fun s => (s.lexer.lineBreakBefore, s)

/-- The end of the token read last. -/
def lastEnd : Parser Nat := fun s => (s.lastEnd, s)

/-- Whether the head of a `for` loop is being read. -/
def inHead : Parser Bool := fun s => (s.inHead, s)

/-- Whether the body of a function is being read. -/
def inFunction : Parser Bool := fun s => (s.inFunction, s)

/-- Whether the node of a slot has a shape with some property. -/
def satisfies (slot : Slot) (test : Shape → Bool) : Parser Bool := fun s =>
  (s.store.satisfies slot test, s)

/-- The bound on repetitions. -/
def limit : Parser Nat := fun s => (s.limit, s)

/-- Moves to the next token. -/
def advance : Parser Unit := fun s =>
  let lastEnd := s.lexer.cursor.offset
  ((), { s with lexer := s.lexer.scan, lastEnd := lastEnd })

/-- Reads the token anew as a regular expression. -/
def rescanSlash : Parser Unit := fun s => ((), { s with lexer := s.lexer.rescanSlash })

/-- Reports an error at a stretch, unless the last error starts at the same place. -/
def reportAt (start length : Nat) (cause : SyntaxError.Cause) : Parser Unit := fun s =>
  if s.errors.back?.any (·.start == start) then ((), s)
  else ((), { s with errors := s.errors.push ⟨start, length, cause⟩ })

/-- Reports an error at the token. -/
def report (cause : SyntaxError.Cause) : Parser Unit := do
  let start ← position
  let stop ← tokenEnd
  reportAt start (stop - start) cause

/-- Takes a token of a kind, if it is there. -/
def accept (kind : TokenKind) : Parser Bool := do
  if ← at? kind then
    advance
    return true
  else return false

/-- Takes a token of a kind, and reports an error if it is not there. -/
def expect (kind : TokenKind) : Parser Bool := do
  if ← accept kind then return true
  else
    report (.expected kind)
    return false

/-- The kind of the token behind the present one.  The state stays as it is. -/
def peek : Parser TokenKind := fun s =>
  let ahead := s.lexer.scan
  (ahead.kind, { s with lexer := ahead.restore s.lexer.save })

/-- Runs a step and goes back to the token before it.  Only what the step answers is kept, and
what it made of the store and of the errors of the parser. -/
def lookAhead {α : Type} (step : Parser α) : Parser α := fun s =>
  let (result, ahead) := step s
  (result, { ahead with lexer := ahead.lexer.restore s.lexer.save, lastEnd := s.lastEnd })

theorem peek_eq_lookAhead : peek = lookAhead (do advance; token) := rfl

/-- Whether a statement may end here: a semicolon, a closing brace, the end of the text
or a line end follows. -/
def canEndStatement : Parser Bool := fun s =>
  let kind := s.lexer.kind
  (kind == .semicolon || kind == .closeBrace || kind == .endOfFile || s.lexer.lineBreakBefore, s)

/-- Ends a statement with a semicolon, which may be missing where a statement may end. -/
def endStatement : Parser Unit := do
  unless ← accept .semicolon do
    unless ← canEndStatement do
      discard (expect .semicolon)

/-! ## Context -/

/-- Runs a step outside the head of a loop. -/
def outsideHead {α : Type} (step : Parser α) : Parser α := fun s =>
  let saved := s.inHead
  let (result, s) := step { s with inHead := false }
  (result, { s with inHead := saved })

/-- Runs a step inside the head of a loop. -/
def insideHead {α : Type} (step : Parser α) : Parser α := fun s =>
  let saved := s.inHead
  let (result, s) := step { s with inHead := true }
  (result, { s with inHead := saved })

/-- Runs a step inside the body of a function. -/
def insideFunction {α : Type} (step : Parser α) : Parser α := fun s =>
  let savedHead := s.inHead
  let savedFunction := s.inFunction
  let (result, s) := step { s with inHead := false, inFunction := true }
  (result, { s with inHead := savedHead, inFunction := savedFunction })

/-! ## Nodes -/

/-- Adds a node with a given stretch of the source. -/
def nodeAt (shape : Shape) (flags : Flags) (start stop : Nat) : Parser Slot := fun s =>
  let (store, id) := s.store.add shape flags start stop
  (some id, { s with store := store })

/-- Adds a node with marks that ends with the token read last. -/
def flagged (shape : Shape) (flags : Flags) (start : Nat) : Parser Slot := do
  nodeAt shape flags start (← lastEnd)

/-- Adds a node that ends with the token read last. -/
def node (shape : Shape) (start : Nat) : Parser Slot := flagged shape Flags.none start

/-- Takes the token as an identifier, whatever it is. -/
def identifier : Parser Slot := do
  let start ← position
  let stop ← tokenEnd
  let text ← value
  advance
  nodeAt (.identifier text) Flags.none start stop

/-- An identifier that is being declared. -/
def bindingIdentifier : Parser Slot := do
  if ← at? .identifier then identifier
  else
    report .identifierExpected
    return none

end Parser

end Unflatten
