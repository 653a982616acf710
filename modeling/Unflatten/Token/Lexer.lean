import Unflatten.Token.Kind
import Unflatten.Token.Literal

/-! # The lexer

A `Lexer` stands at a token: its kind, the place where it starts and the place behind
it, its value, and whether a line end precedes it.  `scan` moves to the next token.
Blanks, line ends and comments before a token are trivia (`triviaAt?`): they are
skipped, or are tokens of their own when the lexer keeps them.  Comments and lexical
errors are collected on the way.

`save` and `restore` look ahead: a snapshot holds the token and the numbers of comments
and errors, so going back drops what was collected since. -/

set_option autoImplicit false

namespace Unflatten

/-- What can be wrong with a token. -/
inductive LexicalError.Cause where
  | unterminatedString
  | unterminatedComment
  | invalidCharacter
  | unterminatedPattern
  deriving DecidableEq, Repr

/-- The number under which a cause is reported. -/
def LexicalError.Cause.code : LexicalError.Cause → Nat
  | .unterminatedString => 1002
  | .unterminatedComment => 1010
  | .invalidCharacter => 1127
  | .unterminatedPattern => 1161

/-- The text of a cause. -/
def LexicalError.Cause.message : LexicalError.Cause → String
  | .unterminatedString => "Unterminated string literal."
  | .unterminatedComment => "'*/' expected."
  | .invalidCharacter => "Invalid character."
  | .unterminatedPattern => "Unterminated regular expression literal."

/-- An error in a stretch of the source. -/
structure LexicalError where
  start : Nat
  length : Nat
  cause : LexicalError.Cause
  deriving DecidableEq, Repr

/-- The state of the lexer at a token. -/
structure Lexer where
  keepTrivia : Bool
  /-- Where the trivia before the token starts. -/
  fullStart : Nat
  /-- Where the token starts. -/
  start : Cursor
  /-- The place behind the token. -/
  cursor : Cursor
  kind : TokenKind
  /-- The text of an identifier, number or pattern, the decoded value of a string. -/
  value : String
  lineBreakBefore : Bool
  comments : Array CommentRange
  errors : Array LexicalError
  deriving Repr, Inhabited

/-! ## Trivia -/

/-- A stretch of trivia.  Blanks outside ASCII have no kind and are never kept. -/
structure Trivia where
  kind? : Option TokenKind
  after : Cursor
  lineBreak : Bool
  comment? : Option CommentRange
  error? : Option LexicalError
  deriving Repr

/-- The character of a line end. -/
def isLineEnd (c : Char) : Bool := c == '\n' || c == '\r'

/-- A blank of ASCII that ends no line. -/
def isAsciiBlank (c : Char) : Bool := c == ' ' || c == '\t' || c == '\x0b' || c == '\x0c'

/-- The place behind the mark that closes a block comment, and whether it was found. -/
def Cursor.skipBlockComment : List Char → (offset : Nat) → Cursor × Bool
  | [], offset => (⟨[], offset⟩, false)
  | '*' :: '/' :: rest, offset => (⟨rest, offset + 2⟩, true)
  | c :: rest, offset => Cursor.skipBlockComment rest (offset + c.utf8Size)

/-- The trivia that starts at a place, if any does. -/
def Cursor.triviaAt? (cursor : Cursor) : Option Trivia :=
  match cursor.rest with
  | [] => none
  | '/' :: '/' :: _ =>
    let after := cursor.skipWhile fun c => !isLineEnd c
    some ⟨some .singleLineComment, after, false,
      some ⟨cursor.offset, after.offset, false, !after.rest.isEmpty⟩, none⟩
  | '/' :: '*' :: body =>
    let (after, closed) := Cursor.skipBlockComment body (cursor.offset + 2)
    some ⟨some .multiLineComment, after, (cursor.textTo after).any isLineEnd,
      some ⟨cursor.offset, after.offset, true, after.next isLineEnd⟩,
      if closed then none else some ⟨cursor.offset, 2, .unterminatedComment⟩⟩
  | c :: _ =>
    if isLineEnd c then some ⟨some .newLine, cursor.step, true, none, none⟩
    else if isAsciiBlank c then
      some ⟨some .whitespace, cursor.step.skipWhile isAsciiBlank, false, none, none⟩
    else if c = '\u2028' ∨ c = '\u2029' then some ⟨none, cursor.step, true, none, none⟩
    else if c.toNat ≥ 0x80 ∧ (Text.isBlank c ∨ c = '\ufeff') then
      some ⟨none, cursor.step, false, none, none⟩
    else none

theorem Cursor.length_skipBlockComment_le (text : List Char) (offset : Nat) :
    (Cursor.skipBlockComment text offset).1.length ≤ text.length := by
  fun_induction Cursor.skipBlockComment text offset with
  | case1 => exact Nat.le_refl _
  | case2 rest offset => simp [Cursor.length]; omega
  | case3 offset c rest closing ih => exact Nat.le_succ_of_le ih

/-- Trivia is never empty. -/
theorem Cursor.length_triviaAt?_lt {cursor : Cursor} {trivia : Trivia}
    (here : cursor.triviaAt? = some trivia) : trivia.after.length < cursor.length := by
  unfold Cursor.triviaAt? at here
  split at here
  · cases here
  · rename_i rest slashes
    cases here
    have first : ∀ (text : List Char) (offset : Nat),
        (skipWhile.go (fun c => !isLineEnd c) ('/' :: '/' :: text) offset).length
          ≤ text.length := by
      intro text offset
      have bound := (Cursor.mk text (offset + '/'.utf8Size + '/'.utf8Size)).length_skipWhile_le
        fun c => !isLineEnd c
      simpa [skipWhile, skipWhile.go, isLineEnd, Cursor.length] using bound
    have bound := first rest cursor.offset
    simp only [Cursor.skipWhile, slashes]
    simp only [Cursor.length, slashes, List.length_cons] at bound ⊢
    omega
  · rename_i body opening
    cases here
    have bound := Cursor.length_skipBlockComment_le body (cursor.offset + 2)
    simp only [Cursor.length, opening, List.length_cons] at bound ⊢
    omega
  · rename_i c rest _ _ char
    have stepped := Cursor.length_step_lt char
    split at here
    · cases here; exact stepped
    · split at here
      · cases here
        exact Nat.lt_of_le_of_lt (Cursor.length_skipWhile_le _ _) stepped
      · split at here
        · cases here; exact stepped
        · split at here
          · cases here; exact stepped
          · cases here

/-! ## Tokens -/

/-- The punctuators, longer ones first. -/
def punctuators : List (List Char × TokenKind) :=
  ([.greaterThanGreaterThanGreaterThanEquals,
    .lessThanLessThanEquals, .greaterThanGreaterThanGreaterThan, .greaterThanGreaterThanEquals,
    .equalsEqualsEquals, .exclamationEqualsEquals, .asteriskAsteriskEquals,
    .ampersandAmpersandEquals, .barBarEquals, .questionQuestionEquals,
    .lessThanLessThan, .lessThanEquals, .greaterThanGreaterThan, .greaterThanEquals,
    .equalsEquals, .exclamationEquals, .plusPlus, .plusEquals, .minusMinus, .minusEquals,
    .asteriskAsterisk, .asteriskEquals, .slashEquals, .percentEquals, .ampersandAmpersand,
    .ampersandEquals, .barBar, .barEquals, .caretEquals, .questionQuestion,
    .lessThan, .greaterThan, .equals, .exclamation, .plus, .minus, .asterisk, .slash, .percent,
    .ampersand, .bar, .caret, .question, .openBrace, .closeBrace, .openParen, .closeParen,
    .openBracket, .closeBracket, .dot, .semicolon, .comma, .colon, .tilde] :
    List TokenKind).map fun kind => (kind.text.toList, kind)

/-- A token read at a place. -/
structure ReadToken where
  kind : TokenKind
  after : Cursor
  value : String
  error? : Option LexicalError
  deriving Repr

/-- The token that starts at a place where no trivia stands. -/
def Cursor.tokenAt (cursor : Cursor) : ReadToken :=
  match cursor.rest with
  | [] => ⟨.endOfFile, cursor, "", none⟩
  | c :: _ =>
    if c = '"' ∨ c = '\'' then
      let (value, after, closed) := readString c cursor.step []
      ⟨.stringLiteral, after, String.ofList value,
        if closed then none
        else some ⟨cursor.offset, after.offset - cursor.offset, .unterminatedString⟩⟩
    else if c.isDigit || (c = '.' && cursor.step.next Char.isDigit) then
      let after := cursor.skipNumber
      ⟨.numericLiteral, after, String.ofList (cursor.textTo after), none⟩
    else
      match punctuators.find? fun entry => cursor.startsWith entry.1 with
      | some (text, kind) => ⟨kind, cursor.advance text.length, "", none⟩
      | none =>
        if isIdentifierStart c then
          let after := cursor.skipIdentifier
          let word := String.ofList (cursor.textTo after)
          ⟨(TokenKind.keyword? word).getD .identifier, after, word, none⟩
        else
          ⟨.unknown, cursor.step, "", some ⟨cursor.offset, c.utf8Size, .invalidCharacter⟩⟩

namespace Lexer

/-- A lexer before the first token of a text. -/
def ofText (text : List Char) (keepTrivia : Bool) : Lexer where
  keepTrivia := keepTrivia
  fullStart := 0
  start := Cursor.ofText text
  cursor := Cursor.ofText text
  kind := .unknown
  value := ""
  lineBreakBefore := false
  comments := #[]
  errors := #[]

/-- The lexer behind a stretch of trivia. -/
def pass (lexer : Lexer) (trivia : Trivia) : Lexer :=
  { lexer with
    start := lexer.cursor
    cursor := trivia.after
    lineBreakBefore := lexer.lineBreakBefore || trivia.lineBreak
    comments := lexer.comments ++ trivia.comment?.toArray
    errors := lexer.errors ++ trivia.error?.toArray }

/-- The lexer at the token that follows. -/
def read (lexer : Lexer) : Lexer :=
  let token := lexer.cursor.tokenAt
  { lexer with
    start := lexer.cursor
    cursor := token.after
    kind := token.kind
    value := token.value
    errors := lexer.errors ++ token.error?.toArray }

/-- Passes trivia until a token is reached. -/
def settle (lexer : Lexer) : Lexer :=
  match _here : lexer.cursor.triviaAt? with
  | none => lexer.read
  | some trivia =>
    match trivia.kind? with
    | some kind =>
      if lexer.keepTrivia then { lexer.pass trivia with kind := kind }
      else settle (lexer.pass trivia)
    | none => settle (lexer.pass trivia)
  termination_by lexer.cursor.length
  decreasing_by
    all_goals exact Cursor.length_triviaAt?_lt ‹_›

/-- Moves to the next token. -/
def scan (lexer : Lexer) : Lexer :=
  settle { lexer with fullStart := lexer.cursor.offset, lineBreakBefore := false, value := "" }

/-- Reads the token anew as a regular expression, if it starts with a slash. -/
def rescanSlash (lexer : Lexer) : Lexer :=
  if lexer.kind = .slash ∨ lexer.kind = .slashEquals then
    let opening := lexer.start.step
    let (body, closed) := Cursor.readPattern false opening.rest opening.offset
    let after := body.skipWhile isIdentifierPart
    { lexer with
      cursor := after
      kind := .regularExpressionLiteral
      value := String.ofList (lexer.start.textTo after)
      errors :=
        if closed then lexer.errors
        else lexer.errors.push
          ⟨lexer.start.offset, body.offset - lexer.start.offset, .unterminatedPattern⟩ }
  else lexer

/-- The source text of the token. -/
def text (lexer : Lexer) : String := String.ofList (lexer.start.textTo lexer.cursor)

/-- The state of a lexer without what it collected, but with the amounts. -/
structure Snapshot where
  fullStart : Nat
  start : Cursor
  cursor : Cursor
  kind : TokenKind
  value : String
  lineBreakBefore : Bool
  commentCount : Nat
  errorCount : Nat
  deriving Repr

/-- The snapshot of the present state. -/
def save (lexer : Lexer) : Snapshot where
  fullStart := lexer.fullStart
  start := lexer.start
  cursor := lexer.cursor
  kind := lexer.kind
  value := lexer.value
  lineBreakBefore := lexer.lineBreakBefore
  commentCount := lexer.comments.size
  errorCount := lexer.errors.size

/-- Goes back to a snapshot and drops the comments and errors collected since. -/
def restore (lexer : Lexer) (snapshot : Snapshot) : Lexer :=
  { lexer with
    fullStart := snapshot.fullStart
    start := snapshot.start
    cursor := snapshot.cursor
    kind := snapshot.kind
    value := snapshot.value
    lineBreakBefore := snapshot.lineBreakBefore
    comments := lexer.comments.take snapshot.commentCount
    errors := lexer.errors.take snapshot.errorCount }

theorem restore_save (lexer : Lexer) : lexer.restore lexer.save = lexer := by
  simp [restore, save]

end Lexer

end Unflatten
