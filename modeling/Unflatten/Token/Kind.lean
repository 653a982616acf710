/-! # Kinds of token

`TokenKind` lists every token of the language in a fixed order; `TokenKind.number` is
the position in that order, on which the ranges of keywords and of assignment
operators rest.  `TokenKind.text` is the spelling of punctuators and keywords and
`TokenKind.keyword?` reads a keyword back. -/

set_option autoImplicit false

namespace Unflatten

/-- A kind of token.  The order matters: assignment operators are consecutive, and so
are keywords. -/
inductive TokenKind where
  | unknown
  | endOfFile
  | singleLineComment
  | multiLineComment
  | newLine
  | whitespace
  | numericLiteral
  | stringLiteral
  | regularExpressionLiteral
  | openBrace
  | closeBrace
  | openParen
  | closeParen
  | openBracket
  | closeBracket
  | dot
  | semicolon
  | comma
  | lessThan
  | greaterThan
  | lessThanEquals
  | greaterThanEquals
  | equalsEquals
  | exclamationEquals
  | equalsEqualsEquals
  | exclamationEqualsEquals
  | plus
  | minus
  | asterisk
  | asteriskAsterisk
  | slash
  | percent
  | plusPlus
  | minusMinus
  | lessThanLessThan
  | greaterThanGreaterThan
  | greaterThanGreaterThanGreaterThan
  | ampersand
  | bar
  | caret
  | exclamation
  | tilde
  | ampersandAmpersand
  | barBar
  | questionQuestion
  | question
  | colon
  | equals
  | plusEquals
  | minusEquals
  | asteriskEquals
  | asteriskAsteriskEquals
  | slashEquals
  | percentEquals
  | lessThanLessThanEquals
  | greaterThanGreaterThanEquals
  | greaterThanGreaterThanGreaterThanEquals
  | ampersandEquals
  | barEquals
  | caretEquals
  | ampersandAmpersandEquals
  | barBarEquals
  | questionQuestionEquals
  | identifier
  | breakKeyword
  | caseKeyword
  | catchKeyword
  | constKeyword
  | continueKeyword
  | debuggerKeyword
  | defaultKeyword
  | deleteKeyword
  | doKeyword
  | elseKeyword
  | falseKeyword
  | finallyKeyword
  | forKeyword
  | functionKeyword
  | ifKeyword
  | inKeyword
  | instanceOfKeyword
  | letKeyword
  | newKeyword
  | nullKeyword
  | returnKeyword
  | switchKeyword
  | thisKeyword
  | throwKeyword
  | trueKeyword
  | tryKeyword
  | typeOfKeyword
  | varKeyword
  | voidKeyword
  | whileKeyword
  deriving DecidableEq, Hashable, Repr, Inhabited

namespace TokenKind

/-- The position of the kind in the order of all kinds. -/
def number (kind : TokenKind) : Nat := kind.ctorIdx

/-- The name under which the kind is reported. -/
def name : TokenKind → String
  | .unknown => "Unknown"
  | .endOfFile => "EndOfFileToken"
  | .singleLineComment => "SingleLineCommentTrivia"
  | .multiLineComment => "MultiLineCommentTrivia"
  | .newLine => "NewLineTrivia"
  | .whitespace => "WhitespaceTrivia"
  | .numericLiteral => "NumericLiteral"
  | .stringLiteral => "StringLiteral"
  | .regularExpressionLiteral => "RegularExpressionLiteral"
  | .openBrace => "OpenBraceToken"
  | .closeBrace => "CloseBraceToken"
  | .openParen => "OpenParenToken"
  | .closeParen => "CloseParenToken"
  | .openBracket => "OpenBracketToken"
  | .closeBracket => "CloseBracketToken"
  | .dot => "DotToken"
  | .semicolon => "SemicolonToken"
  | .comma => "CommaToken"
  | .lessThan => "LessThanToken"
  | .greaterThan => "GreaterThanToken"
  | .lessThanEquals => "LessThanEqualsToken"
  | .greaterThanEquals => "GreaterThanEqualsToken"
  | .equalsEquals => "EqualsEqualsToken"
  | .exclamationEquals => "ExclamationEqualsToken"
  | .equalsEqualsEquals => "EqualsEqualsEqualsToken"
  | .exclamationEqualsEquals => "ExclamationEqualsEqualsToken"
  | .plus => "PlusToken"
  | .minus => "MinusToken"
  | .asterisk => "AsteriskToken"
  | .asteriskAsterisk => "AsteriskAsteriskToken"
  | .slash => "SlashToken"
  | .percent => "PercentToken"
  | .plusPlus => "PlusPlusToken"
  | .minusMinus => "MinusMinusToken"
  | .lessThanLessThan => "LessThanLessThanToken"
  | .greaterThanGreaterThan => "GreaterThanGreaterThanToken"
  | .greaterThanGreaterThanGreaterThan => "GreaterThanGreaterThanGreaterThanToken"
  | .ampersand => "AmpersandToken"
  | .bar => "BarToken"
  | .caret => "CaretToken"
  | .exclamation => "ExclamationToken"
  | .tilde => "TildeToken"
  | .ampersandAmpersand => "AmpersandAmpersandToken"
  | .barBar => "BarBarToken"
  | .questionQuestion => "QuestionQuestionToken"
  | .question => "QuestionToken"
  | .colon => "ColonToken"
  | .equals => "EqualsToken"
  | .plusEquals => "PlusEqualsToken"
  | .minusEquals => "MinusEqualsToken"
  | .asteriskEquals => "AsteriskEqualsToken"
  | .asteriskAsteriskEquals => "AsteriskAsteriskEqualsToken"
  | .slashEquals => "SlashEqualsToken"
  | .percentEquals => "PercentEqualsToken"
  | .lessThanLessThanEquals => "LessThanLessThanEqualsToken"
  | .greaterThanGreaterThanEquals => "GreaterThanGreaterThanEqualsToken"
  | .greaterThanGreaterThanGreaterThanEquals => "GreaterThanGreaterThanGreaterThanEqualsToken"
  | .ampersandEquals => "AmpersandEqualsToken"
  | .barEquals => "BarEqualsToken"
  | .caretEquals => "CaretEqualsToken"
  | .ampersandAmpersandEquals => "AmpersandAmpersandEqualsToken"
  | .barBarEquals => "BarBarEqualsToken"
  | .questionQuestionEquals => "QuestionQuestionEqualsToken"
  | .identifier => "Identifier"
  | .breakKeyword => "BreakKeyword"
  | .caseKeyword => "CaseKeyword"
  | .catchKeyword => "CatchKeyword"
  | .constKeyword => "ConstKeyword"
  | .continueKeyword => "ContinueKeyword"
  | .debuggerKeyword => "DebuggerKeyword"
  | .defaultKeyword => "DefaultKeyword"
  | .deleteKeyword => "DeleteKeyword"
  | .doKeyword => "DoKeyword"
  | .elseKeyword => "ElseKeyword"
  | .falseKeyword => "FalseKeyword"
  | .finallyKeyword => "FinallyKeyword"
  | .forKeyword => "ForKeyword"
  | .functionKeyword => "FunctionKeyword"
  | .ifKeyword => "IfKeyword"
  | .inKeyword => "InKeyword"
  | .instanceOfKeyword => "InstanceOfKeyword"
  | .letKeyword => "LetKeyword"
  | .newKeyword => "NewKeyword"
  | .nullKeyword => "NullKeyword"
  | .returnKeyword => "ReturnKeyword"
  | .switchKeyword => "SwitchKeyword"
  | .thisKeyword => "ThisKeyword"
  | .throwKeyword => "ThrowKeyword"
  | .trueKeyword => "TrueKeyword"
  | .tryKeyword => "TryKeyword"
  | .typeOfKeyword => "TypeOfKeyword"
  | .varKeyword => "VarKeyword"
  | .voidKeyword => "VoidKeyword"
  | .whileKeyword => "WhileKeyword"

/-- The spelling of a punctuator or keyword; empty for all other kinds. -/
def text : TokenKind → String
  | .openBrace => "\x7b"
  | .closeBrace => "\x7d"
  | .openParen => "("
  | .closeParen => ")"
  | .openBracket => "["
  | .closeBracket => "]"
  | .dot => "."
  | .semicolon => ";"
  | .comma => ","
  | .lessThan => "<"
  | .greaterThan => ">"
  | .lessThanEquals => "<="
  | .greaterThanEquals => ">="
  | .equalsEquals => "=="
  | .exclamationEquals => "!="
  | .equalsEqualsEquals => "==="
  | .exclamationEqualsEquals => "!=="
  | .plus => "+"
  | .minus => "-"
  | .asterisk => "*"
  | .asteriskAsterisk => "**"
  | .slash => "/"
  | .percent => "%"
  | .plusPlus => "++"
  | .minusMinus => "--"
  | .lessThanLessThan => "<<"
  | .greaterThanGreaterThan => ">>"
  | .greaterThanGreaterThanGreaterThan => ">>>"
  | .ampersand => "&"
  | .bar => "|"
  | .caret => "^"
  | .exclamation => "!"
  | .tilde => "~"
  | .ampersandAmpersand => "&&"
  | .barBar => "||"
  | .questionQuestion => "??"
  | .question => "?"
  | .colon => ":"
  | .equals => "="
  | .plusEquals => "+="
  | .minusEquals => "-="
  | .asteriskEquals => "*="
  | .asteriskAsteriskEquals => "**="
  | .slashEquals => "/="
  | .percentEquals => "%="
  | .lessThanLessThanEquals => "<<="
  | .greaterThanGreaterThanEquals => ">>="
  | .greaterThanGreaterThanGreaterThanEquals => ">>>="
  | .ampersandEquals => "&="
  | .barEquals => "|="
  | .caretEquals => "^="
  | .ampersandAmpersandEquals => "&&="
  | .barBarEquals => "||="
  | .questionQuestionEquals => "??="
  | .breakKeyword => "break"
  | .caseKeyword => "case"
  | .catchKeyword => "catch"
  | .constKeyword => "const"
  | .continueKeyword => "continue"
  | .debuggerKeyword => "debugger"
  | .defaultKeyword => "default"
  | .deleteKeyword => "delete"
  | .doKeyword => "do"
  | .elseKeyword => "else"
  | .falseKeyword => "false"
  | .finallyKeyword => "finally"
  | .forKeyword => "for"
  | .functionKeyword => "function"
  | .ifKeyword => "if"
  | .inKeyword => "in"
  | .instanceOfKeyword => "instanceof"
  | .letKeyword => "let"
  | .newKeyword => "new"
  | .nullKeyword => "null"
  | .returnKeyword => "return"
  | .switchKeyword => "switch"
  | .thisKeyword => "this"
  | .throwKeyword => "throw"
  | .trueKeyword => "true"
  | .tryKeyword => "try"
  | .typeOfKeyword => "typeof"
  | .varKeyword => "var"
  | .voidKeyword => "void"
  | .whileKeyword => "while"
  | _ => ""

/-- The keywords in their order. -/
def keywords : List TokenKind := [
  .breakKeyword, .caseKeyword, .catchKeyword, .constKeyword, .continueKeyword,
  .debuggerKeyword, .defaultKeyword, .deleteKeyword, .doKeyword, .elseKeyword, .falseKeyword,
  .finallyKeyword, .forKeyword, .functionKeyword, .ifKeyword, .inKeyword, .instanceOfKeyword,
  .letKeyword, .newKeyword, .nullKeyword, .returnKeyword, .switchKeyword, .thisKeyword,
  .throwKeyword, .trueKeyword, .tryKeyword, .typeOfKeyword, .varKeyword, .voidKeyword,
  .whileKeyword]

/-- The keyword with the given spelling. -/
def keyword? (word : String) : Option TokenKind := keywords.find? (·.text == word)

/-- A reserved word. -/
def isKeyword (kind : TokenKind) : Bool :=
  number .breakKeyword ≤ kind.number && kind.number ≤ number .whileKeyword

/-- `=` or a compound assignment operator. -/
def isAssignment (kind : TokenKind) : Bool :=
  number .equals ≤ kind.number && kind.number ≤ number .questionQuestionEquals

/-- What may stand behind the point of a member access. -/
def isIdentifierOrKeyword (kind : TokenKind) : Bool := kind == .identifier || kind.isKeyword

/-- The operator that a compound assignment applies. -/
def compound? : TokenKind → Option TokenKind
  | .plusEquals => some .plus
  | .minusEquals => some .minus
  | .asteriskEquals => some .asterisk
  | .asteriskAsteriskEquals => some .asteriskAsterisk
  | .slashEquals => some .slash
  | .percentEquals => some .percent
  | .lessThanLessThanEquals => some .lessThanLessThan
  | .greaterThanGreaterThanEquals => some .greaterThanGreaterThan
  | .greaterThanGreaterThanGreaterThanEquals => some .greaterThanGreaterThanGreaterThan
  | .ampersandEquals => some .ampersand
  | .barEquals => some .bar
  | .caretEquals => some .caret
  | .ampersandAmpersandEquals => some .ampersandAmpersand
  | .barBarEquals => some .barBar
  | .questionQuestionEquals => some .questionQuestion
  | _ => none

theorem isKeyword_iff_mem_keywords (kind : TokenKind) :
    kind.isKeyword = true ↔ kind ∈ keywords := by
  cases kind <;> decide

theorem compound?_isSome_iff (kind : TokenKind) :
    kind.compound?.isSome = true ↔ kind.isAssignment = true ∧ kind ≠ .equals := by
  cases kind <;> decide

end TokenKind

end Unflatten
