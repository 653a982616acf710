import Unflatten.Token.Kind

/-! # Precedence of operators

Higher numbers bind tighter.  The parser and the printer share these numbers, so the
printer puts parentheses back exactly where the parser needed them. -/

set_option autoImplicit false

namespace Unflatten

namespace Precedence

abbrev comma : Nat := 0
abbrev assignment : Nat := 2
abbrev conditional : Nat := 3
abbrev coalesce : Nat := 4
abbrev logicalOr : Nat := 5
abbrev logicalAnd : Nat := 6
abbrev bitwiseOr : Nat := 7
abbrev bitwiseXor : Nat := 8
abbrev bitwiseAnd : Nat := 9
abbrev equality : Nat := 10
abbrev relational : Nat := 11
abbrev shift : Nat := 12
abbrev additive : Nat := 13
abbrev multiplicative : Nat := 14
abbrev exponentiation : Nat := 15
abbrev unary : Nat := 16
abbrev update : Nat := 17
abbrev construction : Nat := 18
abbrev member : Nat := 19
abbrev primary : Nat := 20

end Precedence

namespace TokenKind

/-- The precedence of a binary operator other than assignment and comma. -/
def binaryPrecedence? : TokenKind → Option Nat
  | .questionQuestion => some Precedence.coalesce
  | .barBar => some Precedence.logicalOr
  | .ampersandAmpersand => some Precedence.logicalAnd
  | .bar => some Precedence.bitwiseOr
  | .caret => some Precedence.bitwiseXor
  | .ampersand => some Precedence.bitwiseAnd
  | .equalsEquals | .exclamationEquals | .equalsEqualsEquals | .exclamationEqualsEquals =>
    some Precedence.equality
  | .lessThan | .greaterThan | .lessThanEquals | .greaterThanEquals | .instanceOfKeyword
  | .inKeyword => some Precedence.relational
  | .lessThanLessThan | .greaterThanGreaterThan | .greaterThanGreaterThanGreaterThan =>
    some Precedence.shift
  | .plus | .minus => some Precedence.additive
  | .asterisk | .slash | .percent => some Precedence.multiplicative
  | .asteriskAsterisk => some Precedence.exponentiation
  | _ => none

/-- The precedence of the expression that an operator forms with two operands. -/
def expressionPrecedence (operator : TokenKind) : Nat :=
  if operator = .comma then Precedence.comma
  else if operator.isAssignment then Precedence.assignment
  else operator.binaryPrecedence?.getD Precedence.primary

/-- Whether a chain of the operator groups from the right. -/
def isRightAssociative (operator : TokenKind) : Bool :=
  operator == .asteriskAsterisk || operator.isAssignment

/-- An operator that may leave its right operand unevaluated. -/
def isLogical : TokenKind → Bool
  | .ampersandAmpersand | .barBar | .questionQuestion => true
  | _ => false

/-- One of the four equality tests. -/
def isEquality : TokenKind → Bool
  | .equalsEquals | .exclamationEquals | .equalsEqualsEquals | .exclamationEqualsEquals => true
  | _ => false

/-- The comparison that gives the same answer on swapped operands. -/
def mirrored? : TokenKind → Option TokenKind
  | .equalsEquals => some .equalsEquals
  | .exclamationEquals => some .exclamationEquals
  | .equalsEqualsEquals => some .equalsEqualsEquals
  | .exclamationEqualsEquals => some .exclamationEqualsEquals
  | .lessThan => some .greaterThan
  | .greaterThan => some .lessThan
  | .lessThanEquals => some .greaterThanEquals
  | .greaterThanEquals => some .lessThanEquals
  | _ => none

theorem mirrored?_mirrored? (operator swapped : TokenKind)
    (mirrors : operator.mirrored? = some swapped) : swapped.mirrored? = some operator := by
  cases operator <;> cases mirrors <;> rfl

end TokenKind

end Unflatten
