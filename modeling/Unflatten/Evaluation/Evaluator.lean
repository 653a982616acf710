import Unflatten.Evaluation.Value
import Unflatten.Syntax.Store

/-! # The bounded evaluator

`evaluate` finds the value of an expression made of literals, bound names and
operators.  Calls, member accesses and assignments are refused, so nothing in the
program is ever run.  The depth of nesting is bounded by `maxEvaluationDepth`. -/

set_option autoImplicit false

namespace Unflatten

/-- How deeply an expression may nest. -/
def maxEvaluationDepth : Nat := 256

/-- The values of names, the latest binding of a name first. -/
abbrev Environment := List (String × Value)

namespace Environment

/-- The value of a name. -/
def value? (environment : Environment) (name : String) : Option Value := environment.lookup name

/-- The environment with a name bound to a value. -/
def bind (environment : Environment) (name : String) (value : Value) : Environment :=
  (name, value) :: environment.filter (·.1 != name)

/-- The value of a name in an expression.  Some names have a value without a binding. -/
def evaluateName (environment : Environment) (name : String) : Except EvalError Value :=
  match environment.value? name with
  | some value => .ok value
  | none =>
    match name with
    | "undefined" => .ok .undefined
    | "NaN" => .ok (.number Number.nan)
    | "Infinity" => .ok (.number Number.infinity)
    | _ => .error (.unboundName name)

end Environment

namespace Value

/-- An integer as a number. -/
def ofInt (value : Int) : Value := .number (Float.ofInt value)

/-- The 32-bit word of a signed number, for operations on bits. -/
def word (value : Value) : Nat := value.toUint32

/-- An operator in front of a value. -/
def applyUnary (operator : TokenKind) (value : Value) : Except EvalError Value :=
  match operator with
  | .exclamation => .ok (.boolean !value.truthy)
  | .minus => .ok (.number (-value.toNumber))
  | .plus => .ok (.number value.toNumber)
  | .tilde => .ok (ofInt (-value.toInt32 - 1))
  | .typeOfKeyword => .ok (.string value.typeName)
  | .voidKeyword => .ok .undefined
  | _ => .error (.unsupported "update or delete")

/-- The sum of two values: texts are joined, anything else is added. -/
def add (left right : Value) : Value :=
  match left, right with
  | .string a, _ => .string (a ++ right.toText)
  | _, .string b => .string (left.toText ++ b)
  | _, _ => .number (left.toNumber + right.toNumber)

/-- An operator between two values. -/
def applyBinary (operator : TokenKind) (left right : Value) : Except EvalError Value :=
  let number (value : Float) : Except EvalError Value := .ok (.number value)
  let boolean (value : Bool) : Except EvalError Value := .ok (.boolean value)
  let signed (value : Nat) : Except EvalError Value := .ok (ofInt (Number.signed32 value))
  let shift := right.toUint32 % 32
  match operator with
  | .plus => .ok (add left right)
  | .minus => number (left.toNumber - right.toNumber)
  | .asterisk => number (left.toNumber * right.toNumber)
  | .slash => number (left.toNumber / right.toNumber)
  | .percent => number (Number.remainder left.toNumber right.toNumber)
  | .asteriskAsterisk => number (Number.power left.toNumber right.toNumber)
  | .ampersand => signed (left.word &&& right.word)
  | .bar => signed (left.word ||| right.word)
  | .caret => signed (left.word ^^^ right.word)
  | .lessThanLessThan => signed ((left.word <<< shift) % Number.wordCount)
  | .greaterThanGreaterThan => .ok (ofInt (left.toInt32 >>> shift))
  | .greaterThanGreaterThanGreaterThan => .ok (ofInt (left.word >>> shift : Nat))
  | .equalsEquals => boolean (looseEquals left right)
  | .exclamationEquals => boolean !looseEquals left right
  | .equalsEqualsEquals => boolean (strictEquals left right)
  | .exclamationEqualsEquals => boolean !strictEquals left right
  | .lessThan => boolean (compare? left right == some .lt)
  | .greaterThan => boolean (compare? left right == some .gt)
  | .lessThanEquals =>
    boolean (compare? left right == some .lt || compare? left right == some .eq)
  | .greaterThanEquals =>
    boolean (compare? left right == some .gt || compare? left right == some .eq)
  | _ => .error (.unsupported "operator")

end Value

/-- The value of an expression that nests no deeper than a bound. -/
def evaluateWithin (store : Store) (environment : Environment) :
    (depth : Nat) → Slot → Except EvalError Value
  | 0, _ => .error (.depthExceeded maxEvaluationDepth)
  | depth + 1, slot =>
    match store.shape? slot with
    | none => .error (.unsupported "missing expression")
    | some (.literal .number _ (some value)) => .ok (.number value)
    | some (.literal .number _ none) => .error (.unsupported "numeric literal")
    | some (.literal .string text _) => .ok (.string text)
    | some (.token .trueKeyword) => .ok (.boolean true)
    | some (.token .falseKeyword) => .ok (.boolean false)
    | some (.token .nullKeyword) => .ok .null
    | some (.identifier name) => environment.evaluateName name
    | some (.unary false operator operand) =>
      let unbound := operator == .typeOfKeyword &&
        match store.identifier? operand with
        | some name => !(environment.evaluateName name).toBool
        | none => false
      if unbound then .ok (.string "undefined")
      else do
        let value ← evaluateWithin store environment depth operand
        value.applyUnary operator
    | some (.binary left operator right) =>
      if operator.isAssignment then .error (.unsupported "assignment")
      else do
        let first ← evaluateWithin store environment depth left
        match operator with
        | .ampersandAmpersand =>
          if first.truthy then evaluateWithin store environment depth right else .ok first
        | .barBar =>
          if first.truthy then .ok first else evaluateWithin store environment depth right
        | .questionQuestion =>
          match first with
          | .undefined | .null => evaluateWithin store environment depth right
          | _ => .ok first
        | .comma => evaluateWithin store environment depth right
        | _ => do
          let second ← evaluateWithin store environment depth right
          first.applyBinary operator second
    | some (.conditional condition whenTrue whenFalse) => do
      let value ← evaluateWithin store environment depth condition
      if value.truthy then evaluateWithin store environment depth whenTrue
      else evaluateWithin store environment depth whenFalse
    | some (.elements .sequence items) =>
      items.foldlM (fun _ item => evaluateWithin store environment depth item) .undefined
    | some (.call _ _ _) => .error (.unsupported "call")
    | some (.access _ _ _) => .error (.unsupported "member access")
    | some _ => .error (.unsupported "expression")

/-- The value of an expression. -/
def evaluate (store : Store) (environment : Environment) (slot : Slot) : Except EvalError Value :=
  evaluateWithin store environment maxEvaluationDepth slot

/-- Whether a condition holds; a missing condition does. -/
def evaluateCondition (store : Store) (environment : Environment) (slot : Slot) :
    Except EvalError Bool :=
  if slot.isNone then .ok true else (evaluate store environment slot).map Value.truthy

/-- The value of an expression as a dispatch key. -/
def evaluateKey (store : Store) (environment : Environment) (slot : Slot) :
    Except EvalError Int :=
  (evaluate store environment slot).bind Value.toKey

/-- Binds the names of some declarations one after the other.  If one fails, the names
before it stay bound. -/
def bindDeclarations (store : Store) : List Slot → Environment → Environment × Option EvalError
  | [], environment => (environment, none)
  | declaration :: rest, environment =>
    match store.shape? declaration with
    | some (.declaration name initializer) =>
      match store.identifier? name with
      | none => (environment, some (.unsupported "binding pattern"))
      | some text =>
        let value :=
          if initializer.isSome then evaluate store environment initializer else .ok .undefined
        match value with
        | .ok value => bindDeclarations store rest (environment.bind text value)
        | .error error => (environment, some error)
    | _ => (environment, some (.unsupported "declaration"))

/-- Binds the names that a variable statement or a declaration list declares. -/
def evaluateDeclarations (store : Store) (environment : Environment) (statement : Slot) :
    Environment × Option EvalError :=
  match store.declarations? statement with
  | some declarations => bindDeclarations store declarations environment
  | none => (environment, some (.unsupported "statement"))

end Unflatten
