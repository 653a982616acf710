import Unflatten.Number.Shortest
import Unflatten.Number.Numeral
import Unflatten.Text.Units

/-! # Values

The primitive values of the language with their conversions and comparisons.  A value
converts to a truth value, a number and a text; two values are compared for equality
with or without conversion, and for order by text if both are texts and by number
otherwise. -/

set_option autoImplicit false

namespace Unflatten

/-- A primitive value. -/
inductive Value where
  | number (value : Float)
  | boolean (value : Bool)
  | string (value : String)
  | undefined
  | null
  deriving Repr, Inhabited

/-- Why an expression has no value here. -/
inductive EvalError where
  | unboundName (name : String)
  | unsupported (what : String)
  | depthExceeded (limit : Nat)
  | notInteger (text : String)
  deriving DecidableEq, Repr

namespace EvalError

/-- The name of the kind of error. -/
def name : EvalError → String
  | .unboundName _ => "UnboundName"
  | .unsupported _ => "Unsupported"
  | .depthExceeded _ => "DepthExceeded"
  | .notInteger _ => "NotInteger"

/-- The text of an error. -/
def message : EvalError → String
  | .unboundName name => "unbound name '" ++ name ++ "'"
  | .unsupported what => "unsupported construct: " ++ what
  | .depthExceeded limit => "evaluation exceeded depth " ++ toString limit
  | .notInteger text => "value " ++ text ++ " is not an integer"

end EvalError

namespace Value

/-- Whether a value counts as true. -/
def truthy : Value → Bool
  | .number value => value != 0.0 && !value.isNaN
  | .boolean value => value
  | .string value => !value.isEmpty
  | .undefined | .null => false

/-- The number a value converts to. -/
def toNumber : Value → Float
  | .number value => value
  | .boolean value => if value then 1.0 else 0.0
  | .string value => Number.ofText value
  | .undefined => Number.nan
  | .null => 0.0

/-- The text a value converts to. -/
def toText : Value → String
  | .number value => Number.format value
  | .boolean value => if value then "true" else "false"
  | .string value => value
  | .undefined => "undefined"
  | .null => "null"

/-- The signed 32-bit number a value converts to. -/
def toInt32 (value : Value) : Int := Number.toInt32 value.toNumber

/-- The unsigned 32-bit number a value converts to. -/
def toUint32 (value : Value) : Nat := Number.toUint32 value.toNumber

/-- The name of the type of a value. -/
def typeName : Value → String
  | .number _ => "number"
  | .boolean _ => "boolean"
  | .string _ => "string"
  | .undefined => "undefined"
  | .null => "object"

/-- A number as a dispatch key: it must be a safe integer. -/
def toKey (value : Value) : Except EvalError Int :=
  let key? := match value with
    | .number x => Number.safeInteger? x
    | _ => none
  match key? with
  | some key => .ok key
  | none => .error (.notInteger value.toText)

/-- Equality without conversion. -/
def strictEquals : Value → Value → Bool
  | .number a, .number b => a == b
  | .boolean a, .boolean b => a == b
  | .string a, .string b => a == b
  | .undefined, .undefined => true
  | .null, .null => true
  | _, _ => false

/-- A truth value as a number; any other value is left as it is. -/
def booleanAsNumber : Value → Value
  | .boolean value => .number (if value then 1.0 else 0.0)
  | value => value

/-- Equality with conversion: `null` and `undefined` equal each other and nothing else,
truth values count as numbers, and a text is compared with a number as a number. -/
def looseEquals (left right : Value) : Bool :=
  match left.booleanAsNumber, right.booleanAsNumber with
  | .null, .null | .null, .undefined | .undefined, .null | .undefined, .undefined => true
  | .null, _ | .undefined, _ | _, .null | _, .undefined => false
  | .number a, .string b => a == Number.ofText b
  | .string a, .number b => Number.ofText a == b
  | a, b => strictEquals a b

/-- The order of two values; none if a number is missing. -/
def compare? (left right : Value) : Option Ordering :=
  match left, right with
  | .string a, .string b => some (Text.compareUnits a b)
  | _, _ =>
    let a := left.toNumber
    let b := right.toNumber
    if a < b then some .lt else if b < a then some .gt else if a == b then some .eq else none

end Value

end Unflatten
