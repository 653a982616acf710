import Unflatten.Number.Double

/-! # The shortest decimal that reads back

Of all decimals that round to a given positive double, `shortest` picks one with the
fewest digits, and of those the nearest to the double; of two equally near ones it
takes the larger.  The interval of reals that round to `significand · 2 ^ exponent`
reaches half way to both neighbours, and its ends belong to it when the significand
is even.  All arithmetic is exact: the interval is scaled to natural numbers. -/

set_option autoImplicit false

namespace Unflatten.Number

/-- A decimal `digits · 10 ^ exponent`. -/
structure Decimal where
  digits : Nat
  exponent : Int
  deriving DecidableEq, Repr

/-- A double with half the distances to its neighbours: the double is
`value / scale`, and a real `x / scale` rounds to it when it lies between
`value - below` and `value + above`, the ends included when `closed`. -/
structure Rounding where
  value : Nat
  below : Nat
  above : Nat
  scale : Nat
  closed : Bool
  deriving DecidableEq, Repr

namespace Rounding

/-- The rounding interval of `significand · 2 ^ exponent`.  The lower neighbour of a
power of two is nearer by half, except at the smallest exponent. -/
def ofScaled (significand : Nat) (exponent : Int) : Rounding :=
  let nearBelow := significand == implicitBit && exponent != -1074
  let up := 1 <<< exponent.toNat
  { value := 4 * significand * up
    below := if nearBelow then up else 2 * up
    above := 2 * up
    scale := 4 <<< (-exponent).toNat
    closed := significand % 2 == 0 }

/-- Whether `candidate · unit / scale` rounds to the double.  The unit is given as a
fraction, so all sides are multiplied by its denominator. -/
def admits (r : Rounding) (candidate unitNum unitDen : Nat) : Bool :=
  let point := candidate * unitNum
  let low := (r.value - r.below) * unitDen
  let high := (r.value + r.above) * unitDen
  if r.closed then low ≤ point && point ≤ high else low < point && point < high

/-- The decimal on the grid of multiples of `10 ^ exponent` that reads back, if the
grid has one: of the value's two neighbours the nearer, the upper one in a tie. -/
def onGrid? (r : Rounding) (exponent : Int) : Option Decimal :=
  let unitNum := r.scale * Nat.pow 10 exponent.toNat
  let unitDen := Nat.pow 10 (-exponent).toNat
  let target := r.value * unitDen
  let lower := target / unitNum
  let upper := lower + 1
  let lowerFits := r.admits lower unitNum unitDen
  let upperFits := r.admits upper unitNum unitDen
  let preferUpper := upper * unitNum - target ≤ target - lower * unitNum
  if upperFits && (preferUpper || !lowerFits) then some ⟨upper, exponent⟩
  else if lowerFits then some ⟨lower, exponent⟩
  else none

/-- The number of decimal digits before the point. -/
def wholeDigits (r : Rounding) : Nat := (Nat.toDigits 10 (r.value / r.scale)).length

/-- The number of zeros between the point and the first other digit of a value below
one, counted up to a limit. -/
def leadingZeros (r : Rounding) : (limit : Nat) → Nat
  | 0 => 0
  | limit + 1 =>
    let zeros := r.leadingZeros limit
    if zeros = limit && r.value * Nat.pow 10 (limit + 1) < r.scale then zeros + 1 else zeros

/-- The exponent of the power of ten next above the value. -/
def topExponent (r : Rounding) : Int :=
  if r.scale ≤ r.value then r.wholeDigits else -(r.leadingZeros 330 : Int)

/-- The exact decimal expansion: the scale is a power of two. -/
def exact (r : Rounding) : Decimal :=
  ⟨r.value * Nat.pow 5 (Nat.log2 r.scale), -(Nat.log2 r.scale : Int)⟩

/-- The hit on the coarsest grid, from one digit to seventeen. -/
def search (r : Rounding) : Decimal :=
  ((List.range 17).findSome? fun (more : Nat) => r.onGrid? (r.topExponent - 1 - more)).getD r.exact

end Rounding

/-- The shortest decimal that reads back as the positive double. -/
def shortest (s : Scaled) : Decimal :=
  (Rounding.ofScaled s.significand s.exponent).search

end Unflatten.Number

/-! ## Writing numbers

`format` writes a double in positional notation.  A value without a fraction and of
magnitude below `10 ^ 21` is written exactly; any other finite value is written with
the fewest digits that read back. -/

namespace Unflatten.Number

/-- A decimal in positional notation. -/
def Decimal.positional (d : Decimal) : String :=
  let digits := Nat.toDigits 10 d.digits
  if 0 ≤ d.exponent then String.ofList (digits ++ List.replicate d.exponent.toNat '0')
  else
    let places := (-d.exponent).toNat
    let padded := List.replicate (places + 1 - digits.length) '0' ++ digits
    let whole := padded.take (padded.length - places)
    let fraction := padded.drop (padded.length - places)
    let kept := (fraction.reverse.dropWhile (· = '0')).reverse
    if kept.isEmpty then String.ofList whole
    else String.ofList (whole ++ '.' :: kept)

/-- The text of a number. -/
def format (x : Float) : String :=
  match Scaled.ofFloat? x with
  | none => if x.isNaN then "NaN" else if x > 0.0 then "Infinity" else "-Infinity"
  | some s =>
    if s.isIntegral && s.magnitude < Nat.pow 10 21 then toString s.truncate
    else (if s.negative then "-" else "") ++ (shortest s).positional

end Unflatten.Number
