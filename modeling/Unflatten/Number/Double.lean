/-! # Doubles as scaled integers

A finite double is `± significand · 2 ^ exponent`.  `Scaled.ofFloat?` reads the two
numbers off the bits, and everything that has to be exact is computed on them:
the truncated integer (`Scaled.truncate`), the remainder (`remainder`), the
reduction modulo `2 ^ 32` (`toUint32`) and the test for a safe integer
(`safeInteger?`). -/

set_option autoImplicit false

namespace Unflatten.Number

/-- The leading bit of a significand, `2 ^ 52`, which the bits of a double leave out. -/
def implicitBit : Nat := 4503599627370496

/-- The number of 32-bit words, `2 ^ 32`. -/
def wordCount : Nat := 4294967296

/-- The value `± significand · 2 ^ exponent`. -/
structure Scaled where
  negative : Bool
  significand : Nat
  exponent : Int
  deriving DecidableEq, Repr

namespace Scaled

/-- The scaled form of a finite double: 52 bits of fraction, 11 bits of exponent and
the sign.  The leading one is implicit unless the exponent field is zero. -/
def ofBits? (bits : Nat) : Option Scaled :=
  let fraction := bits % implicitBit
  let field := (bits >>> 52) % 2048
  let negative := (bits >>> 63) % 2 = 1
  if field = 2047 then none
  else if field = 0 then some ⟨negative, fraction, -1074⟩
  else some ⟨negative, implicitBit + fraction, (field : Int) - 1075⟩

/-- The scaled form of a double, if it is finite. -/
def ofFloat? (x : Float) : Option Scaled := ofBits? x.toBits.toNat

/-- The double with this value; exact whenever the significand fits in 53 bits. -/
def toFloat (s : Scaled) : Float :=
  let size := Float.scaleB (Float.ofNat s.significand) s.exponent
  if s.negative then -size else size

/-- The value's magnitude without its fraction. -/
def magnitude (s : Scaled) : Nat :=
  if 0 ≤ s.exponent then s.significand <<< s.exponent.toNat
  else s.significand >>> (-s.exponent).toNat

/-- The value without its fraction. -/
def truncate (s : Scaled) : Int :=
  if s.negative then -(s.magnitude : Int) else s.magnitude

/-- Whether the value has no fraction. -/
def isIntegral (s : Scaled) : Bool :=
  0 ≤ s.exponent || s.significand % Nat.pow 2 (-s.exponent).toNat == 0

theorem truncate_eq_zero_of_significand {s : Scaled} (zero : s.significand = 0) :
    s.truncate = 0 := by
  simp [truncate, magnitude, zero]

/-- The significand over a smaller exponent: the same value in finer units. -/
def unitsAt (s : Scaled) (exponent : Int) : Nat :=
  s.significand <<< (s.exponent - exponent).toNat

/-- The remainder of the division that rounds its quotient toward zero, in units of
the finer of the two exponents.  It has the sign of the dividend. -/
def remainder (dividend divisor : Scaled) : Scaled :=
  let exponent := min dividend.exponent divisor.exponent
  ⟨dividend.negative, dividend.unitsAt exponent % divisor.unitsAt exponent, exponent⟩

end Scaled

/-- The quiet not-a-number. -/
def nan : Float := 0.0 / 0.0

/-- Positive infinity. -/
def infinity : Float := 1.0 / 0.0

/-- The remainder of doubles: exact for finite operands, the dividend itself when only
the divisor is infinite, and not a number otherwise. -/
def remainder (dividend divisor : Float) : Float :=
  match Scaled.ofFloat? dividend, Scaled.ofFloat? divisor with
  | some x, some y => if y.significand = 0 then nan else (x.remainder y).toFloat
  | some _, none => if divisor.isNaN then nan else dividend
  | none, _ => nan

/-- A power of doubles.  A base of magnitude one to an infinite power is not a number,
and neither is anything raised to what is no number. -/
def power (base exponent : Float) : Float :=
  if exponent.isNaN || (base.abs == 1.0 && exponent.isInf) then nan
  else Float.pow base exponent

/-- The truncated value modulo `2 ^ 32`; zero for what is not finite. -/
def toUint32 (x : Float) : Nat :=
  match Scaled.ofFloat? x with
  | some s => (s.truncate % wordCount).toNat
  | none => 0

/-- The 32-bit word read as a two's complement number. -/
def signed32 (word : Nat) : Int := Int.bmod word wordCount

/-- The truncated value as a signed 32-bit number. -/
def toInt32 (x : Float) : Int := signed32 (toUint32 x)

theorem toUint32_lt (x : Float) : toUint32 x < wordCount := by
  unfold toUint32 wordCount
  split
  · omega
  · omega

/-- The double as an integer of magnitude below `2 ^ 53`, if it is one. -/
def safeInteger? (x : Float) : Option Int :=
  match Scaled.ofFloat? x with
  | some s => if s.isIntegral && s.magnitude < 2 * implicitBit then some s.truncate else none
  | none => none

end Unflatten.Number
