import Mathlib
import Unflatten.Evaluation.Value

/-! # Integers as doubles

An integer of magnitude below `2 ^ 53` is a double without rounding, and
`safeInteger?` reads it back.  A double is `Normal` if its leading bit is at place 52;
such a double survives rounding, packing and unpacking, and an integer becomes one by
shifting it up. -/

set_option autoImplicit false

namespace Unflatten.Number

open Float.Model Float.Model.UnpackedFloat

/-- A significand with its leading bit in place, and an exponent that fits its field. -/
structure Normal (significand : Nat) (exponent : Int) : Prop where
  leading : implicitBit ≤ significand
  fits : significand < 2 * implicitBit
  lowest : -1074 ≤ exponent
  highest : exponent ≤ 971

section Normal
variable {significand : Nat} {exponent : Int}

theorem Normal.positive (normal : Normal significand exponent) : 0 < significand :=
  Nat.lt_of_lt_of_le (by decide) normal.leading

theorem Normal.log2_scaled (normal : Normal significand exponent) (extra : Nat) :
    (significand * 2 ^ extra).log2 = 52 + extra := by
  have leading := Nat.mul_le_mul_right (2 ^ extra) normal.leading
  have fits := Nat.mul_lt_mul_of_pos_right normal.fits (Nat.two_pow_pos extra)
  have nonzero : significand * 2 ^ extra ≠ 0 :=
    Nat.mul_ne_zero (Nat.pos_iff_ne_zero.mp normal.positive) (Nat.two_pow_pos extra).ne'
  have unit : implicitBit = 2 ^ 52 := rfl
  rw [unit, ← pow_add] at leading
  rw [unit, ← pow_succ', ← pow_add] at fits
  exact (Nat.log2_eq_iff nonzero).mpr ⟨leading, by rwa [Nat.add_right_comm] at fits⟩

/-- Shifting an exact mantissa down leaves nothing behind. -/
theorem shiftRight_exact (kept shift : Nat) :
    (⟨kept * 2 ^ shift, false, false⟩ : ExtendedMantissa) >>> shift = ⟨kept, false, false⟩ := by
  show Nat.repeat ExtendedMantissa.shiftRightOne shift _ = _
  induction shift generalizing kept with
  | zero => simp [Nat.repeat]
  | succ shift ih =>
    have doubled : kept * 2 ^ (shift + 1) = (kept * 2) * 2 ^ shift := by ring
    rw [doubled, Nat.repeat, ih (kept * 2)]
    simp [ExtendedMantissa.shiftRightOne]

theorem Normal.shiftToTarget (normal : Normal significand exponent) (extra : Nat) :
    shiftToTargetExponent Format.binary64 (significand * 2 ^ extra) (exponent - extra) .exact =
      (⟨significand, false, false⟩, exponent) := by
  have lowest := normal.lowest
  have target : Format.binary64.targetExponent
      (totalExponent (significand * 2 ^ extra) (exponent - extra)) = exponent := by
    simp only [Format.targetExponent, totalExponent, normal.log2_scaled extra,
      Format.mantissaBits, Format.minExponent]
    omega
  have amount : (exponent - (exponent - extra)).toNat = extra := by omega
  simp only [shiftToTargetExponent, target, shiftToExponent, amount,
    ExtendedMantissa.ofMantissaAndAccuracy, shiftRight_exact]
  congr 1
  omega

/-- An exact mantissa with low zeros is rounded to the bits above them. -/
theorem Normal.round (normal : Normal significand exponent) (extra : Nat) (sign : Sign) :
    roundWithAccuracy Format.binary64 sign (significand * 2 ^ extra) (exponent - extra) .exact =
      .finite sign significand exponent normal.positive := by
  have again := normal.shiftToTarget 0
  have nonzero : significand ≠ 0 := Nat.pos_iff_ne_zero.mp normal.positive
  simp only [pow_zero, mul_one, Nat.cast_zero, sub_zero] at again
  simp [roundWithAccuracy, normal.shiftToTarget extra, ExtendedMantissa.roundedMantissa,
    ExtendedMantissa.accuracy, Accuracy.roundToNearestEven, again, nonzero]

/-- The packed form has the sign, the exponent field and the fraction side by side. -/
theorem Normal.pack (normal : Normal significand exponent) (sign : Sign) :
    UnpackedFloat.pack Format.binary64 (.finite sign significand exponent normal.positive) =
      packComponents Format.binary64 sign (BitVec.ofNat 11 (exponent + 1075).toNat)
        (BitVec.ofNat 52 significand) := by
  have lowest := normal.lowest
  have highest := normal.highest
  have place : significand.log2 = 52 := by simpa using normal.log2_scaled 0
  have biased : (exponent + Format.binary64.exponentBias +
      Format.binary64.mantissaBitsWithoutImplicit).toNat = (exponent + 1075).toNat := by
    change (exponent + 1023 + 52).toNat = _
    omega
  have finite : ¬ 2 ^ Format.binary64.exponentBits ≤ (exponent + 1075).toNat + 1 := by
    change ¬ 2048 ≤ _
    omega
  simp only [UnpackedFloat.pack, biased, finite, if_false, place]
  rfl

theorem toNat_packComponents (sign : Sign) (field : BitVec 11) (fraction : BitVec 52) :
    (packComponents Format.binary64 sign field fraction).toNat =
      sign.toBitVec.toNat * 2 ^ 63 + field.toNat * 2 ^ 52 + fraction.toNat := by
  have high := field.isLt
  have low := fraction.isLt
  show ((sign.toBitVec ++ field) ++ fraction).toNat = _
  rw [BitVec.toNat_append, BitVec.toNat_append, Nat.shiftLeft_eq, Nat.shiftLeft_eq,
    ← Nat.shiftLeft_eq, ← Nat.shiftLeft_eq, ← Nat.shiftLeft_add_eq_or_of_lt high,
    ← Nat.shiftLeft_add_eq_or_of_lt low, Nat.shiftLeft_eq, Nat.shiftLeft_eq]
  ring

/-- The scaled form is read off the packed one. -/
theorem Normal.ofBits? (normal : Normal significand exponent) (sign : Sign) :
    Scaled.ofBits? (UnpackedFloat.pack Format.binary64
        (.finite sign significand exponent normal.positive)).toNat =
      some ⟨sign == .negative, significand, exponent⟩ := by
  have leading := normal.leading
  have fits := normal.fits
  have lowest := normal.lowest
  have highest := normal.highest
  rw [normal.pack, toNat_packComponents]
  unfold implicitBit at leading fits
  have field : (BitVec.ofNat 11 (exponent + 1075).toNat).toNat = (exponent + 1075).toNat := by
    simp only [BitVec.toNat_ofNat]
    omega
  have fraction : (BitVec.ofNat 52 significand).toNat = significand - 2 ^ 52 := by
    simp only [BitVec.toNat_ofNat]
    omega
  have signBit : sign.toBitVec.toNat ≤ 1 := by cases sign <;> decide
  rw [field, fraction]
  have low : (sign.toBitVec.toNat * 2 ^ 63 + (exponent + 1075).toNat * 2 ^ 52 +
      (significand - 2 ^ 52)) % implicitBit = significand - 2 ^ 52 := by
    unfold implicitBit; omega
  have middle : (sign.toBitVec.toNat * 2 ^ 63 + (exponent + 1075).toNat * 2 ^ 52 +
      (significand - 2 ^ 52)) >>> 52 % 2048 = (exponent + 1075).toNat := by
    rw [Nat.shiftRight_eq_div_pow]; omega
  have top : (sign.toBitVec.toNat * 2 ^ 63 + (exponent + 1075).toNat * 2 ^ 52 +
      (significand - 2 ^ 52)) >>> 63 % 2 = sign.toBitVec.toNat := by
    rw [Nat.shiftRight_eq_div_pow]; omega
  have inner : ¬ (exponent + 1075).toNat = 2047 := by omega
  have nonzero : ¬ (exponent + 1075).toNat = 0 := by omega
  simp only [Scaled.ofBits?, low, middle, top, inner, nonzero, if_false, Option.some.injEq,
    Scaled.mk.injEq]
  refine ⟨?_, ?_, ?_⟩
  · cases sign <;> rfl
  · unfold implicitBit; omega
  · omega

theorem Normal.unpack_pack (normal : Normal significand exponent) (sign : Sign) :
    UnpackedFloat.unpack Format.binary64 (UnpackedFloat.pack Format.binary64
        (.finite sign significand exponent normal.positive)) =
      .finite sign significand exponent normal.positive := by
  have leading := normal.leading
  have fits := normal.fits
  have lowest := normal.lowest
  have highest := normal.highest
  unfold implicitBit at leading fits
  rw [normal.pack]
  have field : (BitVec.ofNat 11 (exponent + 1075).toNat).toNat = (exponent + 1075).toNat := by
    simp only [BitVec.toNat_ofNat]
    omega
  have inner : BitVec.ofNat 11 (exponent + 1075).toNat ≠ -1#11 := by
    intro same
    have number := congrArg BitVec.toNat same
    rw [field] at number
    change (exponent + 1075).toNat = 2047 at number
    omega
  have nonzero : BitVec.ofNat 11 (exponent + 1075).toNat ≠ 0#11 := by
    intro same
    have number := congrArg BitVec.toNat same
    rw [field] at number
    change (exponent + 1075).toNat = 0 at number
    omega
  have top : unpackSign (packComponents Format.binary64 sign
      (BitVec.ofNat 11 (exponent + 1075).toNat) (BitVec.ofNat 52 significand)) =
        sign.toBitVec := by
    apply BitVec.eq_of_toNat_eq
    have low := (BitVec.ofNat 52 significand).isLt
    have middle := (BitVec.ofNat 11 (exponent + 1075).toNat).isLt
    have signBit := sign.toBitVec.isLt
    show ((packComponents Format.binary64 sign _ _).toNat >>> 63) % 2 ^ 1 = _
    rw [toNat_packComponents, Nat.shiftRight_eq_div_pow]
    omega
  have whole : (1#1 ++ BitVec.ofNat 52 significand).toNat = significand := by
    rw [BitVec.toNat_append, ← Nat.shiftLeft_add_eq_or_of_lt (BitVec.isLt _)]
    simp only [BitVec.toNat_ofNat, Nat.shiftLeft_eq]
    omega
  have unbiased : ((exponent + 1075).toNat : Int) -
      (Format.binary64.exponentBias + Format.binary64.mantissaBitsWithoutImplicit) = exponent := by
    change ((exponent + 1075).toNat : Int) - (1023 + 52) = exponent
    omega
  have back : Sign.ofBitVec sign.toBitVec = sign := by cases sign <;> rfl
  simp only [UnpackedFloat.unpack, unpackExponent_packComponents, unpackMantissa_packComponents,
    inner, nonzero, if_false, top, back, whole, field, unbiased]

end Normal

/-! ## Integers -/

/-- A number shifted up until its leading bit is in place. -/
def lifted (size : Nat) : Nat := size * 2 ^ (52 - size.log2)

/-- The exponent that makes up for the shift. -/
def liftedExponent (size : Nat) : Int := size.log2 - 52

section Integer
variable {size : Nat}

theorem normal_lifted (positive : 0 < size) (safe : size < 2 * implicitBit) :
    Normal (lifted size) (liftedExponent size) := by
  have nonzero := Nat.pos_iff_ne_zero.mp positive
  have place : size.log2 < 53 := (Nat.log2_lt nonzero).mpr safe
  have lower := Nat.mul_le_mul_right (2 ^ (52 - size.log2)) (Nat.log2_self_le nonzero)
  have upper := Nat.mul_lt_mul_of_pos_right (Nat.lt_log2_self (n := size))
    (Nat.two_pow_pos (52 - size.log2))
  rw [← pow_add] at lower upper
  have full : size.log2 + (52 - size.log2) = 52 := by omega
  have above : size.log2 + 1 + (52 - size.log2) = 53 := by omega
  rw [full] at lower
  rw [above] at upper
  unfold liftedExponent
  exact ⟨lower, upper, by omega, by omega⟩

theorem round_integer (positive : 0 < size) (safe : size < 2 * implicitBit) :
    UnpackedFloat.round Format.binary64 .positive size 0 =
      .finite .positive (lifted size) (liftedExponent size)
        (normal_lifted positive safe).positive := by
  have place : size.log2 < 53 := (Nat.log2_lt (Nat.pos_iff_ne_zero.mp positive)).mpr safe
  have target : Format.binary64.targetExponent (totalExponent size 0) = liftedExponent size := by
    simp only [Format.targetExponent, totalExponent, Format.mantissaBits, Format.minExponent,
      liftedExponent]
    omega
  have amount : (0 - liftedExponent size).toNat = 52 - size.log2 := by
    unfold liftedExponent
    omega
  have left : (0 : Int) - (52 - size.log2 : Nat) = liftedExponent size := by
    unfold liftedExponent
    omega
  have rounded := (normal_lifted positive safe).round 0 .positive
  simp only [pow_zero, mul_one, Nat.cast_zero, sub_zero] at rounded
  simp only [UnpackedFloat.round, target, decreaseExponent, amount, left, Nat.shiftLeft_eq]
  exact rounded

/-- A positive safe integer as a double. -/
theorem toModel_ofNat (positive : 0 < size) (safe : size < 2 * implicitBit) :
    (Float.ofNat size).toModel = Float.Model.pack
      (.finite .positive (lifted size) (liftedExponent size)
        (normal_lifted positive safe).positive) := by
  have normal := normal_lifted positive safe
  have bound : size < 2 ^ 53 := safe
  have word : (size.toUInt64).toNat = size := by
    simp only [Nat.toUInt64, UInt64.toNat_ofNat']
    omega
  have order : compare (size : Int) 0 = .gt := by
    rw [compare_gt_iff_gt]
    exact_mod_cast positive
  have converted : (size.toUInt64.toFloat).toModel = Float.Model.pack
      (.finite .positive (lifted size) (liftedExponent size) normal.positive) := by
    show Float.Model.pack (UnpackedFloat.ofUInt64 Format.binary64 size.toUInt64) = _
    simp only [UnpackedFloat.ofUInt64, UnpackedFloat.ofNat, UnpackedFloat.ofInt,
      UnpackedFloat.normalize, word,
      order, Int.toNat_natCast, round_integer positive safe]
  have product : Float.ofNat size = size.toUInt64.toFloat * Float.ofBits 0x3FF0000000000000 := by
    show Float.ofScientific size false 0 = _
    rw [Float.ofScientific, dif_pos ⟨bound, by omega⟩]
    rfl
  have one : (Float.ofBits 0x3FF0000000000000).toModel.unpack =
      .finite .positive (2 ^ 52) (-52) (by decide) := by rfl
  have unpacked : (size.toUInt64.toFloat).toModel.unpack =
      .finite .positive (lifted size) (liftedExponent size) normal.positive := by
    rw [converted]
    exact normal.unpack_pack .positive
  rw [product]
  show Float.Model.pack (UnpackedFloat.mul Format.binary64 _ _) = _
  rw [unpacked, one]
  exact congrArg Float.Model.pack (normal.round 52 .positive)

theorem ofFloat?_ofNat (positive : 0 < size) (safe : size < 2 * implicitBit) :
    Scaled.ofFloat? (Float.ofNat size) = some ⟨false, lifted size, liftedExponent size⟩ := by
  show Scaled.ofBits? (Float.ofNat size).toModel.toBits.toNat = _
  rw [toModel_ofNat positive safe]
  exact (normal_lifted positive safe).ofBits? .positive

theorem ofFloat?_neg_ofNat (positive : 0 < size) (safe : size < 2 * implicitBit) :
    Scaled.ofFloat? (-Float.ofNat size) = some ⟨true, lifted size, liftedExponent size⟩ := by
  have normal := normal_lifted positive safe
  show Scaled.ofBits? (Float.Model.pack (Float.ofNat size).toModel.unpack.neg).toBits.toNat = _
  rw [toModel_ofNat positive safe]
  show Scaled.ofBits? (UnpackedFloat.pack Format.binary64
    (UnpackedFloat.unpack Format.binary64 (UnpackedFloat.pack Format.binary64 _)).neg).toNat = _
  rw [normal.unpack_pack .positive]
  exact normal.ofBits? .negative

theorem lifted_eq (positive : 0 < size) (safe : size < 2 * implicitBit) (negative : Bool) :
    (⟨negative, lifted size, liftedExponent size⟩ : Scaled).magnitude = size ∧
      (⟨negative, lifted size, liftedExponent size⟩ : Scaled).isIntegral := by
  have place : size.log2 < 53 := (Nat.log2_lt (Nat.pos_iff_ne_zero.mp positive)).mpr safe
  have amount : (-liftedExponent size).toNat = 52 - size.log2 := by
    unfold liftedExponent
    omega
  by_cases whole : 0 ≤ liftedExponent size
  · have none : 52 - size.log2 = 0 := by
      unfold liftedExponent at whole
      omega
    have still : (liftedExponent size).toNat = 0 := by
      unfold liftedExponent
      omega
    simp [Scaled.magnitude, Scaled.isIntegral, lifted, whole, none, still]
  · have restored : lifted size >>> (52 - size.log2) = size := by
      rw [Nat.shiftRight_eq_div_pow]
      exact Nat.mul_div_cancel _ (Nat.two_pow_pos _)
    have divides : lifted size % 2 ^ (52 - size.log2) = 0 := Nat.mul_mod_left _ _
    simp only [Scaled.magnitude, Scaled.isIntegral, if_neg whole, amount, restored]
    simp [whole, divides]

end Integer

theorem significand_zero (negative : Bool) (exponent : Int) :
    (⟨negative, 0, exponent⟩ : Scaled).magnitude = 0 ∧
      (⟨negative, 0, exponent⟩ : Scaled).isIntegral := by
  constructor
  · simp [Scaled.magnitude]
  · simp [Scaled.isIntegral]

/-- A safe integer is read back from its double. -/
theorem safeInteger?_ofInt (value : Int) (safe : value.natAbs < 2 * implicitBit) :
    safeInteger? (Float.ofInt value) = some value := by
  cases value with
  | ofNat size =>
    by_cases zero : size = 0
    · subst zero
      have read : Scaled.ofFloat? (Float.ofInt (Int.ofNat 0)) = some ⟨false, 0, -1074⟩ := by decide
      obtain ⟨magnitude, integral⟩ := significand_zero false (-1074)
      rw [safeInteger?, read]
      simp [magnitude, integral, Scaled.truncate, implicitBit]
    · have positive := Nat.pos_of_ne_zero zero
      have small : size < 2 * implicitBit := safe
      obtain ⟨magnitude, integral⟩ := lifted_eq positive small false
      have read : Scaled.ofFloat? (Float.ofInt (Int.ofNat size)) =
          Scaled.ofFloat? (Float.ofNat size) := rfl
      rw [safeInteger?, read, ofFloat?_ofNat positive small]
      simp [magnitude, integral, Scaled.truncate, small]
  | negSucc below =>
    have positive : 0 < below + 1 := Nat.succ_pos below
    have small : below + 1 < 2 * implicitBit := safe
    obtain ⟨magnitude, integral⟩ := lifted_eq positive small true
    have read : Scaled.ofFloat? (Float.ofInt (Int.negSucc below)) =
        Scaled.ofFloat? (-Float.ofNat (below + 1)) := rfl
    rw [safeInteger?, read, ofFloat?_neg_ofNat positive small]
    simp [magnitude, integral, Scaled.truncate, small, Int.negSucc_eq]

end Unflatten.Number
