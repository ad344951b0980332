/-
# Doubles and their bit patterns

A double is its bit pattern: `Float.toBits` undoes `Float.ofBits` on every
pattern that is not one of the many spellings of "not a number", and that is the
case up to the pattern of infinity.  The doubles a script can spell are those
whose pattern, read as a number, is below it; those are the finite ones without
a sign.
-/
import Mathlib
import Scriptlet.Decimal.Shortest

namespace Scriptlet

open Float.Model Float.Model.UnpackedFloat

/-! ## The parts of a pattern -/

abbrev Pattern := BitVec Format.binary64.numBits

theorem exponent_toNat (b : Pattern) :
    (unpackExponent b).toNat = b.toNat / 2 ^ 52 % 2 ^ 11 := by
  simp [unpackExponent, Nat.shiftRight_eq_div_pow]

theorem mantissa_toNat (b : Pattern) :
    (unpackMantissa b).toNat = b.toNat % 2 ^ 52 := by
  simp [unpackMantissa]

theorem exponent_eq_ones_iff (b : Pattern) :
    unpackExponent b = -1#_ ↔ b.toNat / 2 ^ 52 % 2 ^ 11 = 2047 := by
  rw [← BitVec.toNat_inj, exponent_toNat]
  rfl

theorem unpack_isFinite_iff (b : Pattern) :
    (UnpackedFloat.unpack Format.binary64 b).isFinite = true ↔
      b.toNat / 2 ^ 52 % 2 ^ 11 ≠ 2047 := by
  rw [Ne, ← exponent_eq_ones_iff]
  unfold UnpackedFloat.unpack
  dsimp only
  by_cases special : unpackExponent b = -1#_
  · rw [if_pos special]
    split <;> exact iff_of_false Bool.false_ne_true fun h => h special
  · rw [if_neg special]
    split
    · split <;> exact iff_of_true rfl special
    · exact iff_of_true rfl special

/-- Patterns up to that of infinity leave the fraction clear where it would
make them something that is not a number. -/
theorem mantissa_eq_zero {b : Pattern} (h : b.toNat ≤ infinityBits)
    (special : unpackExponent b = -1#_) : unpackMantissa b = 0#_ := by
  have bound : infinityBits = 2047 * 2 ^ 52 := rfl
  rw [exponent_eq_ones_iff] at special
  apply BitVec.eq_of_toNat_eq
  rw [mantissa_toNat]
  show _ = 0
  omega

theorem valid_of_le {b : Pattern} (h : b.toNat ≤ infinityBits) : Format.binary64.Valid b :=
  ⟨fun special something => absurd (mantissa_eq_zero h special) something⟩

theorem unpack_isNaN_eq_false {b : Pattern} (h : b.toNat ≤ infinityBits) :
    (UnpackedFloat.unpack Format.binary64 b).isNaN = false := by
  unfold UnpackedFloat.unpack
  dsimp only
  by_cases special : unpackExponent b = -1#_
  · rw [if_pos special, if_pos (mantissa_eq_zero h special)]
    rfl
  · rw [if_neg special]
    split
    · split <;> rfl
    · rfl

/-! ## Doubles -/

theorem toBits_ofBits {bits : UInt64} (valid : Format.binary64.Valid bits.toBitVec) :
    (Float.ofBits bits).toBits = bits := by
  show UInt64.ofBitVec (UnpackedFloat.pack Format.binary64
    (UnpackedFloat.unpack Format.binary64 bits.toBitVec)) = bits
  rw [pack_unpack_of_valid valid]

theorem toNat_toBits_ofBits {bits : Nat} (h : bits ≤ infinityBits) :
    (Float.ofBits (UInt64.ofNat bits)).toBits.toNat = bits := by
  have bound : infinityBits = 2047 * 2 ^ 52 := rfl
  have fits : bits < 2 ^ 64 := by omega
  have same : (UInt64.ofNat bits).toNat = bits := UInt64.toNat_ofNat_of_lt fits
  have valid : Format.binary64.Valid (UInt64.ofNat bits).toBitVec := by
    refine valid_of_le ?_
    show (UInt64.ofNat bits).toNat ≤ _
    rwa [same]
  rw [toBits_ofBits valid, same]

/-- The finite doubles without a sign are those below infinity. -/
theorem finite_unsigned_iff (x : Float) :
    x.isFinite = true ∧ x.toBits.toNat < twoTo 63 ↔ x.toBits.toNat < infinityBits := by
  have bound : infinityBits = 2047 * 2 ^ 52 := rfl
  have half : twoTo 63 = 2 ^ 63 := rfl
  have finite : x.isFinite = true ↔ x.toBits.toNat / 2 ^ 52 % 2 ^ 11 ≠ 2047 :=
    unpack_isFinite_iff x.toBits.toBitVec
  rw [finite]
  omega

theorem isNaN_eq_false {x : Float} (h : x.toBits.toNat ≤ infinityBits) : x.isNaN = false :=
  unpack_isNaN_eq_false (show BitVec.toNat (x.toBits.toBitVec : Pattern) ≤ _ from h)

end Scriptlet
