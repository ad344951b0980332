/-
# The double nearest to a decimal

All doubles of one sign are multiples of the least positive one, `2 ^ -1074`,
and their bit patterns, read as numbers, come in the same order as their
values.  So rounding to a double is rounding in `Nat`: scale the fraction to
units of `2 ^ -1074`, drop as many low bits as make 53 of them remain, and add
the rounded significand to the pattern that the dropped bits select.  The
addition needs no cases: a significand that has no leading bit stays in the
subnormal range, one that rounds up to `2 ^ 53` carries into the exponent,
and whatever reaches the pattern of infinity stops there.
-/
import Scriptlet.Decimal.Basic

namespace Scriptlet

/-- The quotient `num / den` rounded to a whole number, a half going to the even one. -/
def roundHalfEven (num den : Nat) : Nat :=
  let whole := num / den
  match compare (2 * (num % den)) den with
  | .lt => whole
  | .eq => whole + whole % 2
  | .gt => whole + 1

/-- The bit pattern of positive infinity, the first one above every finite
double. -/
def infinityBits : Nat := 2047 * twoTo 52

/-- The bit pattern of the double nearest to `num / den`, a tie going to the
even significand. -/
def nearestBits (num den : Nat) : Nat :=
  let scaled := num * twoTo 1074
  let dropped := (scaled / den).log2 - 52
  min (dropped * twoTo 52 + roundHalfEven scaled (den * twoTo dropped)) infinityBits

namespace Decimal

/-- The pattern of the double that the decimal reads as. -/
def bits (d : Decimal) : Nat := nearestBits d.numerator d.denominator

/-- The double that the decimal reads as. -/
def toFloat (d : Decimal) : Float := Float.ofBits (UInt64.ofNat d.bits)

end Decimal

end Scriptlet
