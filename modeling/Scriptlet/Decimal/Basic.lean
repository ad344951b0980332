/-
# Decimal numbers

Number literals are written as digits with at most one point, and numbers are
shown the same way, never with an exponent.  Both sides of that meet here:
`Decimal.ofChars` is what a run of digits says, `Decimal.text` is how a
decimal is written down.
-/

namespace Scriptlet

/-- The power `2 ^ n`. -/
def twoTo (n : Nat) : Nat := Nat.pow 2 n

/-- The power `10 ^ n`. -/
def tenTo (n : Nat) : Nat := Nat.pow 10 n

theorem tenTo_pos (n : Nat) : 0 < tenTo n := Nat.pow_pos (by decide)

/-- The number `digits · 10 ^ exponent`. -/
structure Decimal where
  digits : Nat
  exponent : Int
deriving DecidableEq, Repr

namespace Decimal

/-- The number that a run of decimal digits spells, `0` for an empty run. -/
def digitsValue (cs : List Char) : Nat :=
  cs.foldl (fun n c => 10 * n + (c.toNat - '0'.toNat)) 0

/-- Reads digits with at most one point among them.  Every digit after the
point moves the unit one place down. -/
def ofChars (cs : List Char) : Decimal :=
  let whole := cs.takeWhile (· != '.')
  let fraction := (cs.dropWhile (· != '.')).drop 1
  ⟨digitsValue (whole ++ fraction), -(fraction.length : Int)⟩

/-- A decimal is the fraction `numerator / denominator`, one of whose sides
carries the power of ten. -/
def numerator (d : Decimal) : Nat := d.digits * tenTo d.exponent.toNat

def denominator (d : Decimal) : Nat := tenTo (-d.exponent).toNat

theorem denominator_pos (d : Decimal) : 0 < d.denominator := tenTo_pos _

/-- The decimal places that are written after the point. -/
def places (d : Decimal) : Nat := (-d.exponent).toNat

/-- Positional notation: the whole part in full, and after a point exactly the
places that the decimal has. -/
def text (d : Decimal) : String :=
  let whole := Nat.toDigits 10 (d.numerator / d.denominator)
  let fraction := (Nat.toDigits 10 (d.numerator % d.denominator)).leftpad d.places '0'
  String.ofList (if d.places = 0 then whole else whole ++ '.' :: fraction)

end Decimal

end Scriptlet
