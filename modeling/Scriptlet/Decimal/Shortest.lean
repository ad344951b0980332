/-
# The shortest decimal that reads back

A number is shown with the fewest digits from which `Decimal.toFloat` gets the
same double again.  The search goes over grids, the multiples of one power of
ten each, from coarse to fine, and on every grid it tries only the two
neighbours of the value: when any point of a grid reads back, a neighbour
does.  Of two neighbours that both read back the nearer one is taken, and the
upper one if the value lies halfway.  Every double is a multiple of
`10 ^ -1074`, so the last grid holds the value itself and the search always
ends with a decimal that reads back.
-/
import Scriptlet.Decimal.Nearest

namespace Scriptlet

/-- The value of a finite positive bit pattern, in units of `2 ^ -1074`. -/
def unitsOfBits (bits : Nat) : Nat :=
  let exponent := bits / twoTo 52
  let fraction := bits % twoTo 52
  if exponent = 0 then fraction else (twoTo 52 + fraction) * twoTo (exponent - 1)

namespace Decimal

/-- The two neighbours of `units · 2 ^ -1074` among the multiples of
`10 ^ exponent`, the nearer one first. -/
def neighbours (units : Nat) (exponent : Int) : List Decimal :=
  let num := units * tenTo (-exponent).toNat
  let den := twoTo 1074 * tenTo exponent.toNat
  let below : Decimal := ⟨num / den, exponent⟩
  let above : Decimal := ⟨num / den + 1, exponent⟩
  if den ≤ 2 * (num % den) then [above, below] else [below, above]

/-- The value `units · 2 ^ -1074` written out in full. -/
def exact (units : Nat) : Decimal := ⟨units * Nat.pow 5 1074, -1074⟩

/-- Searches the grids `10 ^ exponent`, `10 ^ (exponent - 1)`, … for a
neighbour of the value that reads back as `bits`, and settles for the exact
value after the last one. -/
def searchGrids (bits units : Nat) : (grids : Nat) → (exponent : Int) → Decimal
  | 0, _ => exact units
  | grids + 1, exponent =>
    match (neighbours units exponent).find? (·.bits = bits) with
    | some d => d
    | none => searchGrids bits units grids (exponent - 1)

/-- A power of ten above the value.  The value is below `2 ^ (log2 - 1073)`,
a factor 2 is worth 0.30103 decimal places, and the 3 makes up for the
rounding. -/
def coarsestExponent (units : Nat) : Int :=
  ((units.log2 : Int) - 1073) * 3 / 10 + 3

/-- The decimal with the fewest digits that reads back as the finite positive
pattern `bits`; zero is written without places. -/
def shortest (bits : Nat) : Decimal :=
  let units := unitsOfBits bits
  if units = 0 then ⟨0, 0⟩
  else
    let start := coarsestExponent units
    searchGrids bits units (start + 1074).toNat start

end Decimal

/-- A number as text.  Negative zero keeps its sign, and a value that is not a
number has none. -/
def numberText (x : Float) : String :=
  if x.isNaN then "NaN"
  else
    let pattern := x.toBits.toNat
    let magnitude := pattern % twoTo 63
    let sign := if pattern = magnitude then "" else "-"
    sign ++ if magnitude = infinityBits then "inf" else (Decimal.shortest magnitude).text

end Scriptlet
