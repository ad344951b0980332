/-
# Numbers read back as they were shown

`numberText` of a double that a script can spell is a number literal of the
language, digits with at most one point and a digit on both sides of it, and
reading that literal gives the same double.

Two facts make this up.  The digits that `Decimal.text` writes say the decimal
again, whatever it is.  And the decimal that `Decimal.shortest` finds reads as
the pattern it was searched for: the search only ever stops at a decimal that
does, and when it does not stop, the exact value of the pattern does.
-/
import Scriptlet.Proofs.Decimal.Bits

namespace Scriptlet

/-! ## The digits of a decimal -/

namespace Decimal

theorem digitsValue_eq (cs : List Char) : digitsValue cs = Nat.ofDigitChars 10 cs 0 :=
  Nat.ofDigitChars_eq_foldl.symm

theorem digitsValue_append (cs ds : List Char) :
    digitsValue (cs ++ ds) = digitsValue cs * 10 ^ ds.length + digitsValue ds := by
  rw [digitsValue_eq, Nat.ofDigitChars_append, Nat.ofDigitChars_eq_ofDigitChars_zero,
    ← digitsValue_eq, ← digitsValue_eq, Nat.mul_comm]

theorem digitsValue_toDigits (n : Nat) : digitsValue (Nat.toDigits 10 n) = n := by
  rw [digitsValue_eq, Nat.ofDigitChars_ten_toDigits]

theorem digitsValue_leftpad (n : Nat) (cs : List Char) :
    digitsValue (cs.leftpad n '0') = digitsValue cs := by
  rw [List.leftpad, digitsValue_append, digitsValue_eq (List.replicate _ _),
    Nat.ofDigitChars_replicate_zero, Nat.mul_zero, Nat.zero_mul, Nat.zero_add]

/-- The digits before the point. -/
def wholeDigits (d : Decimal) : List Char := Nat.toDigits 10 (d.numerator / d.denominator)

/-- The digits after the point. -/
def fractionDigits (d : Decimal) : List Char :=
  (Nat.toDigits 10 (d.numerator % d.denominator)).leftpad d.places '0'

theorem text_toList (d : Decimal) : d.text.toList =
    if d.places = 0 then d.wholeDigits else d.wholeDigits ++ '.' :: d.fractionDigits := by
  show (String.ofList _).toList = _
  rw [String.toList_ofList]
  rfl

theorem wholeDigits_ne_nil (d : Decimal) : d.wholeDigits ≠ [] := Nat.toDigits_ne_nil

theorem isDigit_of_mem_wholeDigits {d : Decimal} {c : Char} (h : c ∈ d.wholeDigits) :
    c.isDigit := Nat.isDigit_of_mem_toDigits (by decide) (by decide) h

theorem isDigit_of_mem_fractionDigits {d : Decimal} {c : Char} (h : c ∈ d.fractionDigits) :
    c.isDigit := by
  unfold fractionDigits List.leftpad at h
  rcases List.mem_append.1 h with pad | digit
  · rw [List.eq_of_mem_replicate pad]
    decide
  · exact Nat.isDigit_of_mem_toDigits (by decide) (by decide) digit

/-- Behind the point stand exactly the places of the decimal. -/
theorem fractionDigits_length {d : Decimal} (h : d.places ≠ 0) :
    d.fractionDigits.length = d.places := by
  have below : d.numerator % d.denominator < 10 ^ d.places :=
    Nat.mod_lt _ d.denominator_pos
  have short := (Nat.length_toDigits_le_iff (by decide) (Nat.pos_of_ne_zero h)).2 below
  unfold fractionDigits List.leftpad
  rw [List.length_append, List.length_replicate]
  omega

/-- Digits have no point among them. -/
theorem ne_point {cs : List Char} (h : ∀ c ∈ cs, c.isDigit) : ∀ c ∈ cs, (c != '.') = true := by
  intro c member
  rw [bne_iff_ne]
  rintro rfl
  exact absurd (h _ member) (by decide)

theorem ofChars_whole {cs : List Char} (h : ∀ c ∈ cs, c.isDigit) :
    ofChars cs = ⟨digitsValue cs, 0⟩ := by
  have whole : cs.takeWhile (· != '.') = cs := List.takeWhile_eq_self_iff.2 (ne_point h)
  have rest : cs.dropWhile (· != '.') = [] := List.dropWhile_eq_nil_iff.2 (ne_point h)
  unfold ofChars
  rw [whole, rest]
  simp

theorem ofChars_point {cs ds : List Char} (h : ∀ c ∈ cs, c.isDigit) :
    ofChars (cs ++ '.' :: ds) = ⟨digitsValue (cs ++ ds), -(ds.length : Int)⟩ := by
  have whole : (cs ++ '.' :: ds).takeWhile (· != '.') = cs := by
    rw [List.takeWhile_append_of_pos (ne_point h)]
    simp
  have rest : (cs ++ '.' :: ds).dropWhile (· != '.') = '.' :: ds := by
    rw [List.dropWhile_append_of_pos (ne_point h)]
    simp
  unfold ofChars
  rw [whole, rest]
  rfl

/-- The characters of a decimal say a decimal of the same value. -/
theorem ofChars_text (d : Decimal) : (ofChars d.text.toList).bits = d.bits := by
  have digits : ∀ c ∈ d.wholeDigits, c.isDigit := fun c => isDigit_of_mem_wholeDigits
  rw [text_toList]
  by_cases whole : d.places = 0
  · have unit : d.denominator = 1 := by
      show tenTo d.places = 1
      rw [whole]
      rfl
    have value : digitsValue d.wholeDigits = d.numerator := by
      unfold wholeDigits
      rw [digitsValue_toDigits, unit, Nat.div_one]
    rw [if_pos whole, ofChars_whole digits, value]
    show nearestBits (d.numerator * tenTo 0) (tenTo 0) = nearestBits d.numerator d.denominator
    rw [unit]
    show nearestBits (d.numerator * 1) 1 = _
    rw [Nat.mul_one]
  · have below : d.exponent.toNat = 0 := by
      unfold places at whole
      omega
    have num : d.numerator = d.digits := by
      show d.digits * tenTo d.exponent.toNat = d.digits
      rw [below]
      exact Nat.mul_one _
    have value : digitsValue (d.wholeDigits ++ d.fractionDigits) = d.digits := by
      have unit : d.denominator = 10 ^ d.places := rfl
      rw [digitsValue_append, fractionDigits_length whole]
      unfold wholeDigits fractionDigits
      rw [digitsValue_toDigits, digitsValue_leftpad, digitsValue_toDigits, ← unit,
        Nat.div_add_mod', num]
    have exponent : -(d.places : Int) = d.exponent := by
      unfold places at whole ⊢
      omega
    rw [if_neg whole, ofChars_point digits, value, fractionDigits_length whole, exponent]

end Decimal

/-! ## The pattern of a value -/

theorem roundHalfEven_exact (whole den : Nat) (h : 0 < den) :
    roundHalfEven (whole * den) den = whole := by
  have low : compare (2 * (whole * den % den)) den = .lt := by
    rw [Nat.mul_mod_left, Nat.mul_zero]
    exact Nat.compare_eq_lt.2 h
  unfold roundHalfEven
  rw [low]
  exact Nat.mul_div_cancel _ h

theorem log2_mul_pow {significand : Nat} (low : 2 ^ 52 ≤ significand)
    (high : significand < 2 ^ 53) (dropped : Nat) :
    (significand * 2 ^ dropped).log2 = 52 + dropped := by
  have unit : 0 < 2 ^ dropped := Nat.two_pow_pos dropped
  have positive : significand * 2 ^ dropped ≠ 0 := Nat.mul_ne_zero (by omega) (by omega)
  rw [Nat.log2_eq_iff positive]
  constructor
  · rw [Nat.pow_add]
    exact Nat.mul_le_mul_right _ low
  · have split : 2 ^ (52 + dropped + 1) = 2 ^ 53 * 2 ^ dropped := by
      rw [← Nat.pow_add]
      congr 1
      omega
    rw [split]
    exact Nat.mul_lt_mul_of_pos_right high unit

/-- The value of a pattern is a significand with as many bits dropped as its
length says, and the pattern is the two added up. -/
theorem unitsOfBits_split (bits : Nat) : ∃ significand,
    unitsOfBits bits = significand * 2 ^ ((unitsOfBits bits).log2 - 52) ∧
      bits = ((unitsOfBits bits).log2 - 52) * 2 ^ 52 + significand := by
  have unit : twoTo 52 = 2 ^ 52 := rfl
  have rest : bits % 2 ^ 52 < 2 ^ 52 := Nat.mod_lt _ (by decide)
  by_cases subnormal : bits / 2 ^ 52 = 0
  · have units : unitsOfBits bits = bits % 2 ^ 52 := by
      unfold unitsOfBits
      rw [unit, if_pos subnormal]
    have short : (bits % 2 ^ 52).log2 - 52 = 0 := by
      by_cases zero : bits % 2 ^ 52 = 0
      · rw [zero]
        rfl
      · have := (Nat.log2_lt zero).2 rest
        omega
    rw [units, short]
    exact ⟨bits % 2 ^ 52, by omega, by omega⟩
  · have units : unitsOfBits bits = (2 ^ 52 + bits % 2 ^ 52) * 2 ^ (bits / 2 ^ 52 - 1) := by
      unfold unitsOfBits
      rw [unit, if_neg subnormal]
      rfl
    have log : (unitsOfBits bits).log2 - 52 = bits / 2 ^ 52 - 1 := by
      rw [units, log2_mul_pow (by omega) (by omega)]
      omega
    rw [log]
    exact ⟨2 ^ 52 + bits % 2 ^ 52, units, by omega⟩

/-- A fraction with the value of a pattern reads as the pattern. -/
theorem nearestBits_of_units {bits : Nat} (num den : Nat) (h : bits ≤ infinityBits)
    (positive : 0 < den) (value : num * twoTo 1074 = unitsOfBits bits * den) : nearestBits num den = bits := by
  unfold nearestBits
  dsimp only
  rw [value, Nat.mul_div_cancel _ positive]
  obtain ⟨significand, units, pattern⟩ := unitsOfBits_split bits
  generalize (unitsOfBits bits).log2 - 52 = dropped at units pattern ⊢
  have product : significand * 2 ^ dropped * den = significand * (den * twoTo dropped) := by
    rw [Nat.mul_assoc, Nat.mul_comm (2 ^ dropped)]
    rfl
  have unit : 0 < den * twoTo dropped := Nat.mul_pos positive (Nat.two_pow_pos dropped)
  rw [pattern] at h
  rw [units, product, roundHalfEven_exact _ _ unit, pattern]
  exact Nat.min_eq_left h

theorem exact_units (units : Nat) :
    units * Nat.pow 5 1074 * twoTo 1074 = units * tenTo 1074 := by
  generalize 1074 = n
  show units * 5 ^ n * 2 ^ n = units * 10 ^ n
  rw [Nat.mul_assoc, ← Nat.mul_pow]

namespace Decimal

theorem bits_exact (units : Nat) :
    (exact units).bits = nearestBits (units * Nat.pow 5 1074) (tenTo 1074) := by
  unfold bits numerator denominator exact
  rw [show (-1074 : Int).toNat = 0 from rfl, show (-(-1074) : Int).toNat = 1074 from rfl,
    show tenTo 0 = 1 from rfl, Nat.mul_one]

/-- The exact value of a pattern reads as the pattern. -/
theorem exact_bits {bits : Nat} (h : bits ≤ infinityBits) :
    (exact (unitsOfBits bits)).bits = bits := by
  rw [bits_exact]
  exact nearestBits_of_units (unitsOfBits bits * Nat.pow 5 1074) (tenTo 1074) h (tenTo_pos 1074)
    (exact_units (unitsOfBits bits))

section

-- Comparing the two sides must not work out the neighbours: their denominator
-- is a number of a thousand bits.
attribute [local irreducible] neighbours exact

theorem searchGrids_zero (bits units : Nat) (exponent : Int) :
    searchGrids bits units 0 exponent = exact units := rfl

theorem searchGrids_succ (bits units grids : Nat) (exponent : Int) :
    searchGrids bits units (grids + 1) exponent =
      match (neighbours units exponent).find? (·.bits = bits) with
      | some d => d
      | none => searchGrids bits units grids (exponent - 1) := rfl

end

/-- What the search stops at reads as the pattern it was for. -/
theorem searchGrids_bits {bits units : Nat} (h : (exact units).bits = bits) :
    ∀ grids exponent, (searchGrids bits units grids exponent).bits = bits := by
  intro grids
  induction grids with
  | zero =>
      intro exponent
      rw [searchGrids_zero, h]
  | succ grids ih =>
      intro exponent
      rw [searchGrids_succ]
      cases found : (neighbours units exponent).find? (·.bits = bits) with
      | none => exact ih (exponent - 1)
      | some d =>
          have reads := List.find?_some found
          rw [decide_eq_true_eq] at reads
          exact reads

/-- The decimal that is shown for a pattern reads as the pattern. -/
theorem shortest_bits {bits : Nat} (h : bits ≤ infinityBits) : (shortest bits).bits = bits := by
  unfold shortest
  dsimp only
  by_cases zero : unitsOfBits bits = 0
  · have value : 0 * twoTo 1074 = unitsOfBits bits * 1 := by
      rw [zero, Nat.zero_mul, Nat.zero_mul]
    rw [if_pos zero]
    show nearestBits 0 1 = bits
    exact nearestBits_of_units 0 1 h Nat.one_pos value
  · rw [if_neg zero]
    exact searchGrids_bits (exact_bits h) _ _

end Decimal

/-! ## Numbers as text -/

theorem numberText_finite {x : Float} (h : x.toBits.toNat < infinityBits) :
    numberText x = (Decimal.shortest x.toBits.toNat).text := by
  have bound : infinityBits = 2047 * 2 ^ 52 := rfl
  have half : twoTo 63 = 2 ^ 63 := rfl
  have unsigned : x.toBits.toNat % twoTo 63 = x.toBits.toNat := Nat.mod_eq_of_lt (by omega)
  unfold numberText
  dsimp only
  rw [isNaN_eq_false (Nat.le_of_lt h), unsigned, if_neg Bool.false_ne_true, if_pos rfl,
    if_neg (Nat.ne_of_lt h), String.empty_append]

theorem numberText_infinite {x : Float} (h : x.toBits.toNat = infinityBits) :
    numberText x = "inf" := by
  have bound : infinityBits = 2047 * 2 ^ 52 := rfl
  have half : twoTo 63 = 2 ^ 63 := rfl
  have unsigned : x.toBits.toNat % twoTo 63 = x.toBits.toNat := Nat.mod_eq_of_lt (by omega)
  unfold numberText
  dsimp only
  rw [isNaN_eq_false (Nat.le_of_eq h), unsigned, if_neg Bool.false_ne_true, if_pos rfl,
    if_pos h, String.empty_append]

/-- The text of a double below infinity reads as that double. -/
theorem toFloat_numberText {x : Float} (h : x.toBits.toNat < infinityBits) :
    (Decimal.ofChars (numberText x).toList).toFloat = x := by
  unfold Decimal.toFloat
  rw [numberText_finite h, Decimal.ofChars_text, Decimal.shortest_bits (Nat.le_of_lt h),
    UInt64.ofNat_toNat, Float.ofBits_toBits]

end Scriptlet
