/-!
The finite numbers of the 64-bit binary format, exactly. A decimal reads as the nearest of them, a
tie as the one with the even mantissa.
-/

namespace ClientForge.Decimal

def twos (n : Nat) : Nat := Nat.pow 2 n

def tens (n : Nat) : Nat := Nat.pow 10 n

/-- The number `±mantissa · 2 ^ exponent`. The mantissa has at most 53 bits, and fewer only with the
least exponent, so that every number but zero has one form. -/
structure Binary64 where
  negative : Bool
  mantissa : Nat
  exponent : Int
  deriving DecidableEq, Repr

namespace Binary64

def minExponent : Int := -1074

def maxExponent : Int := 971

/-- The number of a mantissa's bits. -/
def precision : Nat := 53

def zero (negative : Bool) : Binary64 := ⟨negative, 0, minExponent⟩

/-- Whether two numbers are equal; the zeros are. -/
def same (x y : Binary64) : Bool :=
  x = y || (x.mantissa = 0 && y.mantissa = 0)

/-- The nearest integer to a quotient; a tie goes to the even one. -/
def roundDiv (numerator denominator : Nat) : Nat :=
  let quotient := numerator / denominator
  let twice := 2 * (numerator % denominator)
  if twice < denominator || (twice = denominator && quotient % 2 = 0) then quotient else quotient + 1

/-- The quotient as a numerator and a denominator, divided by `2 ^ exponent`. -/
def scaleDown (numerator denominator : Nat) (exponent : Int) : Nat × Nat :=
  if exponent < 0 then (numerator * twos exponent.natAbs, denominator)
  else (numerator, denominator * twos exponent.natAbs)

/-- The nearest number to a positive quotient, none if it is too great. -/
def ofQuotient? (negative : Bool) (numerator denominator : Nat) : Option Binary64 :=
  let bits : Int := (Nat.log2 numerator : Int) - Nat.log2 denominator
  let low := max (bits - precision) minExponent
  let (n, d) := scaleDown numerator denominator low
  let exponent := if n / d < twos precision then low else low + 1
  let (n, d) := scaleDown numerator denominator exponent
  let mantissa := roundDiv n d
  let (mantissa, exponent) :=
    if mantissa = twos precision then (twos (precision - 1), exponent + 1) else (mantissa, exponent)
  if maxExponent < exponent then none else some ⟨negative, mantissa, exponent⟩

/-- The nearest number to `±digits · 10 ^ exponent`, none if it is too great. -/
def ofDecimal? (negative : Bool) (digits : Nat) (exponent : Int) : Option Binary64 :=
  let places : Int := (Nat.log2 digits : Int) / 3 + 1 + exponent
  let least : Int := (Nat.log2 digits : Int) / 4 + exponent
  if digits = 0 then some (zero negative)
  else if 400 < least then none
  else if places < -400 then some (zero negative)
  else if exponent < 0 then ofQuotient? negative digits (tens exponent.natAbs)
  else ofQuotient? negative (digits * tens exponent.natAbs) 1

end Binary64

end ClientForge.Decimal
