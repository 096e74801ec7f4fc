/-! Decimal numbers, and the number of 64 bits that lies nearest to one. -/

namespace ModuleLift

/-- A decimal number: `digits` times ten to the power `exponent`. -/
structure Decimal where
  digits : Nat
  exponent : Int
deriving DecidableEq, Repr, Inhabited

/-- A number as 64 bits hold it: `mantissa` times two to the power `exponent`, or too large. -/
inductive Double where
  | finite (mantissa : Nat) (exponent : Int)
  | infinite
deriving DecidableEq, Repr, Inhabited

namespace Decimal

/-- The number of digits before the point, which is negative for zeros right behind it. -/
def magnitude (d : Decimal) : Int := d.exponent + (toString d.digits).length

/-- The number above the line when a decimal is written as a fraction. -/
def numerator (d : Decimal) : Nat := d.digits * Nat.pow 10 d.exponent.toNat

/-- The number below the line when a decimal is written as a fraction. -/
def denominator (d : Decimal) : Nat := Nat.pow 10 (-d.exponent).toNat

/-- A quotient rounded to the nearest number; of two that are as near, to the even one. -/
def roundedQuotient (n d : Nat) : Nat :=
  let twice := 2 * (n % d)
  if d < twice || (twice = d && n / d % 2 = 1) then n / d + 1 else n / d

/-- The power of two that a fraction reaches. -/
def binaryPower (n d : Nat) : Int :=
  -- The logarithms alone leave two powers to choose from.
  let power : Int := (n.log2 : Int) - d.log2
  if d * Nat.pow 2 power.toNat ≤ n * Nat.pow 2 (-power).toNat then power else power - 1

/-- The nearest number of 64 bits. -/
def nearest (d : Decimal) : Double :=
  -- Far outside the range of 64 bits the powers need not be worked out.
  if d.digits = 0 || d.magnitude < -400 then .finite 0 0
  else if 400 < d.magnitude then .infinite
  else
    -- The mantissa has 53 bits, fewer for the smallest numbers.
    let power := max (binaryPower d.numerator d.denominator - 52) (-1074)
    let mantissa :=
      roundedQuotient (d.numerator * Nat.pow 2 (-power).toNat)
        (d.denominator * Nat.pow 2 power.toNat)
    let (mantissa, power) :=
      if mantissa = Nat.pow 2 53 then (Nat.pow 2 52, power + 1) else (mantissa, power)
    if 971 < power then .infinite else .finite mantissa power

end Decimal

end ModuleLift
