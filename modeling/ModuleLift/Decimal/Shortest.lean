import ModuleLift.Decimal.Nearest
import ModuleLift.Text.Letter

/-! Numbers of 64 bits as text: whole ones in full, the others with the fewest digits that read
back. -/

namespace ModuleLift

namespace Decimal

/-- The digits without the zeros at their end. -/
def significant (d : Decimal) : Text :=
  ((Text.ofNat d.digits).reverse.dropWhile fun (l : Letter) => l = '0').reverse

/-- That many zeros. -/
def zeros (count : Nat) : Text := List.replicate count '0'

/-- A decimal that is not whole, as text. With four zeros or more behind the point it is written
with an exponent of at least two digits. -/
def text (d : Decimal) : Text :=
  let digits := d.significant
  if d.magnitude ≤ -4 then
    let power := Text.ofNat (1 - d.magnitude).toNat
    let fraction : Text := if digits.length = 1 then "" else "." ++ digits.drop 1
    digits.take 1 ++ fraction ++ "e-" ++ zeros (2 - power.length) ++ power
  else if d.magnitude ≤ 0 then
    "0." ++ zeros (-d.magnitude).toNat ++ digits
  else digits.take d.magnitude.toNat ++ "." ++ digits.drop d.magnitude.toNat

end Decimal

namespace Double

/-- A whole number of 64 bits. -/
def whole? : Double → Option Nat
  | .infinite => none
  | .finite mantissa exponent =>
    let number := mantissa * Nat.pow 2 exponent.toNat
    let divisor := Nat.pow 2 (-exponent).toNat
    if number % divisor = 0 then some (number / divisor) else none

/-- A number divided by a power of ten, as the two parts of a fraction. -/
def perPower (mantissa : Nat) (exponent power : Int) : Nat × Nat :=
  (mantissa * Nat.pow 2 exponent.toNat * Nat.pow 10 (-power).toNat,
    Nat.pow 2 (-exponent).toNat * Nat.pow 10 power.toNat)

/-- The least power of ten that is larger than a number. -/
def decimalPower (mantissa : Nat) (exponent : Int) : Int :=
  -- A power of two has about three tenths as many decimal digits.
  let about := ((mantissa.log2 : Int) + exponent) * 30103 / 100000
  let isLarger (power : Int) : Bool :=
    let (n, d) := perPower mantissa exponent power
    n < d
  ([about - 1, about, about + 1].find? isLarger).getD (about + 2)

/-- The decimal with this many digits that lies nearest among those that read back. -/
def withDigits? (mantissa : Nat) (exponent power : Int) (count : Nat) : Option Decimal :=
  let step := power - count
  let (n, d) := perPower mantissa exponent step
  let readsBack (digits : Nat) : Bool :=
    ({ digits, exponent := step } : Decimal).nearest = .finite mantissa exponent
  -- The number lies between two neighbours; the nearer one is tried first.
  let near := Decimal.roundedQuotient n d
  let far := if near = n / d then near + 1 else n / d
  ([near, far].find? readsBack).map fun digits => { digits, exponent := step }

/-- The decimal with the fewest digits that reads back as a number; seventeen are always enough. -/
def shortest (mantissa : Nat) (exponent : Int) : Decimal :=
  let power := decimalPower mantissa exponent
  (((List.range 17).map (· + 1)).findSome? (withDigits? mantissa exponent power)).getD
    { digits := mantissa * Nat.pow 5 (-exponent).toNat, exponent }

/-- A number as text. -/
def text : Double → Text
  | .infinite => "inf"
  | .finite mantissa exponent =>
    match whole? (.finite mantissa exponent) with
    | some number => Text.ofNat number
    | none => (shortest mantissa exponent).text

end Double

end ModuleLift
