import ModelAudit.Number.Binary64
import ModelAudit.Text.Basic

/-!
# The shortest decimal of a double-precision number

Among the decimals with the fewest digits that round back to the number, the
nearest one is chosen, and of two equally near ones the one with an even last
digit. Plain notation is used for magnitudes from 10^−4 up to
10^16, and scientific notation outside.
-/

namespace ModelAudit.Binary64

/-- The `p` with 10^(p−1) ≤ numerator / denominator < 10^p, for a positive
quotient in the range of finite numbers. -/
def decimalMagnitude (numerator denominator : Nat) : Int :=
  if denominator ≤ numerator
    then (Nat.toDigits 10 (numerator / denominator)).length
  else
    1 - (((List.range 400).find? fun shift =>
      denominator ≤ numerator * powerOfTen shift).getD 0 : Nat)

/-- Four times the interval of the reals that round to mantissa · 2^exponent, in
units of 2^exponent, and whether its ends belong to it. Below a power of two the
neighbour is twice as near. -/
def roundingInterval (mantissa : Nat) (exponent : Int) : Nat × Nat × Bool :=
  let below := if mantissa = leastMantissa && -1074 < exponent then 1 else 2
  (4 * mantissa - below, 4 * mantissa + 2, mantissa % 2 = 0)

/-- The decimal with the given number of digits that is nearest to the number
and rounds back to it: its digits and its exponent of ten. -/
def decimalOfPrecision? (mantissa : Nat) (exponent : Int) (precision : Nat) :
    Option (Nat × Int) :=
  let numerator := mantissa * powerOfTwo exponent.toNat
  let denominator := powerOfTwo (-exponent).toNat
  let grid := decimalMagnitude numerator denominator - precision
  let (lowest, highest, closed) := roundingInterval mantissa exponent
  -- The number and the grid's unit, both times four and over one denominator.
  let unit := 4 * powerOfTen grid.toNat * denominator
  let factor := powerOfTen (-grid).toNat * powerOfTwo exponent.toNat
  let fits (digits : Nat) : Bool :=
    let point := digits * unit
    if closed then lowest * factor ≤ point && point ≤ highest * factor
    else lowest * factor < point && point < highest * factor
  let number := 4 * mantissa * factor
  let down := number / unit
  let twice := 2 * (number % unit)
  let upIsBetter := unit < twice || (unit = twice && down % 2 = 1)
  let candidates := if upIsBetter then [down + 1, down] else [down, down + 1]
  (candidates.find? fits).map fun digits => (digits, grid)

/-- The digits of the shortest decimal, without zeros at the end, and the place
of the decimal point counted from the first digit. -/
def shortestDecimal (mantissa : Nat) (exponent : Int) : List Char × Int :=
  let (digits, grid) :=
    ((List.range 17).findSome? fun extra =>
      decimalOfPrecision? mantissa exponent (extra + 1)).getD (mantissa,
        exponent)
  let written := Nat.toDigits 10 digits
  ((written.reverse.dropWhile (· = '0')).reverse, written.length + grid)

/-- Digits with a decimal point at the given place; there is always a digit on
both sides of the point. -/
def plainNotation (digits : List Char) (point : Int) : List Char :=
  if point ≤ 0 then
    ['0', '.'] ++ List.replicate (-point).toNat '0' ++ digits
  else
    let whole := digits.take point.toNat
    let part := digits.drop point.toNat
    whole ++ List.replicate (point.toNat - digits.length) '0' ++ ['.'] ++
      (if part.isEmpty then ['0'] else part)

/-- One digit before the point, and an exponent of at least two digits. -/
def scientificNotation (digits : List Char) (point : Int) : List Char :=
  let power := Nat.toDigits 10 (point - 1).natAbs
  digits.take 1 ++ (if digits.length ≤ 1 then [] else '.' :: digits.drop 1) ++
    ['e', if point - 1 < 0 then '-' else '+'] ++
    List.replicate (2 - power.length) '0' ++ power

def shortestText : Binary64 → Text
  | .nan => "nan"
  | .infinite negative => if negative then "-inf" else "inf"
  | .finite negative mantissa exponent =>
    let sign := if negative then ['-'] else []
    let (digits, point) :=
      if mantissa = 0 then (['0'], 1) else shortestDecimal mantissa exponent
    let written :=
      if -4 < point ∧ point ≤ 16 then plainNotation digits point
      else scientificNotation digits point
    (sign ++ written).map CodePoint.ofChar

end ModelAudit.Binary64
