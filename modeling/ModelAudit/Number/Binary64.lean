import ModelAudit.Number.Power

/-!
# Double-precision numbers

A finite number is a sign, a mantissa below 2^53 and an exponent of at least
−1074. `Binary64.ofDecimal` rounds a decimal to the nearest number, ties to the
even mantissa, by exact arithmetic on natural numbers.
-/

namespace ModelAudit

inductive Binary64
  | nan
  | infinite (negative : Bool)
  /-- The number ± mantissa · 2^exponent. -/
  | finite (negative : Bool) (mantissa : Nat) (exponent : Int)
deriving DecidableEq

/-- The nearest natural number to a quotient; a tie goes to the even one. -/
def roundQuotient (numerator denominator : Nat) : Nat :=
  let quotient := numerator / denominator
  let twice := 2 * (numerator % denominator)
  if twice < denominator then quotient
  else if denominator < twice then quotient + 1
  else quotient + quotient % 2

namespace Binary64

/-- The least mantissa with 53 bits. -/
def leastMantissa : Nat :=
  powerOfTwo 52

def zero (negative : Bool) : Binary64 :=
  .finite negative 0 (-1074)

/-- The quotient of `numerator` by `denominator · 2^exponent`, as numerator and
denominator. -/
def scaledQuotient (numerator denominator : Nat) (exponent : Int) : Nat × Nat :=
  (numerator * powerOfTwo (-exponent).toNat,
    denominator * powerOfTwo exponent.toNat)

/-- The exponent at which the mantissa of a positive quotient has 53 bits, or
the least exponent if there it has fewer. -/
def exponentOfQuotient (numerator denominator : Nat) : Int :=
  let estimate : Int := (numerator.log2 : Int) - denominator.log2 - 52
  let (scaled, divisor) := scaledQuotient numerator denominator estimate
  max (-1074) (if scaled < leastMantissa * divisor then estimate - 1
    else estimate)

/-- The number nearest to ± numerator / denominator, for a positive
denominator. -/
def ofQuotient (negative : Bool) (numerator denominator : Nat) : Binary64 :=
  if numerator = 0 then zero negative
  else
    let exponent := exponentOfQuotient numerator denominator
    let (scaled, divisor) := scaledQuotient numerator denominator exponent
    let rounded := roundQuotient scaled divisor
    let (mantissa, exponent) :=
      if rounded = 2 * leastMantissa then (leastMantissa, exponent + 1)
        else (rounded, exponent)
    if 971 < exponent then .infinite negative
      else .finite negative mantissa exponent

/-- The number nearest to ± digits · 10^exponent. Decimals far outside the range
of finite numbers are settled by their magnitude alone. -/
def ofDecimal (negative : Bool) (digits : Nat) (exponent : Int) : Binary64 :=
  let magnitude : Int := (Nat.toDigits 10 digits).length + exponent
  if digits = 0 || magnitude < -400 then zero negative
  else if 400 < magnitude then .infinite negative
  else ofQuotient negative (digits * powerOfTen exponent.toNat)
      (powerOfTen (-exponent).toNat)

def ofInt (number : Int) : Binary64 :=
  ofDecimal (number < 0) number.natAbs 0

/-- Comparison with zero; the number that is no number fails every
comparison. -/
def isAtMostZero : Binary64 → Bool
  | nan => false
  | infinite negative => negative
  | finite negative mantissa _ => negative || mantissa = 0

def timesNat (factor : Nat) : Binary64 → Binary64
  | nan => nan
  | infinite negative => infinite negative
  | finite negative mantissa exponent =>
    ofQuotient negative (factor * mantissa * powerOfTwo exponent.toNat)
      (powerOfTwo (-exponent).toNat)

def exceeds (bound : Nat) : Binary64 → Bool
  | nan => false
  | infinite negative => !negative
  | finite negative mantissa exponent =>
    !negative && bound * powerOfTwo (-exponent).toNat <
      mantissa * powerOfTwo exponent.toNat

/-- The integer that is left without the fraction; zero if the number is not
finite. -/
def truncated : Binary64 → Int
  | nan | infinite _ => 0
  | finite negative mantissa exponent =>
    let size := mantissa * powerOfTwo exponent.toNat / powerOfTwo
      (-exponent).toNat
    if negative then -(size : Int) else size

def isZero : Binary64 → Bool
  | finite _ mantissa _ => mantissa = 0
  | _ => false

end Binary64

end ModelAudit
