import ModelAudit.Number.Binary64
import ModelAudit.Text.Basic

/-!
# Numbers with a fixed count of decimal places

The exact binary value is rounded once; a tie goes to the even last digit.
-/

namespace ModelAudit.Binary64

def fixedText (places : Nat) : Binary64 → Text
  | .nan => "nan"
  | .infinite negative => if negative then "-inf" else "inf"
  | .finite negative mantissa exponent =>
    let units :=
      roundQuotient (mantissa * powerOfTen places * powerOfTwo exponent.toNat)
        (powerOfTwo (-exponent).toNat)
    let digits := Nat.toDigits 10 units
    let padded := List.replicate (places + 1 - digits.length) '0' ++ digits
    let whole := padded.take (padded.length - places)
    let part := padded.drop (padded.length - places)
    ((if negative then ['-'] else []) ++ whole ++ ['.'] ++ part).map
      CodePoint.ofChar

end ModelAudit.Binary64
