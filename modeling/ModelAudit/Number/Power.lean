/-!
# Powers

The powers of the bases of binary and decimal numbers.
-/

namespace ModelAudit

def powerOfTwo (exponent : Nat) : Nat :=
  Nat.pow 2 exponent

def powerOfTen (exponent : Nat) : Nat :=
  Nat.pow 10 exponent

end ModelAudit
