import ModelAudit.Number.Power
import ModelAudit.SmtSort
import ModelAudit.Text.Basic

/-!
# Values that are no arrays

A constant without definition is a value too: nothing is known about it, except
that some of these constants are known to be apart from each other.
-/

namespace ModelAudit

inductive Scalar
  | bool (value : Bool)
  | integer (value : Int)
  | rational (value : Rat)
  | bits (width : Nat) (value : BitVec width)
  | string (contents : Text)
  /-- What a constant without definition denotes. -/
  | symbol (name : Text)
deriving DecidableEq

/-- Whether two constants are known to denote different values. -/
abbrev Apartness := Text → Text → Bool

namespace Scalar

/-- Whether two values of one sort are equal, as far as it is known. -/
def equal? (apart : Apartness) : Scalar → Scalar → Option Bool
  | symbol left, symbol right =>
    if left = right then some true
    else if apart left right then some false
    else none
  | symbol _, _ | _, symbol _ => none
  | left, right => some (left = right)

/-- The sorts that have so few values that all can be tried: the truth values,
and bit-vectors of at most this width. -/
def enumerableWidth : Nat :=
  8

def all? (sort : SmtSort) : Option (List Scalar) :=
  if sort = .bool then some [.bool false, .bool true]
  else
    match sort.width? with
    | none => none
    | some width =>
      if width ≤ enumerableWidth then
        some ((List.range (powerOfTwo width.toNat)).map fun number =>
          .bits width.toNat (.ofNat _ number))
      else none

end Scalar

end ModelAudit
