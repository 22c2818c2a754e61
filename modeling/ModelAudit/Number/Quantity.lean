import ModelAudit.Number.Fixed
import ModelAudit.Number.Shortest

/-!
# Quantities: integers and double-precision numbers

A quantity that was given as an integer stays one and is shown as one.
-/

namespace ModelAudit

inductive Quantity
  | integer (number : Int)
  | real (number : Binary64)
deriving DecidableEq

namespace Quantity

def toBinary64 : Quantity → Binary64
  | integer number => .ofInt number
  | real number => number

def text : Quantity → Text
  | integer number => Text.integer number
  | real number => number.shortestText

def isAtMostZero : Quantity → Bool
  | integer number => number ≤ 0
  | real number => number.isAtMostZero

end Quantity

end ModelAudit
