import ModelAudit.Number.Power
import ModelAudit.SmtSort

/-!
# How many values a sort has

Only sizes up to a limit are counted, since arrays over small sorts have more
values than could be written down. A declared sort may have any number of
values, so it counts as large.
-/

namespace ModelAudit

/-- The number of values of a sort, or the limit if that is smaller. -/
def SmtSort.sizeUpTo (limit : Nat) : SmtSort → Nat
  | .mk name params indices =>
    match params, indices with
    | [], [] => if name = ("Bool" : Text) then min limit 2 else limit
    | [], [width] =>
      if name = ("BitVec" : Text) && width.toNat < limit
        then min limit (powerOfTwo width.toNat)
      else limit
    | [index, element], [] =>
      if name = ("Array" : Text) then
        let places := index.sizeUpTo limit
        if places < limit
          then min limit (Nat.pow (element.sizeUpTo limit) places) else limit
      else limit
    | _, _ => limit

end ModelAudit
