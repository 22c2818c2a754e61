/-!
# Truth as far as it is known

Connectives over truth values that may be unknown. The result is known as soon
as the known arguments decide it.
-/

namespace ModelAudit

/-- A truth value, or none if it is unknown. -/
abbrev Truth := Option Bool

namespace Truth

def negate (value : Truth) : Truth :=
  value.map not

def both : Truth → Truth → Truth
  | some false, _ | _, some false => some false
  | some true, some true => some true
  | _, _ => none

def either (left right : Truth) : Truth :=
  negate (both left.negate right.negate)

def all (values : List Truth) : Truth :=
  values.foldr both (some true)

def any (values : List Truth) : Truth :=
  values.foldr either (some false)

/-- Each value implies all that follow: the last one is the conclusion. -/
def implies : List Truth → Truth
  | [] => some true
  | [conclusion] => conclusion
  | premise :: others => either premise.negate (implies others)

end Truth

end ModelAudit
