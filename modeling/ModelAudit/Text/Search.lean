import ModelAudit.Text.Basic

/-!
# Searching in texts

Positions count code points from zero.
-/

namespace ModelAudit.Text

def position? (pattern : Text) : Text → Option Nat
  | [] => if pattern.isEmpty then some 0 else none
  | point :: rest =>
    if pattern.isPrefixOf (point :: rest) then some 0
    else (position? pattern rest).map (· + 1)

/-- The first position, not before the given one, at which the pattern occurs;
none if the given one lies outside the text. -/
def positionFrom? (pattern text : Text) (start : Int) : Option Nat :=
  if start < 0 ∨ (text.length : Int) < start then none
  else (position? pattern (text.drop start.toNat)).map (· + start.toNat)

/-- The text with the first occurrence of the pattern replaced. -/
def replaceFirst (pattern replacement text : Text) : Text :=
  match position? pattern text with
  | none => text
  | some place =>
    text.take place ++ replacement ++ text.drop (place + pattern.length)

/-- The part of the text that starts at a position and has at most the given
length; empty unless the position lies in the text and the length is
positive. -/
def part (text : Text) (start length : Int) : Text :=
  if 0 ≤ start ∧ start < text.length ∧ 0 < length then
    (text.drop start.toNat).take length.toNat
  else []

end ModelAudit.Text
