import ModelAudit.Number.Binary64
import ModelAudit.Text.Blank
import ModelAudit.Text.Digit

/-!
# Reading a number that a user typed

White space around the number is ignored, digits may be of any script and may be
grouped by single underscores, and `inf`, `infinity` and `nan` are accepted in
any case of letters.
-/

namespace ModelAudit.Binary64

def isPadding (point : CodePoint) : Bool :=
  point = ' ' || (0x09 ≤ point.toNat && point.toNat ≤ 0x0D)

/-- Rewrites blanks and decimal digits of other scripts to their ASCII
counterparts; fails on any other code point from U+007F on. -/
def asciiForm? (text : Text) : Option Text :=
  text.mapM fun point =>
    if point.toNat < 0x7F then some point
    else if point.isBlank then some ' '
    else point.decimalDigit?.bind fun digit => CodePoint.ofNat? (0x30 + digit)

def trimPadding (text : Text) : Text :=
  ((text.dropWhile isPadding).reverse.dropWhile isPadding).reverse

/-- Removes the underscores, each of which must stand between two digits. -/
def ungroup? : Text → Option Text
  | [] => some []
  | [point] => if point = '_' then none else some [point]
  | point :: next :: rest =>
    if point = '_' then none
    else if next = '_' then
      match rest with
      | [] => none
      | after :: _ =>
        if point.isDigit && after.isDigit then (ungroup? rest).map (point :: ·)
          else none
    else (ungroup? (next :: rest)).map (point :: ·)

def lowerCase (text : Text) : Text :=
  text.map fun point =>
    if bound : 0x41 ≤ point.toNat ∧ point.toNat ≤ 0x5A then
      ⟨point.toNat + 0x20, by omega⟩
    else point

def splitSign : Text → Bool × Text
  | [] => (false, [])
  | point :: rest =>
    if point = '-' then (true, rest)
    else if point = '+' then (false, rest)
    else (false, point :: rest)

/-- The exponent part of a decimal: nothing, or `e` and a signed integer. -/
def readExponent? : Text → Option Int
  | [] => some 0
  | mark :: rest =>
    if mark = 'e' then
      let (negative, digits) := splitSign rest
      if !digits.isEmpty && digits.all CodePoint.isDigit then
        let value : Int := Text.decimalValue digits
        some (if negative then -value else value)
      else none
    else none

/-- A decimal without sign: digits with at most one point among them, at least
one digit in all, and an exponent part. -/
def readMagnitude? (negative : Bool) (text : Text) : Option Binary64 :=
  let whole := text.takeWhile CodePoint.isDigit
  let rest := text.dropWhile CodePoint.isDigit
  let (part, tail) :=
    match rest with
    | [] => ([], [])
    | point :: others =>
      if point = '.' then
        (others.takeWhile CodePoint.isDigit, others.dropWhile CodePoint.isDigit)
      else ([], rest)
  if whole.isEmpty && part.isEmpty then none
  else
    (readExponent? tail).map fun exponent =>
      ofDecimal negative (Text.decimalValue (whole ++ part))
        (exponent - part.length)

def read? (text : Text) : Option Binary64 := do
  let plain ← asciiForm? text
  let ungrouped ← ungroup? plain
  let (negative, magnitude) := splitSign (lowerCase (trimPadding ungrouped))
  if magnitude = ("inf" : Text) || magnitude = ("infinity" : Text) then
    return .infinite negative
  else if magnitude = ("nan" : Text) then return .nan
  else readMagnitude? negative magnitude

end ModelAudit.Binary64
