/-!
# Text as code points

A text is a list of code points. Surrogates are code points here, since an
escape sequence may denote one, so a text is more than a sequence of `Char`s.
-/

namespace ModelAudit

/-- One Unicode code point, surrogates included. -/
structure CodePoint where
  /-- The number of the code point. -/
  toNat : Nat
  /-- Code points end at U+10FFFF. -/
  toNat_lt : toNat < 0x110000
deriving DecidableEq

abbrev Text := List CodePoint

namespace CodePoint

theorem char_toNat_lt (character : Char) : character.toNat < 0x110000 := by
  have valid := character.valid
  simp only [UInt32.isValidChar, Nat.isValidChar] at valid
  show character.val.toNat < 0x110000
  omega

def ofChar (character : Char) : CodePoint :=
  ⟨character.toNat, char_toNat_lt character⟩

instance : Coe Char CodePoint := ⟨ofChar⟩

def ofNat? (number : Nat) : Option CodePoint :=
  if bound : number < 0x110000 then some ⟨number, bound⟩ else none

theorem ofNat?_toNat (point : CodePoint) : ofNat? point.toNat = some point := by
  simp [ofNat?, point.toNat_lt]

/-- Membership in one of several inclusive ranges of code points. -/
def inRanges (ranges : List (Nat × Nat)) (point : CodePoint) : Bool :=
  ranges.any fun (first, last) => first ≤ point.toNat && point.toNat ≤ last

def isDigit (point : CodePoint) : Bool :=
  0x30 ≤ point.toNat && point.toNat ≤ 0x39

def isLetter (point : CodePoint) : Bool :=
  (0x41 ≤ point.toNat && point.toNat ≤ 0x5A) ||
    (0x61 ≤ point.toNat && point.toNat ≤ 0x7A)

/-- The value of a hexadecimal digit of either case. -/
def hexValue? (point : CodePoint) : Option Nat :=
  if point.isDigit then some (point.toNat - 0x30)
  else if 0x41 ≤ point.toNat && point.toNat ≤ 0x46
    then some (point.toNat - 0x37)
  else if 0x61 ≤ point.toNat && point.toNat ≤ 0x66
    then some (point.toNat - 0x57)
  else none

def isHexDigit (point : CodePoint) : Bool :=
  point.hexValue?.isSome

/-- UTF-16 surrogates, which no `Char` denotes. -/
def isSurrogate (point : CodePoint) : Bool :=
  0xD800 ≤ point.toNat && point.toNat ≤ 0xDFFF

end CodePoint

namespace Text

def ofString (string : String) : Text :=
  string.toList.map CodePoint.ofChar

instance : Coe String Text := ⟨ofString⟩

/-- The parts in order with the separator between neighbours. -/
def join (separator : Text) (parts : List Text) : Text :=
  List.intercalate separator parts

def words (parts : List Text) : Text :=
  join " " parts

def startsWith (text pattern : Text) : Bool :=
  pattern.isPrefixOf text

def endsWith (text pattern : Text) : Bool :=
  pattern.isSuffixOf text

def mentions (pattern : Text) : Text → Bool
  | [] => pattern.isEmpty
  | point :: rest => pattern.isPrefixOf (point :: rest) || mentions pattern rest

/-- Strict lexicographic order by code point. -/
def less : Text → Text → Bool
  | _, [] => false
  | [], _ :: _ => true
  | left :: lefts, right :: rights =>
    left.toNat < right.toNat || (left = right && less lefts rights)

/-- Decimal digits without leading zeros. -/
def decimal (number : Nat) : Text :=
  (Nat.toDigits 10 number).map CodePoint.ofChar

/-- Decimal digits, with a minus sign for negative numbers. -/
def integer : Int → Text
  | .ofNat number => decimal number
  | .negSucc number => '-' :: decimal (number + 1)

/-- Lower-case hexadecimal digits, padded with zeros to the width. -/
def hexadecimal (width number : Nat) : Text :=
  let digits := Nat.toDigits 16 number
  (List.replicate (width - digits.length) '0' ++ digits).map CodePoint.ofChar

/-- Upper-case hexadecimal digits, padded with zeros to the width. -/
def upperHexadecimal (width number : Nat) : Text :=
  let digits := (Nat.toDigits 16 number).map Char.toUpper
  (List.replicate (width - digits.length) '0' ++ digits).map CodePoint.ofChar

/-- The number that ASCII digits denote; other code points do not occur. -/
def decimalValue (digits : Text) : Nat :=
  digits.foldl (fun value point => 10 * value + (point.toNat - 0x30)) 0

/-- The number that digits denote in the given base, each read as a
hexadecimal digit. -/
def baseValue (base : Nat) (digits : Text) : Nat :=
  digits.foldl (fun value point => base * value + point.hexValue?.getD 0) 0

/-- Splits at every occurrence of the separator; the answer is never empty. -/
def splitAll (separator : CodePoint) : Text → List Text
  | [] => [[]]
  | point :: rest =>
    if point = separator then [] :: splitAll separator rest
    else
      match splitAll separator rest with
      | [] => [[point]]
      | part :: parts => (point :: part) :: parts

end Text

end ModelAudit
