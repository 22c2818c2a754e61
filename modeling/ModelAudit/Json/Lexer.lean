import ModelAudit.Json.Basic
import ModelAudit.Number.Reading

/-!
# Lexical units of JSON

A text is cut into lexical units from the left. Besides the standard's numbers
the words `NaN`, `Infinity` and `-Infinity` are read. An escaped surrogate
stands for itself unless it is the first of a pair.
-/

namespace ModelAudit.Json

inductive Unit
  | openArray
  | closeArray
  | openObject
  | closeObject
  | comma
  | colon
  /-- A value without parts. -/
  | scalar (value : Json)

/-- Space, tab, line feed and carriage return. -/
def isSpace (point : CodePoint) : Bool :=
  point = ' ' || point = '\t' || point = '\n' || point = '\r'

/-- The number that exactly four hexadecimal digits denote. -/
def fourHex? (digits : Text) : Option Nat :=
  if digits.length = 4 && digits.all CodePoint.isHexDigit then
    some (Text.baseValue 16 digits)
  else none

/-- The code point after `\u`, and how many code points its digits take: a
second escape is taken along when both make up a surrogate pair. -/
def escapedPoint? (text : Text) : Option (CodePoint × Nat) := do
  let first ← fourHex? (text.take 4)
  let lone := (CodePoint.ofNat? first).map fun point => (point, 4)
  if 0xD800 ≤ first && first ≤ 0xDBFF && Text.startsWith (text.drop 4) "\\u"
    then
    let second ← fourHex? ((text.drop 6).take 4)
    if 0xDC00 ≤ second && second ≤ 0xDFFF then
      let joined := 0x10000 + (first - 0xD800) * 0x400 + (second - 0xDC00)
      (CodePoint.ofNat? joined).map fun point => (point, 10)
    else lone
  else lone

/-- What a one-letter escape stands for. -/
def simpleEscape? (point : CodePoint) : Option CodePoint :=
  if point = '"' || point = '\\' || point = '/' then some point
  else if point = 'b' then some '\x08'
  else if point = 'f' then some '\x0C'
  else if point = 'n' then some '\n'
  else if point = 'r' then some '\r'
  else if point = 't' then some '\t'
  else none

/-- The contents of a string literal after its opening quote, and the count of
code points up to and including the closing one. -/
def readString? : Text → Option (Text × Nat)
  | [] => none
  | point :: rest =>
    if point = '"' then some ([], 1)
    else if point = '\\' then
      match rest with
      | [] => none
      | kind :: others =>
        if kind = 'u' then do
          let (value, length) ← escapedPoint? others
          let (contents, count) ← readString? (others.drop length)
          return (value :: contents, 2 + length + count)
        else do
          let value ← simpleEscape? kind
          let (contents, count) ← readString? others
          return (value :: contents, 2 + count)
    else if point.toNat < 0x20 then none
    else do
      let (contents, count) ← readString? rest
      return (point :: contents, 1 + count)
termination_by text => text.length
decreasing_by all_goals (simp only [List.length_drop, List.length_cons]; omega)

/-- The length of an exponent part at the start of the text, or zero. -/
def exponentLength : Text → Nat
  | [] => 0
  | mark :: rest =>
    if mark = 'e' || mark = 'E' then
      let sign := match rest with
        | [] => 0
        | point :: _ => if point = '+' || point = '-' then 1 else 0
      let digits := ((rest.drop sign).takeWhile CodePoint.isDigit).length
      if digits = 0 then 0 else 1 + sign + digits
    else 0

def fractionLength : Text → Nat
  | [] => 0
  | point :: rest =>
    if point = '.' then
      let digits := (rest.takeWhile CodePoint.isDigit).length
      if digits = 0 then 0 else 1 + digits
    else 0

/-- A number without sign at the start of the text, and its length. A leading
zero is a whole part of its own. -/
def readMagnitude? (negative : Bool) (text : Text) : Option (Json × Nat) :=
  let whole :=
    match text with
    | [] => []
    | first :: _ =>
      if first = '0' then [first] else text.takeWhile CodePoint.isDigit
  let fraction := fractionLength (text.drop whole.length)
  let exponent := exponentLength (text.drop (whole.length + fraction))
  let length := whole.length + fraction + exponent
  if whole.isEmpty then none
  else if fraction = 0 && exponent = 0 then
    let value : Int := Text.decimalValue whole
    some (.number (.integer (if negative then -value else value)), length)
  else
    (Binary64.readMagnitude? negative
      (Binary64.lowerCase (text.take length))).map
      fun value => (.number (.real value), length)

def keywords : List (Text × Json) :=
  [("null", .null), ("true", .bool true), ("false", .bool false),
    ("NaN", .number (.real .nan)),
    ("Infinity", .number (.real (.infinite false))),
    ("-Infinity", .number (.real (.infinite true)))]

def punctuation? (point : CodePoint) : Option Unit :=
  if point = '[' then some .openArray
  else if point = ']' then some .closeArray
  else if point = '\x7b' then some .openObject
  else if point = '\x7d' then some .closeObject
  else if point = ',' then some .comma
  else if point = ':' then some .colon
  else none

/-- The unit that starts with the given code point, and how many of the
following code points belong to it. -/
def readUnit? (first : CodePoint) (rest : Text) : Option (Unit × Nat) :=
  match punctuation? first with
  | some unit => some (unit, 0)
  | none =>
    match keywords.find? fun (word, _) =>
      Text.startsWith (first :: rest) word with
    | some (word, value) => some (.scalar value, word.length - 1)
    | none =>
      if first = '"' then
        (readString? rest).map fun (contents, count) =>
          (.scalar (.string contents), count)
      else if first = '-' then
        (readMagnitude? true rest).map fun (value, length) =>
          (.scalar value, length)
      else
        (readMagnitude? false (first :: rest)).map fun (value, length) =>
          (.scalar value, length - 1)

def units? : Text → Option (List Unit)
  | [] => some []
  | first :: rest =>
    if isSpace first then units? rest
    else do
      let (unit, count) ← readUnit? first rest
      let units ← units? (rest.drop count)
      return unit :: units
termination_by text => text.length
decreasing_by all_goals (simp only [List.length_drop, List.length_cons]; omega)

end ModelAudit.Json
