import ModelAudit.Text.Quoted

/-!
# Escapes in string literals

A backslash starts an escape: `\u` with one to five hexadecimal digits in
braces, `\u` with exactly four digits, or `\x` with exactly two. Before any
other code point the backslash only says that the code point stands for itself.
-/

namespace ModelAudit

inductive EscapeCause
  /-- The text ends right after a backslash. -/
  | atEnd
  /-- A brace is opened and never closed. -/
  | unterminated
  /-- There are too few or too many digits, or some are no digits. -/
  | digits (found : Text)
  /-- The number lies beyond the last code point. -/
  | outOfRange (found : Text)
deriving DecidableEq

namespace EscapeCause

def message : EscapeCause → Text
  | atEnd => "Invalid escape sequence at end of string"
  | unterminated => "Unterminated \\u\x7b...\x7d escape"
  | digits found => "Invalid escape sequence digits: " ++ found.quoted
  | outOfRange found => "Code point out of range: " ++ found.quoted

end EscapeCause

namespace Text

/-- The code point that digits denote, provided that their number lies between
the bounds. -/
def pointOfDigits (least most : Nat) (digits : Text) :
    Except EscapeCause CodePoint :=
  if least ≤ digits.length && digits.length ≤
    most && digits.all CodePoint.isHexDigit then
    match CodePoint.ofNat? (baseValue 16 digits) with
    | some point => .ok point
    | none => .error (.outOfRange digits)
  else .error (.digits digits)

def isClosingBrace (point : CodePoint) : Bool :=
  point = '\x7d'

/-- Decodes all escapes; the leftmost fault is the one reported. -/
def unescape : Text → Except EscapeCause Text
  | [] => .ok []
  | point :: rest =>
    if point = '\\' then
      match rest with
      | [] => .error .atEnd
      | kind :: others =>
        if kind = 'u' then
          match others with
          | [] => .error (.digits [])
          | brace :: inner =>
            if brace = '\x7b' then do
              let digits := inner.takeWhile fun inside => !isClosingBrace inside
              if digits.length = inner.length then .error .unterminated
              let decoded ← pointOfDigits 1 5 digits
              let tail ← unescape (inner.drop (digits.length + 1))
              return decoded :: tail
            else do
              let decoded ← pointOfDigits 4 4 ((brace :: inner).take 4)
              let tail ← unescape (inner.drop 3)
              return decoded :: tail
        else if kind = 'x' then do
          let decoded ← pointOfDigits 2 2 (others.take 2)
          let tail ← unescape (others.drop 2)
          return decoded :: tail
        else do
          let tail ← unescape others
          return kind :: tail
    else do
      let tail ← unescape rest
      return point :: tail
termination_by text => text.length
decreasing_by all_goals (simp only [List.length_drop, List.length_cons]; omega)

end Text

end ModelAudit
