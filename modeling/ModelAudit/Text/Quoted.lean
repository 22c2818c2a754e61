import ModelAudit.Text.Printable

/-!
# Quoted text in messages

A text is shown between single quotes, or between double quotes when it holds a
single quote and no double one. Backslashes, the quote in use and code points
without a visible form are written as escapes.
-/

namespace ModelAudit.Text

def quotedPoint (quote point : CodePoint) : Text :=
  if point = quote || point = '\\' then ['\\', point]
  else if point = '\n' then "\\n"
  else if point = '\r' then "\\r"
  else if point = '\t' then "\\t"
  else if point.isPrintable then [point]
  else if point.toNat ≤ 0xFF then "\\x" ++ hexadecimal 2 point.toNat
  else if point.toNat ≤ 0xFFFF then "\\u" ++ hexadecimal 4 point.toNat
  else "\\U" ++ hexadecimal 8 point.toNat

/-- The quotes around a text: double ones only to spare single ones inside. -/
def quoteFor (text : Text) : CodePoint :=
  if text.contains '\'' && !text.contains '"' then '"' else '\''

def quoted (text : Text) : Text :=
  let quote := quoteFor text
  [quote] ++ text.flatMap (quotedPoint quote) ++ [quote]

end ModelAudit.Text
