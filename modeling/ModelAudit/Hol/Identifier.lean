import ModelAudit.Text.Basic

/-!
# Identifiers of Isabelle/HOL

Symbols of SMT-LIB may hold any code point and may clash with constants or
keywords. `Identifier.escape` keeps alphanumeric names that start with a letter
and are not reserved. All other names get the start `v_` and an encoding that
keeps ASCII letters and digits and writes every other code point, the underscore
included, as an underscore and hexadecimal digits. Verbatim names hold no
underscore, so the two kinds never meet.
-/

namespace ModelAudit.Identifier

/-- Keywords, and constants that theories refer to. -/
def reserved : List Text :=
  (["if", "then", "else", "let", "in", "case", "of", "o", "O", "div", "mod",
      "and", "or", "not", "lemma", "theory", "begin", "end", "assumes", "shows",
      "fixes", "where", "is", "for", "apply", "done", "by", "using",
      "unfolding", "defines", "obtains", "imports", "definition", "fun", "CHR",
      "SOME", "THE", "ALL", "EX", "LEAST", "GREATEST", "SUM", "PROD", "UN",
      "INT", "TYPE", "PROP", "CONST", "XCONST", "SIGMA", "MOST", "INFM",
      "UNIV", "Pi", "AND", "OR", "XOR", "NOT",
      "fst", "snd", "id", "True", "False", "undefined", "Suc", "abs",
      "min", "max", "dvd", "int", "nat", "real", "word", "floor", "ceiling",
      "length", "ucast", "scast", "unat", "uint", "sint", "push", "drop",
      "distinct", "model", "universe"] :
    List String).map Text.ofString

def isAlphanumeric (point : CodePoint) : Bool :=
  point.isLetter || point.isDigit

/-- A letter followed by letters and digits. -/
def isVerbatim : Text → Bool
  | [] => false
  | first :: rest => first.isLetter && rest.all isAlphanumeric

def encodePoint (point : CodePoint) : Text :=
  if isAlphanumeric point then [point]
  else if 0xFFFF < point.toNat then "_u" ++ Text.hexadecimal 6 point.toNat
  else "_" ++ Text.hexadecimal 4 point.toNat

/-- The identifier of the empty symbol, which no encoding yields. -/
def ofEmpty : Text :=
  "v__uempty"

def escape (name : Text) : Text :=
  if name.isEmpty then ofEmpty
  else if isVerbatim name && !reserved.contains name then name
  else "v_" ++ name.flatMap encodePoint

def typeVariable (name : Text) : Text :=
  "'" ++ escape name

end ModelAudit.Identifier
