import ModelAudit.SExpr.Basic
import ModelAudit.SExpr.Escape
import ModelAudit.Text.Blank

/-!
# Lexical analysis

A table lists the classes of lexemes with their recognizers. At each place the
first class that matches is taken, with the longest match of its recognizer.
Comments and white space separate tokens and are dropped.
-/

namespace ModelAudit

/-- What a token is, apart from its place. -/
inductive Lexeme
  | leftParenthesis
  | rightParenthesis
  | atom (atom : Atom)
deriving DecidableEq

structure Token where
  lexeme : Lexeme
  position : Position
deriving DecidableEq

inductive ReadCause
  | unexpected (point : CodePoint)
  | escape (cause : EscapeCause)
  /-- A closing parenthesis has no partner. -/
  | unbalanced
  /-- An opening parenthesis has no partner. -/
  | unclosed
deriving DecidableEq

structure ReadFault where
  cause : ReadCause
  place : Place
deriving DecidableEq

namespace ReadCause

def message : ReadCause → Text
  | unexpected point => "Unexpected character: " ++ Text.quoted [point]
  | escape cause => cause.message
  | unbalanced => "Unbalanced ')'"
  | unclosed => "Unclosed '('"

end ReadCause

namespace Lexer

inductive LexemeClass
  | comment
  | blank
  | leftParenthesis
  | rightParenthesis
  | string
  | quotedSymbol
  | hexadecimal
  | binary
  | decimal
  | numeral
  | keyword
  | symbol
deriving DecidableEq

abbrev Recognizer := CodePoint → Text → Option Nat

def spanLength (accepts : CodePoint → Bool) (text : Text) : Nat :=
  (text.takeWhile accepts).length

def someOf (accepts : CodePoint → Bool) (text : Text) : Option Nat :=
  match spanLength accepts text with
  | 0 => none
  | count + 1 => some (count + 1)

def symbolMarks : Text :=
  "~!@$%^&*_+=<>.?/-"

def isSymbolStart (point : CodePoint) : Bool :=
  point.isLetter || symbolMarks.contains point

def isSymbolPoint (point : CodePoint) : Bool :=
  isSymbolStart point || point.isDigit

def isBarContent (point : CodePoint) : Bool :=
  point ≠ '|' && point ≠ '\\'

def isBit (point : CodePoint) : Bool :=
  point = '0' || point = '1'

def single (mark : CodePoint) : Recognizer := fun first _ =>
  if first = mark then some 0 else none

def comment : Recognizer := fun first rest =>
  if first = ';'
    then some (spanLength (fun point : CodePoint => point ≠ '\n') rest)
      else none

def blank : Recognizer := fun first rest =>
  if first.isBlank then some (spanLength CodePoint.isBlank rest) else none

/-- The count of code points up to and including the quote that closes a string
literal. Two quotes in a row are part of the contents, unless no quote after
them closes the literal; then the first of the two closes it. -/
def closingQuote : Text → Option Nat
  | [] => none
  | [point] => if point = '"' then some 1 else none
  | point :: next :: rest =>
    if point = '"' then
      if next = '"' then some (((closingQuote rest).map (· + 2)).getD 1)
        else some 1
    else (closingQuote (next :: rest)).map (· + 1)

def string : Recognizer := fun first rest =>
  if first = '"' then closingQuote rest else none

def quotedSymbol : Recognizer := fun first rest =>
  let inner := spanLength isBarContent rest
  if first = '|' && (rest.drop inner).head? = some (CodePoint.ofChar '|') then
    some (inner + 1)
  else none

/-- A number sign, a letter for the base, and digits. -/
def based (letter : CodePoint) (digit : CodePoint → Bool) : Recognizer :=
  fun first rest =>
  match rest with
  | [] => none
  | second :: digits =>
    if first = '#' && second = letter then (someOf digit digits).map (· + 1)
      else none

def numeral : Recognizer := fun first rest =>
  if first.isDigit then some (spanLength CodePoint.isDigit rest) else none

def decimal : Recognizer := fun first rest => do
  let whole ← numeral first rest
  match rest.drop whole with
  | [] => none
  | point :: part =>
    if point = '.' then (someOf CodePoint.isDigit part).map (whole + 1 + ·)
      else none

def keyword : Recognizer := fun first rest =>
  if first = ':' then someOf isSymbolPoint rest else none

def symbol : Recognizer := fun first rest =>
  if isSymbolStart first then some (spanLength isSymbolPoint rest) else none

/-- The classes in the order in which they are tried. -/
def table : List (LexemeClass × Recognizer) :=
  [(.comment, comment), (.blank, blank), (.leftParenthesis, single '('),
    (.rightParenthesis, single ')'), (.string, string),
    (.quotedSymbol, quotedSymbol),
    (.hexadecimal, based 'x' CodePoint.isHexDigit), (.binary, based 'b' isBit),
    (.decimal, decimal), (.numeral, numeral), (.keyword, keyword),
    (.symbol, symbol)]

/-- The class of the lexeme at the start of a text, and how many code points
after the first belong to it. -/
def recognize (first : CodePoint) (rest : Text) : Option (LexemeClass × Nat) :=
  table.findSome? fun (kind, recognizer) =>
    (recognizer first rest).map fun count => (kind, count)

/-- Replaces two double quotes in a row by one, from left to right. -/
def mergeQuotes : Text → Text
  | [] => []
  | [point] => [point]
  | point :: next :: rest =>
    if point = '"' && next = '"' then point :: mergeQuotes rest
    else point :: mergeQuotes (next :: rest)

/-- The contents of a lexeme between its delimiters. -/
def inside (written : Text) : Text :=
  (written.drop 1).dropLast

/-- What a lexeme stands for; nothing for comments and white space. -/
def lexemeOf (kind : LexemeClass) (written : Text) :
    Except EscapeCause (Option Lexeme) :=
  match kind with
  | .comment | .blank => .ok none
  | .leftParenthesis => .ok (some .leftParenthesis)
  | .rightParenthesis => .ok (some .rightParenthesis)
  | .string => do
    let contents ← Text.unescape (mergeQuotes (inside written))
    return some (.atom (.string contents))
  | .quotedSymbol => .ok (some (.atom (.symbol (inside written) true)))
  | .hexadecimal => .ok (some (.atom (.hexadecimal (written.drop 2))))
  | .binary => .ok (some (.atom (.binary (written.drop 2))))
  | .decimal => .ok (some (.atom (.decimal written)))
  | .numeral => .ok (some (.atom (.numeral written)))
  | .keyword => .ok (some (.atom (.keyword written)))
  | .symbol => .ok (some (.atom (.symbol written false)))

/-- The tokens up to the end of the text or up to the first fault. -/
structure Scan where
  tokens : List Token
  fault : Option ReadFault

def Scan.prepend (lexeme : Option Lexeme) (position : Position)
    (scan : Scan) : Scan :=
  match lexeme with
  | none => scan
  | some lexeme => ⟨⟨lexeme, position⟩ :: scan.tokens, scan.fault⟩

/-- Scans a text that starts at the given position. A fault in an escape is
placed at the start of its string literal, without offset. -/
def scanFrom (position : Position) : Text → Scan
  | [] => ⟨[], none⟩
  | first :: rest =>
    match recognize first rest with
    | none => ⟨[], some ⟨.unexpected first, position.place⟩⟩
    | some (kind, count) =>
      let written := first :: rest.take count
      match lexemeOf kind written with
      | .error cause =>
        ⟨[], some ⟨.escape cause, ⟨position.line, position.column, none⟩⟩⟩
      | .ok lexeme =>
        (scanFrom (position.after written) (rest.drop count)).prepend lexeme
          position
termination_by text => text.length
decreasing_by simp only [List.length_drop, List.length_cons]; omega

def scan (text : Text) : Scan :=
  scanFrom .start text

end Lexer

def tokenize (text : Text) : Except ReadFault (List Token) :=
  let scan := Lexer.scan text
  match scan.fault with
  | none => .ok scan.tokens
  | some fault => .error fault

end ModelAudit
