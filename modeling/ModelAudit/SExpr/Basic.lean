import ModelAudit.Text.Quoted

/-!
# S-expressions

Atoms and nested lists, each with the position where it starts, and the text
that denotes an s-expression.
-/

namespace ModelAudit

/-- A place in a text. Lines and columns count from one, offsets from zero. -/
structure Position where
  line : Nat
  column : Nat
  offset : Nat
deriving DecidableEq

namespace Position

def start : Position :=
  ⟨1, 1, 0⟩

/-- The position after one code point; only a line feed starts a new line. -/
def step (position : Position) (point : CodePoint) : Position :=
  if point = '\n' then ⟨position.line + 1, 1, position.offset + 1⟩
  else ⟨position.line, position.column + 1, position.offset + 1⟩

def after (position : Position) (passed : Text) : Position :=
  passed.foldl step position

end Position

/-- The place that an error names, as far as it is known. Line zero stands for
an unknown line. -/
structure Place where
  line : Nat
  column : Nat
  offset : Option Nat
deriving DecidableEq

namespace Place

def unknown : Place :=
  ⟨0, 0, none⟩

end Place

def Position.place (position : Position) : Place :=
  ⟨position.line, position.column, some position.offset⟩

inductive Atom
  | numeral (digits : Text)
  /-- A number with a decimal point, as written. -/
  | decimal (written : Text)
  | hexadecimal (digits : Text)
  | binary (digits : Text)
  /-- A string literal with its escapes decoded. -/
  | string (contents : Text)
  /-- A symbol's name without bars; a name in bars is the same symbol. -/
  | symbol (name : Text) (quoted : Bool)
  /-- A keyword with its colon. -/
  | keyword (written : Text)
deriving DecidableEq

inductive SExpr
  | atom (atom : Atom) (position : Position)
  | list (items : List SExpr) (position : Position)

namespace Atom

/-- Each double quote is written twice. -/
def doubleQuotes (contents : Text) : Text :=
  contents.flatMap fun point : CodePoint => if point = '"' then "\"\""
    else [point]

/-- What the atom holds: a name without bars, contents without quotes, and
otherwise the atom as written. -/
def content : Atom → Text
  | numeral digits => digits
  | decimal written => written
  | hexadecimal digits => "#x" ++ digits
  | binary digits => "#b" ++ digits
  | string contents => contents
  | symbol name _ => name
  | keyword written => written

def text : Atom → Text
  | string contents => "\"" ++ doubleQuotes contents ++ "\""
  | symbol name true => "|" ++ name ++ "|"
  | atom => atom.content

end Atom

namespace SExpr

def position : SExpr → Position
  | atom _ position => position
  | list _ position => position

def place (expression : SExpr) : Place :=
  expression.position.place

mutual

/-- The text of an s-expression, with single spaces between the items of a
list. -/
def text : SExpr → Text
  | atom leaf _ => leaf.text
  | list items _ => "(" ++ itemsText items ++ ")"

def itemsText : List SExpr → Text
  | [] => []
  | [item] => text item
  | item :: items => text item ++ " " ++ itemsText items

end

/-- The name of a symbol, with or without bars. -/
def symbol? : SExpr → Option Text
  | atom (.symbol name _) _ => some name
  | _ => none

def isSymbol (expression : SExpr) (name : Text) : Bool :=
  expression.symbol? = some name

def isList : SExpr → Bool
  | atom _ _ => false
  | list _ _ => true

def headSymbol? : SExpr → Option Text
  | list (head :: _) _ => head.symbol?
  | _ => none

end SExpr

end ModelAudit
