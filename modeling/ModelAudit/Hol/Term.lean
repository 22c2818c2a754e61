import ModelAudit.Text.Basic

/-!
# Terms and types of Isabelle/HOL

The part of the inner syntax that theories use, and its text. Every compound
term stands in parentheses, so a term can be put anywhere.
-/

namespace ModelAudit

inductive HolType
  /-- A type constant or a type variable. -/
  | named (name : Text)
  | word (width : Int)
  | function (argument result : HolType)
deriving DecidableEq

namespace HolType

def bool : HolType := .named "bool"

def int : HolType := .named "int"

def real : HolType := .named "real"

def string : HolType := .named "string"

def text : HolType → Text
  | named name => name
  | word width => Text.integer width ++ " word"
  | function argument result =>
    "(" ++ argument.text ++ " \\<Rightarrow> " ++ result.text ++ ")"

/-- The type of a curried function. The outermost arrows stand without
parentheses. -/
def curriedText (arguments : List HolType) (result : HolType) : Text :=
  Text.join " \\<Rightarrow> " ((arguments ++ [result]).map text)

end HolType

inductive HolBinder
  | universal
  | existential
  | abstraction
deriving DecidableEq

def HolBinder.symbol : HolBinder → Text
  | universal => "\\<forall>"
  | existential => "\\<exists>"
  | abstraction => "\\<lambda>"

inductive HolTerm
  /-- A variable: one that is bound, or one that the lemma fixes. -/
  | name (identifier : Text)
  /-- A constant of HOL, or whatever spells an operator. -/
  | constant (symbol : Text)
  /-- A number with its type. -/
  | numeral (digits : Text) (type : HolType)
  /-- A list of characters, given by their codes. -/
  | characters (codes : List Nat)
  /-- An infix operator taken as a function. -/
  | operatorSection (symbol : Text)
  | apply (function : HolTerm) (arguments : List HolTerm)
  | operation (symbol : Text) (left right : HolTerm)
  | conjunction (parts : List HolTerm)
  | conditional (test first second : HolTerm)
  /-- The function that differs from the given one at one argument. -/
  | update (function argument value : HolTerm)
  /-- The function with the same value for all arguments of a type. -/
  | constantFunction (argumentType : HolType) (value : HolTerm)
  /-- An application whose type is stated. -/
  | typed (function : Text) (arguments : List HolTerm) (type : HolType)
  /-- Whether a real number is integral. -/
  | isIntegral (number : HolTerm)
  /-- Equations that scope one after the other. -/
  | letIn (equations : List (Text × HolTerm)) (body : HolTerm)
  | bound (binder : HolBinder) (names : List (Text × HolType)) (body : HolTerm)

namespace HolTerm

/-- A character by its code, in two hexadecimal digits. -/
def characterText (code : Nat) : Text :=
  "CHR 0x" ++ Text.upperHexadecimal 2 code

def variableText (entry : Text × HolType) : Text :=
  "(" ++ entry.fst ++ "::" ++ entry.snd.text ++ ")"

mutual

def text : HolTerm → Text
  | name identifier => identifier
  | constant symbol => symbol
  | numeral digits type => "(" ++ digits ++ "::" ++ type.text ++ ")"
  | characters codes =>
    "([" ++ Text.join ", " (codes.map characterText) ++ "]::string)"
  | operatorSection symbol => "(" ++ symbol ++ ")"
  | apply function arguments =>
    "(" ++ function.text ++ argumentsText arguments ++ ")"
  | operation symbol left right =>
    "(" ++ left.text ++ " " ++ symbol ++ " " ++ right.text ++ ")"
  | conjunction parts => "(" ++ conjunctsText parts ++ ")"
  | conditional test first second =>
    "(if " ++ test.text ++ " then " ++ first.text ++ " else " ++
      second.text ++ ")"
  | update function argument value =>
    "(" ++ function.text ++ "(" ++ argument.text ++ " := " ++ value.text ++ "))"
  | constantFunction argumentType value =>
    "(\\<lambda>_::" ++ argumentType.text ++ ". " ++ value.text ++ ")"
  | typed function arguments type =>
    "(" ++ function ++ argumentsText arguments ++ " :: " ++ type.text ++ ")"
  | isIntegral number =>
    "(of_int (floor " ++ number.text ++ ") = " ++ number.text ++ ")"
  | letIn equations body =>
    "(let " ++ equationsText equations ++ " in " ++ body.text ++ ")"
  | bound binder names body =>
    "(" ++ binder.symbol ++ Text.words (names.map variableText) ++ ". " ++
      body.text ++ ")"

/-- The texts of arguments, each after a space. -/
def argumentsText : List HolTerm → Text
  | [] => []
  | argument :: arguments => " " ++ argument.text ++ argumentsText arguments

def conjunctsText : List HolTerm → Text
  | [] => []
  | [part] => part.text
  | part :: parts => part.text ++ " \\<and> " ++ conjunctsText parts

def equationsText : List (Text × HolTerm) → Text
  | [] => []
  | [(identifier, value)] => identifier ++ " = " ++ value.text
  | (identifier, value) :: equations =>
    identifier ++ " = " ++ value.text ++ "; " ++ equationsText equations

end

def truth (value : Bool) : HolTerm :=
  .constant (if value then "True" else "False")

/-- The conjunction of terms; a single term stands for itself. -/
def conjoin : List HolTerm → HolTerm
  | [] => truth true
  | [part] => part
  | parts => .conjunction parts

def call (function : Text) (arguments : List HolTerm) : HolTerm :=
  .apply (.constant function) arguments

end HolTerm

end ModelAudit
