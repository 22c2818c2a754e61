import ModelAudit.SExpr.Lexer
import ModelAudit.Script.SolverOutput
import ModelAudit.Script.Symbols
import ModelAudit.Signature

/-!
# Faults of scripts

Why a formula or a model is rejected. Faults are causes with the data they
concern; `Fault.message` gives the wording, which starts with the line and the
column where they are known.
-/

namespace ModelAudit

inductive MalformedCause
  | reading (cause : ReadCause)
  | expected (what got : Text)
  /-- A command does not start with a symbol. -/
  | headless
  | argumentCount (command : Text) (count : Nat)
  | sortDeclaration
  | parameterList (command what : Text)
  | builtinName (name : Text)
  | misshapen (what got : Text)
  | emptyApplication
  | unexpectedTerm (got : Text)
  | unexpectedToken (got : Text)
  | repeatedBinding (name : Text)
  | letShape
  | quantifierShape (quantifier : Quantifier)
  | annotationShape
deriving DecidableEq

def MalformedCause.message : MalformedCause → Text
  | reading cause => cause.message
  | expected what got => "Expected " ++ what ++ ", got '" ++ got ++ "'"
  | headless => "Command must start with a symbol"
  | argumentCount command count =>
    "'" ++ command ++ "' expects " ++ Text.decimal count ++ " argument(s)"
  | sortDeclaration => "'declare-sort' expects a name and an optional arity"
  | parameterList command what => "'" ++ command ++ "' expects a " ++ what
  | builtinName name => "Cannot redeclare built-in symbol '" ++ name ++ "'"
  | misshapen what got => "Malformed " ++ what ++ " '" ++ got ++ "'"
  | emptyApplication => "Empty application '()'"
  | unexpectedTerm got => "Unexpected term '" ++ got ++ "'"
  | unexpectedToken got => "Unexpected token '" ++ got ++ "'"
  | repeatedBinding name => "Duplicate let binding '" ++ name ++ "'"
  | letShape => "'let' expects a non-empty binding list and a body"
  | quantifierShape quantifier =>
    "'" ++ quantifier.name ++ "' expects a non-empty variable list and a body"
  | annotationShape => "'!' expects a term and at least one attribute"

inductive MismatchCause
  | assertion (got : SmtSort)
  | redeclared (earlier later : Declaration)
  | definitionBody (function : Text) (got expected : SmtSort)
  | aliasArguments (name : Text) (count : Nat)
  | zeroWidth
  | indexedConstant (name : Text)
  | argumentCount (name : Text) (expected got : Nat)
  | missingArguments (name : Text)
  | qualification (name : Text) (got stated : SmtSort)
  | appliedBinder (name : Text)
  | constantArrayShape (stated : SmtSort)
  | constantArrayValue (got expected : SmtSort)
  | argument (name : Text) (place : Nat) (got expected : SmtSort)
  | signature (fault : SignatureFault)
  | quantifierBody (got : SmtSort)

def MismatchCause.message : MismatchCause → Text
  | assertion got => "Assertion has sort " ++ got.text ++ ", expected Bool"
  | redeclared earlier later =>
    "'" ++ later.name ++ "' redeclared with a different signature (" ++
      earlier.signatureText ++ " vs " ++ later.signatureText ++ ")"
  | definitionBody function got expected =>
    "Body of '" ++ function ++ "' has sort " ++ got.text ++ ", expected " ++
      expected.text
  | aliasArguments name count =>
    "Sort alias '" ++ name ++ "' expects " ++ Text.decimal count ++
      " argument(s)"
  | zeroWidth => "Bit-vector width must be positive"
  | indexedConstant name => "Indexed operator '" ++ name ++ "' needs arguments"
  | argumentCount name expected got =>
    "'" ++ name ++ "' expects " ++ Text.decimal expected ++
      " argument(s), got " ++
      Text.decimal got
  | missingArguments name =>
    "'" ++ name ++ "' is an operator and needs arguments"
  | qualification name got stated =>
    "'" ++ name ++ "' has sort " ++ got.text ++ ", not " ++ stated.text
  | appliedBinder name =>
    "Bound variable '" ++ name ++ "' cannot be applied to arguments"
  | constantArrayShape stated =>
    "'(as const " ++ stated.text ++ ")' expects an array sort and one value"
  | constantArrayValue got expected =>
    "Constant array value has sort " ++ got.text ++ ", expected " ++
      expected.text
  | argument name place got expected =>
    "'" ++ name ++ "' argument " ++ Text.decimal place ++ " has sort " ++
      got.text ++
      ", expected " ++ expected.text
  | signature fault => fault.message
  | quantifierBody got =>
    "Quantifier body has sort " ++ got.text ++ ", expected Bool"

/-- How a model contradicts the formula. -/
inductive ConflictCause
  | declares (name : Text)
  | redefines (name : Text)
deriving DecidableEq

def ConflictCause.message : ConflictCause → Text
  | declares name =>
    "Model declares '" ++ name ++ "', which the formula defines"
  | redefines name =>
    "Model redefines '" ++ name ++ "', which the formula defines"

/-- A construct of SMT-LIB that is read but has no counterpart in HOL. -/
structure Unsupported where
  construct : Text
  /-- What the construct is, or where it stands. -/
  detail : Text
deriving DecidableEq

def Unsupported.message (fault : Unsupported) : Text :=
  let detail : Text :=
    if fault.detail.isEmpty then [] else " (" ++ fault.detail ++ ")"
  "Unsupported SMT-LIB construct: " ++ fault.construct ++ detail

inductive Fault
  | malformed (cause : MalformedCause) (place : Place)
  | undeclared (name : Text) (place : Place)
  | undeclaredSort (name : Text) (place : Place)
  | mismatch (cause : MismatchCause) (place : Place)
  | noModel (cause : NoModelCause)
  | conflict (cause : ConflictCause) (place : Place)
  | unsupported (fault : Unsupported)
  /-- An empty list stands where a qualified name is expected. -/
  | emptyIdentifier
  /-- A digit of a bit-vector constant belongs to no decimal system. -/
  | digitWithoutValue
  /-- A model is read before any formula. -/
  | noFormula

namespace Fault

def reading (fault : ReadFault) : Fault :=
  .malformed (.reading fault.cause) fault.place

/-- What is said to be undeclared, for faults of this kind. -/
def undeclaredName? : Fault → Option Text
  | undeclared name _ => some name
  | undeclaredSort name _ => some ("Undeclared sort: " ++ name)
  | _ => none

/-- The place that the fault names; none for faults of other kinds than those
found while reading. -/
def place? : Fault → Option Place
  | malformed _ place | undeclared _ place | undeclaredSort _ place
  | mismatch _ place
  | conflict _ place => some place
  | noModel _ => some .unknown
  | unsupported _ | emptyIdentifier | digitWithoutValue | noFormula => none

def plainMessage : Fault → Text
  | malformed cause _ => cause.message
  | undeclared name _ => "Undeclared symbol: " ++ name
  | undeclaredSort name _ => "Undeclared symbol: Undeclared sort: " ++ name
  | mismatch cause _ => cause.message
  | noModel cause => cause.message
  | conflict cause _ => cause.message
  | unsupported fault => fault.message
  | emptyIdentifier => "Empty identifier"
  | digitWithoutValue => "Digit without value"
  | noFormula => "The formula must be parsed before the model"

/-- Line and column, where the line is known. -/
def placeText (place : Place) : Text :=
  if place.line = 0 then []
  else
    "Line " ++ Text.decimal place.line ++ ", Col " ++ Text.decimal
      place.column ++ ": "

def message (fault : Fault) : Text :=
  (fault.place?.map placeText).getD [] ++ fault.plainMessage

end Fault

end ModelAudit
