import ModelAudit.Operator
import ModelAudit.SmtSort

/-!
# Terms

Every term carries the sorts that reading it established. Names refer to binders
or to declared symbols; which one is meant follows from the binders around.
-/

namespace ModelAudit

inductive Literal
  | bool (value : Bool)
  | integer (value : Nat)
  /-- A real number, as written. -/
  | decimal (written : Text)
  | bitVector (value width : Nat)
  | string (contents : Text)
deriving DecidableEq

def Literal.sort : Literal → SmtSort
  | bool _ => .bool
  | integer _ => .int
  | decimal _ => .real
  | bitVector _ width => .bitVec width
  | string _ => .string

inductive Head
  | operator (operator : Operator)
  | function (name : Text)
deriving DecidableEq

def Head.name : Head → Text
  | operator applied => applied.name
  | function name => name

inductive Quantifier
  | universal
  | existential
deriving DecidableEq

def Quantifier.name : Quantifier → Text
  | universal => "forall"
  | existential => "exists"

/-- Names with their sorts, in the order in which they are bound. -/
abbrev Binders := List (Text × SmtSort)

inductive Term
  | literal (value : Literal)
  /-- A bound variable or a constant. -/
  | symbol (name : Text) (sort : SmtSort)
  /-- A unary function taken as an array. -/
  | functionArray (function : Text) (index element : SmtSort)
  | application (head : Head) (indices : List Nat) (arguments : List Term)
      (sort : SmtSort)
  /-- All bound terms are evaluated outside the bindings. -/
  | letIn (bindings : List (Text × Term)) (body : Term)
  | quantified (quantifier : Quantifier) (binders : Binders) (body : Term)
  /-- A term with attributes, which have no influence on its meaning. -/
  | annotated (term : Term) (attributes : List (Text × Text))

namespace Term

def sort : Term → SmtSort
  | literal value => value.sort
  | symbol _ sort => sort
  | functionArray _ index element => .array index element
  | application _ _ _ sort => sort
  | letIn _ body => body.sort
  | quantified _ _ _ => .bool
  | annotated term _ => term.sort

mutual

/-- The names that occur free, operators included; a name may be listed more
than once. -/
def freeNames : Term → List Text
  | literal _ => []
  | symbol name _ => [name]
  | functionArray function _ _ => [function, Operator.functionArray.name]
  | application head _ arguments _ => freeNamesOfAll arguments ++ [head.name]
  | letIn bindings body =>
    freeNamesOfBindings bindings ++
      body.freeNames.filter fun name => !(bindings.map Prod.fst).contains name
  | quantified _ binders body =>
    body.freeNames.filter fun name => !(binders.map Prod.fst).contains name
  | annotated term _ => term.freeNames

def freeNamesOfAll : List Term → List Text
  | [] => []
  | term :: terms => freeNames term ++ freeNamesOfAll terms

def freeNamesOfBindings : List (Text × Term) → List Text
  | [] => []
  | (_, bound) :: bindings => freeNames bound ++ freeNamesOfBindings bindings

end

mutual

/-- The heads of all applications, each before those in its arguments. -/
def heads : Term → List Head
  | literal _ => []
  | symbol _ _ => []
  | functionArray _ _ _ => [.operator .functionArray]
  | application head _ arguments _ => head :: headsOfAll arguments
  | letIn bindings body => headsOfBindings bindings ++ body.heads
  | quantified _ _ body => body.heads
  | annotated term _ => term.heads

def headsOfAll : List Term → List Head
  | [] => []
  | term :: terms => heads term ++ headsOfAll terms

def headsOfBindings : List (Text × Term) → List Head
  | [] => []
  | (_, bound) :: bindings => heads bound ++ headsOfBindings bindings

end

/-- The built-in operators that a term applies. -/
def operators (term : Term) : List Operator :=
  term.heads.filterMap fun
    | .operator operator => some operator
    | .function _ => none

end Term

end ModelAudit
