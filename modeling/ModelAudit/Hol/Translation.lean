import ModelAudit.Hol.Scope
import ModelAudit.Hol.Spelling
import ModelAudit.Script.Fault

/-!
# Translation of terms to HOL

A term is translated by recursion; the scope gives the identifiers of the
binders around it. HOL evaluates the equations of a let one after the other,
while SMT-LIB evaluates them all outside, so a new identifier avoids those that
the other bound terms refer to.
-/

namespace ModelAudit

/-- The HOL type of a sort. Arrays are functions, and a declared sort is a type
variable. -/
def SmtSort.toHol (userSorts : List Text) : SmtSort → Except Unsupported HolType
  | .mk name params indices =>
    let sort := SmtSort.mk name params indices
    let otherwise : Except Unsupported HolType :=
      if sort.isSimple && userSorts.contains name then
        .ok (.named (Identifier.typeVariable name))
      else .error ⟨sort.text, "sort"⟩
    if sort = .bool then .ok .bool
    else if sort = .int then .ok .int
    else if sort = .real then .ok .real
    else if sort = .string then .ok .string
    else
      match sort.width? with
      | some width => .ok (.word width)
      | none =>
        match params with
        | [index, element] =>
          if name = ("Array" : Text) then do
            let argument ← index.toHol userSorts
            let result ← element.toHol userSorts
            return .function argument result
          else otherwise
        | _ => otherwise

namespace Translation

/-- What a translation depends on. -/
structure Vocabulary where
  operators : OperatorTable
  userSorts : List Text

/-- Characters are bytes in HOL. -/
def characters (contents : Text) : Except Unsupported HolTerm :=
  match contents.find? fun point => 0xFF < point.toNat with
  | some point =>
    .error ⟨"string literal",
      "code point U+" ++ Text.upperHexadecimal 4 point.toNat ++ " above U+00FF"⟩
  | none => .ok (.characters (contents.map CodePoint.toNat))

def literal : Literal → Except Unsupported HolTerm
  | .bool value => .ok (.truth value)
  | .integer value => .ok (.numeral (Text.decimal value) .int)
  | .decimal written => .ok (.numeral written .real)
  | .bitVector value width => .ok (.numeral (Text.decimal value) (.word width))
  | .string contents => characters contents

def binary (fixity : Fixity) (left right : HolTerm) : HolTerm :=
  match fixity with
  | .infixed symbol => .operation symbol left right
  | .prefixed function => .call function [left, right]
  | .sectioned symbol => .apply (.operatorSection symbol) [left, right]
  | .templated template => .call template.text [left, right]

/-- An application to one argument. Alone, an infix operator stands for nothing,
and an overriding operator needs no parentheses. -/
def unary (spelling : Spelling) (argument : HolTerm) : HolTerm :=
  match spelling.fixity with
  | .infixed _ => argument
  | .prefixed function => .call function [argument]
  | .sectioned symbol => .call symbol [argument]
  | .templated template => .call template.text [argument]

/-- All pairs of two elements, in the order of the list. -/
def pairs {Element : Type} : List Element → List (Element × Element)
  | [] => []
  | first :: others => (others.map fun other => (first, other)) ++ pairs others

/-- All pairs of neighbours. -/
def neighbours {Element : Type} (elements : List Element) :
    List (Element × Element) :=
  elements.zip (elements.drop 1)

/-- Nests an operator to the right. -/
def foldRight (fixity : Fixity) : HolTerm → List HolTerm → HolTerm
  | first, [] => first
  | first, second :: others =>
    binary fixity first (foldRight fixity second others)

def several (spelling : Spelling) (first : HolTerm) (others : List HolTerm) :
    HolTerm :=
  let arguments := first :: others
  let holdsOf (couples : List (HolTerm × HolTerm)) : HolTerm :=
    .conjoin (couples.map fun (left, right) =>
      binary spelling.fixity left right)
  if spelling.pairwise then holdsOf (pairs arguments)
  else if spelling.chainable then holdsOf (neighbours arguments)
  else
    match spelling.associativity, spelling.fixity with
    | some .right, fixity => foldRight fixity first others
    | none, .prefixed function => .call function arguments
    | none, .sectioned symbol => .apply (.operatorSection symbol) arguments
    | _, fixity => others.foldl (binary fixity) first

/-- The index type of an array sort. -/
def indexType? (vocabulary : Vocabulary) (sort : SmtSort) :
    Except Unsupported (Option HolType) :=
  match sort.arrayParts? with
  | none => .ok none
  | some (index, _) => do return some (← index.toHol vocabulary.userSorts)

/-- An application that is no template; none without arguments, or if the form
for one argument asks for more. -/
def plain? (spelling : Spelling) : List HolTerm → Option HolTerm
  | [] => none
  | [argument] =>
    match spelling.single with
    | none => some (unary spelling argument)
    | some template => template.fill? ⟨[argument], [], .bool, none⟩
  | first :: second :: others =>
    some (several spelling first (second :: others))

/-- An application of an operator, if it could be spelled. -/
def spelled (operator : Operator) : Option HolTerm → Except Unsupported HolTerm
  | none => .error ⟨operator.name, "operator"⟩
  | some term => .ok term

/-- Applies an operator of SMT-LIB to translated arguments. -/
def spell (vocabulary : Vocabulary) (operator : Operator) (indices : List Nat)
    (arguments : List HolTerm) (sort : SmtSort) : Except Unsupported HolTerm :=
  match (vocabulary.operators operator).spelling? with
  | none => spelled operator none
  | some spelling =>
    match spelling.fixity with
    | .templated template => do
      let type ← sort.toHol vocabulary.userSorts
      let indexType ← indexType? vocabulary sort
      spelled operator
        (template.fill? ⟨arguments, indices.map Text.decimal, type, indexType⟩)
    | _ => spelled operator (plain? spelling arguments)

/-- The identifiers that a term refers to in a scope. -/
def references (scope : HolScope) (term : Term) : List Text :=
  term.freeNames.map scope.identifier

/-- For each element, all the other ones. -/
def withOthers {Element : Type} (before : List Element) :
    List Element → List (Element × List Element)
  | [] => []
  | element :: after =>
    (element, before ++ after) :: withOthers (before ++ [element]) after

/-- The names of a let with the identifiers that each has to avoid: those that
the terms of the other names refer to. -/
def letNames (scope : HolScope) (bindings : List (Text × Term)) :
    List (Text × List Text) :=
  (withOthers [] bindings).map fun ((name, _), others) =>
    (name, others.flatMap fun (_, term) => references scope term)

/-- The identifiers and types of typed binders, and the scope inside them. -/
def enterBinders (vocabulary : Vocabulary) (scope : HolScope)
    (binders : Binders) :
    Except Unsupported (List (Text × HolType) × HolScope) := do
  let picked := scope.pick [] (binders.map fun (name, _) => (name, []))
  let types ← binders.mapM fun (_, sort) => sort.toHol vocabulary.userSorts
  return ((picked.map Prod.snd).zip types, scope.bind picked)

def binderOf : Quantifier → HolBinder
  | .universal => .universal
  | .existential => .existential

mutual

def term (vocabulary : Vocabulary) (scope : HolScope) :
    Term → Except Unsupported HolTerm
  | .literal value => literal value
  | .symbol name _ => .ok (.name (scope.identifier name))
  | .functionArray function index element =>
    spell vocabulary .functionArray [] [.name (scope.identifier function)]
      (.array index element)
  | .application head indices arguments sort => do
    let translated ← terms vocabulary scope arguments
    match head with
    | .function name =>
      return .apply (.name (Identifier.escape name)) translated
    | .operator operator => spell vocabulary operator indices translated sort
  | .letIn bindings body => do
    let values ← boundTerms vocabulary scope bindings
    let picked := scope.pick [] (letNames scope bindings)
    let translated ← term vocabulary (scope.bind picked) body
    return .letIn ((picked.map Prod.snd).zip values) translated
  | .quantified quantifier binders body => do
    let (typed, inner) ← enterBinders vocabulary scope binders
    let translated ← term vocabulary inner body
    return .bound (binderOf quantifier) typed translated
  | .annotated inner _ => term vocabulary scope inner

def terms (vocabulary : Vocabulary) (scope : HolScope) :
    List Term → Except Unsupported (List HolTerm)
  | [] => .ok []
  | first :: others => do
    let translated ← term vocabulary scope first
    let rest ← terms vocabulary scope others
    return translated :: rest

def boundTerms (vocabulary : Vocabulary) (scope : HolScope) :
    List (Text × Term) → Except Unsupported (List HolTerm)
  | [] => .ok []
  | (_, first) :: others => do
    let translated ← term vocabulary scope first
    let rest ← boundTerms vocabulary scope others
    return translated :: rest

end

/-- The scope outside all binders, in which the identifiers of all declared
symbols are taken. -/
def rootScope (symbols : SymbolTable) : HolScope :=
  .ofNames [] (symbols.declarations.names.map Identifier.escape)

/-- What stands on the right of a definition's equation: the body as a function
of the parameters. -/
def definitionValue (vocabulary : Vocabulary) (scope : HolScope)
    (definition : Definition) : Except Unsupported HolTerm :=
  if definition.params.isEmpty then term vocabulary scope definition.body
  else do
    let (typed, inner) ← enterBinders vocabulary scope definition.params
    let body ← term vocabulary inner definition.body
    return .bound .abstraction typed body

/-- The equation of a definition: its identifier and its value. -/
def equation (vocabulary : Vocabulary) (scope : HolScope)
    (definition : Definition) : Except Unsupported (Text × HolTerm) := do
  return (Identifier.escape definition.name,
    ← definitionValue vocabulary scope definition)

def equationText (equation : Text × HolTerm) : Text :=
  equation.fst ++ " = " ++ equation.snd.text

/-- The helpers that the spellings of operators refer to, before closure. -/
def helpersOf (table : OperatorTable) (operators : List Operator) :
    Except Unsupported (List Helper) := do
  let lists ← operators.mapM fun operator =>
    match (table operator).spelling? with
    | some spelling => .ok spelling.helpers
    | none => .error ⟨operator.name, "operator"⟩
  return lists.flatten

end Translation

end ModelAudit
