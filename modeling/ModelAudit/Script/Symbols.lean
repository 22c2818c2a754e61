import ModelAudit.Script.TermEquality
import ModelAudit.Table

/-!
# Declared symbols and sorts

The symbol table of a script: signatures of symbols, sorts with their arities,
and sort aliases, each in the order of first introduction. Definitions, formulas
and models are built over it.
-/

namespace ModelAudit

/-- Whether a symbol was declared only, or given a definition. -/
inductive DeclarationKind
  | declared
  | defined
deriving DecidableEq

structure Declaration where
  name : Text
  arguments : List SmtSort
  result : SmtSort
  kind : DeclarationKind
deriving DecidableEq

namespace Declaration

def isConstant (declaration : Declaration) : Bool :=
  declaration.arguments.isEmpty

def sameSignature (left right : Declaration) : Bool :=
  left.arguments = right.arguments && left.result = right.result

def signatureText (declaration : Declaration) : Text :=
  "(" ++ Text.words (declaration.arguments.map SmtSort.text) ++ ") " ++
    declaration.result.text

end Declaration

/-- A named sort with parameters, which occur in the body as simple sorts. -/
structure SortAlias where
  params : List Text
  body : SmtSort
deriving DecidableEq

mutual

/-- Replaces simple sorts by those that the table has under their names. -/
def SmtSort.substitute (replacements : Table SmtSort) : SmtSort → SmtSort
  | .mk name params indices =>
    match params, indices with
    | [], [] => (replacements.find? name).getD (.mk name [] [])
    | [], _ => .mk name [] indices
    | first :: others, _ =>
      .mk name (substituteAll replacements (first :: others)) indices

def SmtSort.substituteAll (replacements : Table SmtSort) : List SmtSort →
  List SmtSort
  | [] => []
  | sort :: sorts =>
    substitute replacements sort :: substituteAll replacements sorts

end

/-- The body with the parameters replaced by the arguments, all at once; of a
repeated parameter the last argument counts. -/
def SortAlias.instantiate (sortAlias : SortAlias) (arguments : List SmtSort) :
    SmtSort :=
  sortAlias.body.substitute (Table.ofPairs (sortAlias.params.zip arguments))

structure SymbolTable where
  declarations : Table Declaration
  /-- The declared sorts with their arities. -/
  sorts : Table Nat
  aliases : Table SortAlias
deriving DecidableEq

namespace SymbolTable

def empty : SymbolTable :=
  ⟨[], [], []⟩

def declareSort (symbols : SymbolTable) (name : Text) (arity : Nat) :
    SymbolTable :=
  { symbols with sorts := symbols.sorts.insert name arity }

def defineSort (symbols : SymbolTable) (name : Text) (sortAlias : SortAlias) :
    SymbolTable :=
  { symbols with aliases := symbols.aliases.insert name sortAlias }

def declare (symbols : SymbolTable) (declaration : Declaration) : SymbolTable :=
  { symbols with
    declarations := symbols.declarations.insert declaration.name declaration }

def lookup? (symbols : SymbolTable) (name : Text) : Option Declaration :=
  symbols.declarations.find? name

def isSortName (symbols : SymbolTable) (name : Text) : Bool :=
  symbols.sorts.has name || symbols.aliases.has name ||
    SmtSort.builtinNames.contains name

def userSorts (symbols : SymbolTable) : List Text :=
  symbols.sorts.names

end SymbolTable

/-- A function with named parameters and a body; a constant has no
parameters. -/
structure Definition where
  declaration : Declaration
  params : Binders
  body : Term
deriving DecidableEq

def Definition.name (definition : Definition) : Text :=
  definition.declaration.name

/-- The assertions of a script, meant as one conjunction, and its
definitions. -/
structure Formula where
  assertions : List Term
  definitions : List Definition
deriving DecidableEq

/-- What a solver printed: definitions, and declarations of values of sorts that
have no other names. -/
structure Model where
  definitions : List Definition
  declarations : List Declaration
deriving DecidableEq

/-- The last definition of each name, at the place of the first one. -/
def effectiveDefinitions (definitions : List Definition) : List Definition :=
  (Table.ofPairs
    (definitions.map fun definition => (definition.name, definition))).values

end ModelAudit
