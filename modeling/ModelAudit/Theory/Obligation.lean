import ModelAudit.Config
import ModelAudit.Hol.Translation
import ModelAudit.Script.Session
import ModelAudit.Theory.Lemma
import ModelAudit.Theory.Reachability
import ModelAudit.Universe

/-!
# Obligations

The statement that a model satisfies a formula: the equations of the definitions
imply the conjunction of the assertions. Definitions that the assertions do not
depend on are left out. Values of one sort that the model declares are assumed
to be distinct.
-/

namespace ModelAudit

structure Obligation where
  /-- The symbols in use: first those without an equation, then those with
  one. -/
  fixed : List (Text × List HolType × HolType)
  equations : List (Text × HolTerm)
  /-- Groups of constants that are distinct within each group. -/
  distinct : List (List Text)
  goal : HolTerm
  helpers : List Helper

namespace Obligation

open Translation

def vocabulary (operators : OperatorTable) (symbols : SymbolTable) :
    Vocabulary :=
  ⟨operators, symbols.userSorts⟩

/-- The definitions of the formula and then the model, the last one of each
name. -/
def definitionsInEffect (formula : Formula) (model : Model) : List Definition :=
  effectiveDefinitions (formula.definitions ++ model.definitions)

/-- The names that the formula's assertions depend on. -/
def reached (formula : Formula) (model : Model) : List Text :=
  Reachability.reachedNames formula.assertions
    (definitionsInEffect formula model)

/-- The definitions that the formula's assertions depend on. -/
def kept (formula : Formula) (model : Model) : List Definition :=
  Reachability.keptDefinitions (reached formula model)
    (definitionsInEffect formula model)

/-- The translated assertions. -/
def goals (words : Vocabulary) (scope : HolScope) (formula : Formula) :
    Except Unsupported (List HolTerm) :=
  formula.assertions.mapM (term words scope)

/-- The translated equations of definitions. -/
def equationsOf (words : Vocabulary) (scope : HolScope)
    (definitions : List Definition) :
    Except Unsupported (List (Text × HolTerm)) :=
  definitions.mapM (equation words scope)

/-- The declarations in use: those without a kept definition come first. -/
def usedDeclarations (symbols : SymbolTable) (reached : List Text)
    (kept : List Definition) : List Declaration :=
  let used := symbols.declarations.values.filter fun declaration =>
    reached.contains declaration.name && !isBuiltinName declaration.name
  let isDefined (declaration : Declaration) : Bool :=
    (kept.map Definition.name).contains declaration.name
  (used.filter fun declaration => !isDefined declaration) ++ used.filter
    isDefined

/-- A symbol's identifier with its argument types and its result type. -/
def fixedSymbol (words : Vocabulary) (declaration : Declaration) :
    Except Unsupported (Text × List HolType × HolType) := do
  let arguments ← declaration.arguments.mapM fun sort =>
    sort.toHol words.userSorts
  let result ← declaration.result.toHol words.userSorts
  return (Identifier.escape declaration.name, arguments, result)

/-- The obligation of a pair. Assertions are translated before definitions. -/
def ofPair (operators : OperatorTable) (pair : Session.Pair) :
    Except Unsupported Obligation := do
  let { formula, model, symbols } := pair
  let words := vocabulary operators symbols
  let scope := rootScope symbols
  let reached := reached formula model
  let kept :=
    Reachability.keptDefinitions reached (definitionsInEffect formula model)
  let goals ← goals words scope formula
  let equations ← equationsOf words scope kept
  let applied :=
    (formula.assertions ++ kept.map Definition.body).flatMap Term.operators
  let helpers ← helpersOf operators applied
  let fixed ← (usedDeclarations symbols reached kept).mapM (fixedSymbol words)
  let declared := model.declarations.filter fun declaration =>
    reached.contains declaration.name
  let distinct := (Universe.groups declared).map fun (_, names) =>
    names.map Identifier.escape
  return ⟨fixed, equations, distinct, .conjoin goals, Helper.closure helpers⟩

def translatesFormula (operators : OperatorTable)
    (pair : Session.Pair) : Bool :=
  (goals (vocabulary operators pair.symbols)
    (rootScope pair.symbols) pair.formula).isOk

def translatesModel (operators : OperatorTable) (pair : Session.Pair) : Bool :=
  (equationsOf (vocabulary operators pair.symbols) (rootScope pair.symbols)
    (kept pair.formula pair.model)).isOk

def distinctText (names : List Text) : Text :=
  "distinct [" ++ Text.join ", " names ++ "]"

/-- The groups of assumptions; empty groups are left out. -/
def assumptions (obligation : Obligation) : List (Text × List Text) :=
  let groups : List (Text × List Text) :=
    [("model", obligation.equations.map equationText),
      ("universe", obligation.distinct.map distinctText)]
  groups.filter fun (_, propositions) => !propositions.isEmpty

/-- The lemma that states the obligation. -/
def statement (obligation : Obligation) (method : ProofMethod) : Lemma where
  name := "validation"
  fixes := obligation.fixed.map fun (name, arguments, result) =>
    (name, HolType.curriedText arguments result)
  assumptions := obligation.assumptions
  goal := obligation.goal.text
  facts :=
    obligation.assumptions.map Prod.fst ++ obligation.helpers.map Helper.fact
  method := method.name

/-- The theory with the obligation's lemma. -/
def theory (obligation : Obligation) (config : Config) : Theory :=
  ⟨config.theoryName, config.imports,
    obligation.helpers.map Helper.definitionText,
    obligation.statement config.method⟩

end Obligation

end ModelAudit
