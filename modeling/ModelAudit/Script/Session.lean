import ModelAudit.Script.Command
import ModelAudit.SExpr.Reader

/-!
# Sessions

A session reads a formula and then models of it over one symbol table. Whatever
was declared before a fault stays declared. A model may repeat a definition of
the formula, but it never changes one.
-/

namespace ModelAudit

structure Session where
  symbols : SymbolTable
  /-- Whether some formula has been read to its end. -/
  formulaRead : Bool
  /-- The formula's definitions, the last one of each name. -/
  definitions : Table Definition

namespace Session

def start : Session :=
  ⟨.empty, false, []⟩

/-- Runs a step on each expression in turn. At a fault the state before the
faulty expression is kept. -/
def runAll {State : Type} (step : State → SExpr → Except Fault State)
    (state : State) : List SExpr → Option Fault × State
  | [] => (none, state)
  | expression :: expressions =>
    match step state expression with
    | .ok next => runAll step next expressions
    | .error fault => (some fault, state)

structure FormulaProgress where
  session : Session
  formula : Formula

def formulaStep (progress : FormulaProgress) (expression : SExpr) :
    Except Fault FormulaProgress := do
  let { session, formula } := progress
  let symbols := session.symbols
  let command ← Command.ofExpression expression
  if Command.ignoredHeads.contains command.head then return progress
  else if command.head = ("assert" : Text) then
    let term ← command.readAssertion symbols
    return ⟨session,
      { formula with assertions := formula.assertions ++ [term] }⟩
  else if command.head = ("define-fun" : Text) then
    let (definition, symbols) ← command.defineFunction symbols
    return ⟨{ session with
        symbols, definitions :=
          session.definitions.insert definition.name definition },
      { formula with definitions := formula.definitions ++ [definition] }⟩
  else if command.head = ("declare-sort" : Text) then
    return ⟨{ session with symbols := ← command.declareSort symbols }, formula⟩
  else if command.head = ("define-sort" : Text) then
    return ⟨{ session with symbols := ← command.defineSort symbols }, formula⟩
  else
    match command.declaration? symbols with
    | some declared =>
      let (_, symbols) ← declared
      return ⟨{ session with symbols }, formula⟩
    | none =>
      unsupported command.head ("command at line " ++ Text.decimal command.line)

/-- Reads a formula; the session afterwards holds what was declared, also if the
formula is faulty. -/
def readFormula (session : Session) (text : Text) :
    Except Fault Formula × Session :=
  match readExpressions text with
  | .error fault => (.error (.reading fault), session)
  | .ok expressions =>
    match runAll formulaStep ⟨session, ⟨[], []⟩⟩ expressions with
    | (some fault, progress) => (.error fault, progress.session)
    | (none, progress) =>
      (.ok progress.formula, { progress.session with formulaRead := true })

/-- The commands of a model, without the list around them that some solvers
print, with or without the word `model`. -/
def unwrapModel (expressions : List SExpr) : List SExpr :=
  match expressions with
  | [.list items position] =>
    if (SExpr.list items position).headSymbol? = some (Text.ofString "model")
      then
      items.drop 1
    else if items.all SExpr.isList then items
    else expressions
  | _ => expressions

/-- Declares the functions that a model defines, before any body is read, since
solvers print functions after the definitions that use them. -/
def registerStep (session : Session) (expression : SExpr) :
    Except Fault Session := do
  let command ← Command.ofExpression expression
  if command.head = ("define-fun" : Text) then
    return { session with
      symbols := ← command.registerFunction session.symbols }
  else return session

structure ModelProgress where
  session : Session
  model : Model

/-- Rejects a definition that differs from the formula's one of that name. -/
def requireSameDefinition (session : Session) (definition : Definition)
    (command : Command) : Except Fault Unit :=
  match session.definitions.find? definition.name, command.items with
  | some earlier, _ :: nameExpression :: _ =>
    if earlier = definition then .ok ()
    else .error (.conflict (.redefines definition.name) nameExpression.place)
  | _, _ => .ok ()

/-- Rejects a declaration of a name that the formula defines. -/
def requireUndefined (session : Session) (command : Command) :
    Except Fault Unit :=
  match command.items with
  | _ :: nameExpression :: _ =>
    match nameExpression.symbol?.filter session.definitions.has with
    | some name => .error (.conflict (.declares name) nameExpression.place)
    | none => .ok ()
  | _ => .ok ()

def modelStep (progress : ModelProgress) (expression : SExpr) :
    Except Fault ModelProgress := do
  let { session, model } := progress
  let symbols := session.symbols
  let command ← Command.ofExpression expression
  if command.head = ("define-fun" : Text) then
    let (definition, symbols) ← command.defineFunction symbols
    requireSameDefinition session definition command
    let added :=
      if session.definitions.has definition.name then [] else [definition]
    return ⟨{ session with symbols },
      { model with definitions := model.definitions ++ added }⟩
  else if command.head = ("declare-sort" : Text) then
    return ⟨{ session with symbols := ← command.declareSort symbols }, model⟩
  else
    match command.declaration? symbols with
    | some declared =>
      requireUndefined session command
      let (declaration, symbols) ← declared
      return ⟨{ session with symbols },
        { model with declarations := model.declarations ++ [declaration] }⟩
    | none =>
      unsupported command.head
        ("model command at line " ++ Text.decimal command.line)

/-- Reads a model from a solver's output, after a formula has been read. -/
def readModel (session : Session) (output : Text) :
    Except Fault Model × Session :=
  if session.formulaRead then
    match SolverOutput.modelText output with
    | .error cause => (.error (.noModel cause), session)
    | .ok text =>
      match readExpressions text with
      | .error fault => (.error (.reading fault), session)
      | .ok expressions =>
        let commands := unwrapModel expressions
        match runAll registerStep session commands with
        | (some fault, session) => (.error fault, session)
        | (none, session) =>
          match runAll modelStep ⟨session, ⟨[], []⟩⟩ commands with
          | (some fault, progress) => (.error fault, progress.session)
          | (none, progress) => (.ok progress.model, progress.session)
  else (.error .noFormula, session)

/-- A formula and a model of it that have been read without fault, and the
symbols of both. -/
structure Pair where
  formula : Formula
  model : Model
  symbols : SymbolTable
deriving DecidableEq

/-- Reads a formula and then a model in a new session. -/
def readPair (formulaText modelOutput : Text) : Except Fault Pair :=
  match start.readFormula formulaText with
  | (.error fault, _) => .error fault
  | (.ok formula, session) =>
    match session.readModel modelOutput with
    | (.error fault, _) => .error fault
    | (.ok model, session) => .ok ⟨formula, model, session.symbols⟩

end Session

end ModelAudit
