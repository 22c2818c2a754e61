import ModelAudit.Script.TermReading

/-!
# Commands

Commands declare sorts and symbols, define functions, and assert terms. Each
function here maps the symbol table before a command to the one after it, or
says why the command is rejected.
-/

namespace ModelAudit

/-- A command: its leading symbol, all its items and the whole expression. -/
structure Command where
  head : Text
  items : List SExpr
  expression : SExpr

namespace Command

def ofExpression (expression : SExpr) : Except Fault Command :=
  match expression with
  | .atom _ _ => expected "a command" expression
  | .list items position =>
    match expression.headSymbol? with
    | some head => .ok ⟨head, items, expression⟩
    | none => .error (.malformed .headless position.place)

def line (command : Command) : Nat :=
  command.expression.position.line

/-- Rejects a command for its count of arguments. -/
def wrongCount {Result : Type} (command : Command) (count : Nat) :
    Except Fault Result :=
  .error (.malformed
    (.argumentCount command.head count) command.expression.place)

/-- Commands that say nothing about a formula. -/
def ignoredHeads : List Text :=
  ["set-logic", "set-info", "set-option", "check-sat", "get-model", "get-value",
    "get-info", "get-option", "get-assertions", "get-assignment",
    "get-unsat-core", "get-proof", "echo", "exit"]

def parameterItems (command : Text) (what : Text) :
    SExpr → Except Fault (List SExpr)
  | .list items _ => .ok items
  | .atom _ position =>
    .error (.malformed (.parameterList command what) position.place)

/-- Declares a symbol. Built-in names are taken, and a symbol keeps its
signature for good. -/
def declareSymbol (symbols : SymbolTable) (nameExpression : SExpr)
    (arguments : List SmtSort) (result : SmtSort) (kind : DeclarationKind) :
    Except Fault (Declaration × SymbolTable) := do
  let name ← readSymbol "symbol" nameExpression
  if isBuiltinName name then
    .error (.malformed (.builtinName name) nameExpression.place)
  else
    let declaration : Declaration := ⟨name, arguments, result, kind⟩
    match (symbols.lookup? name).filter fun earlier =>
      !earlier.sameSignature declaration with
    | some earlier => mismatch (.redeclared earlier declaration) nameExpression
    | none => return (declaration, symbols.declare declaration)

def declareSort (symbols : SymbolTable) (command : Command) :
    Except Fault SymbolTable :=
  let declareName (nameExpression : SExpr) (arity : SExpr → Except Fault Nat) :
      Except Fault SymbolTable := do
    let name ← readSymbol "sort name" nameExpression
    let count ← arity nameExpression
    if count = 0 then return symbols.declareSort name 0
    else
      unsupported "declare-sort"
        ("parametric sort " ++ name ++ " of arity " ++ Text.decimal count)
  match command.items with
  | [_, name] => declareName name fun _ => .ok 0
  | [_, name, arity] => declareName name fun _ => readNumeral arity
  | _ => .error (.malformed .sortDeclaration command.expression.place)

def defineSort (symbols : SymbolTable) (command : Command) :
    Except Fault SymbolTable :=
  match command.items with
  | [_, nameExpression, paramList, bodyExpression] => do
    let name ← readSymbol "sort name" nameExpression
    let params ← (← parameterItems command.head "parameter list" paramList).mapM
      (readSymbol "sort parameter")
    let body ← readSort symbols params bodyExpression
    return symbols.defineSort name ⟨params, body⟩
  | _ => command.wrongCount 3

def declareFunction (symbols : SymbolTable) (command : Command) :
    Except Fault (Declaration × SymbolTable) :=
  match command.items with
  | [_, name, argumentList, resultExpression] => do
    let arguments ← readSorts symbols []
      (← parameterItems command.head "list of argument sorts" argumentList)
    let result ← readSort symbols [] resultExpression
    declareSymbol symbols name arguments result .declared
  | _ => command.wrongCount 3

def declareConstant (symbols : SymbolTable) (command : Command) :
    Except Fault (Declaration × SymbolTable) :=
  match command.items with
  | [_, name, sortExpression] => do
    let sort ← readSort symbols [] sortExpression
    declareSymbol symbols name [] sort .declared
  | _ => command.wrongCount 2

/-- The symbol that `declare-fun` or `declare-const` declares; none for other
commands. -/
def declaration? (symbols : SymbolTable) (command : Command) :
    Option (Except Fault (Declaration × SymbolTable)) :=
  if command.head = ("declare-fun" : Text)
    then some (declareFunction symbols command)
  else if command.head = ("declare-const" : Text)
    then some (declareConstant symbols command)
  else none

/-- The parts of a function definition before its body is read. -/
structure FunctionHeader where
  nameExpression : SExpr
  params : Binders
  result : SmtSort
  bodyExpression : SExpr

def FunctionHeader.arguments (header : FunctionHeader) : List SmtSort :=
  header.params.map Prod.snd

def functionHeader (symbols : SymbolTable) (command : Command) :
    Except Fault FunctionHeader :=
  match command.items with
  | [_, name, paramList, resultExpression, body] => do
    let params ← (← parameterItems command.head "parameter list" paramList).mapM
      (readSortedName symbols)
    let result ← readSort symbols [] resultExpression
    return ⟨name, params, result, body⟩
  | _ => command.wrongCount 4

/-- Declares the function that the command defines, whatever its body. -/
def registerFunction (symbols : SymbolTable) (command : Command) :
    Except Fault SymbolTable := do
  let header ← functionHeader symbols command
  let (_, symbols) ←
    declareSymbol symbols header.nameExpression header.arguments header.result
    .defined
  return symbols

/-- Reads a function definition. The function is declared after its body is
read, so a body knows the function only if it was declared before. -/
def defineFunction (symbols : SymbolTable) (command : Command) :
    Except Fault (Definition × SymbolTable) := do
  let header ← functionHeader symbols command
  let body ← readTerm symbols
    (Scope.enter [] header.params) header.bodyExpression
  if body.sort = header.result then
    let (declaration, symbols) ←
      declareSymbol symbols header.nameExpression header.arguments header.result
      .defined
    return (⟨declaration, header.params, body⟩, symbols)
  else
    mismatch (.definitionBody header.nameExpression.text body.sort
      header.result) header.bodyExpression

def readAssertion (symbols : SymbolTable) (command : Command) :
    Except Fault Term :=
  match command.items with
  | [_, expression] => do
    let term ← readTerm symbols [] expression
    if term.sort = .bool then return term
    else mismatch (.assertion term.sort) expression
  | _ => command.wrongCount 1

end Command

end ModelAudit
