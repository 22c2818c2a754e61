import ModelAudit.Script.Fault

/-!
# Reading sorts

A sort expression is a name, an indexed identifier or an application. Aliases
are expanded while they are read.
-/

namespace ModelAudit

/-- Rejects an expression that is not what is expected at its place. -/
def expected {Result : Type} (what : Text) (expression : SExpr) :
    Except Fault Result :=
  .error (.malformed (.expected what expression.text) expression.place)

def misshapen {Result : Type} (what : Text) (expression : SExpr) :
    Except Fault Result :=
  .error (.malformed (.misshapen what expression.text) expression.place)

def unsupported {Result : Type} (construct detail : Text) :
    Except Fault Result :=
  .error (.unsupported ⟨construct, detail⟩)

def mismatch {Result : Type} (cause : MismatchCause) (expression : SExpr) :
    Except Fault Result :=
  .error (.mismatch cause expression.place)

def readSymbol (what : Text) (expression : SExpr) : Except Fault Text :=
  match expression.symbol? with
  | some name => .ok name
  | none => expected what expression

def readNumeral : SExpr → Except Fault Nat
  | .atom (.numeral digits) _ => .ok (Text.decimalValue digits)
  | expression => expected "a numeral" expression

/-- The sort that an alias stands for, once its arguments are complete. -/
def expandAlias (name : Text) (sortAlias : SortAlias) (arguments : List SmtSort)
    (expression : SExpr) : Except Fault SmtSort :=
  if sortAlias.params.length = arguments.length
    then .ok (sortAlias.instantiate arguments)
  else mismatch (.aliasArguments name sortAlias.params.length) expression

/-- The sort that a name alone denotes. Placeholders of an alias under
definition come first, then aliases, built-in sorts and declared sorts. -/
def sortOfName (symbols : SymbolTable) (placeholders : List Text) (name : Text)
    (expression : SExpr) : Except Fault SmtSort :=
  if placeholders.contains name then .ok (.simple name)
  else
    match symbols.aliases.find? name with
    | some sortAlias => expandAlias name sortAlias [] expression
    | none =>
      match SmtSort.builtin? name [] [] with
      | some sort => .ok sort
      | none =>
        if symbols.sorts.find? name = some 0 then .ok (.simple name)
        else .error (.undeclaredSort name expression.place)

def indexedSort (items : List SExpr) (expression : SExpr) :
    Except Fault SmtSort :=
  match items with
  | head :: first :: others => do
    match head.symbol? with
    | none => misshapen "indexed sort" expression
    | some name =>
      let indices ← (first :: others).mapM readNumeral
      match SmtSort.builtin? name [] (indices.map Int.ofNat) with
      | some sort => return sort
      | none => unsupported expression.text "indexed sort"
  | _ => misshapen "indexed sort" expression

def appliedSort (symbols : SymbolTable) (name : Text) (arguments : List SmtSort)
    (expression : SExpr) : Except Fault SmtSort :=
  match symbols.aliases.find? name with
  | some sortAlias => expandAlias name sortAlias arguments expression
  | none =>
    match SmtSort.builtin? name arguments [] with
    | some sort => .ok sort
    | none => unsupported expression.text "sort"

mutual

def readSort (symbols : SymbolTable) (placeholders : List Text) :
    SExpr → Except Fault SmtSort
  | .atom leaf position =>
    match leaf with
    | .symbol name quoted =>
      sortOfName symbols placeholders name
        (.atom (.symbol name quoted) position)
    | _ => expected "a sort" (.atom leaf position)
  | .list [] position => expected "a sort" (.list [] position)
  | .list (head :: items) position =>
    let expression := .list (head :: items) position
    if head.isSymbol "_" then indexedSort items expression
    else do
      let name ← readSymbol "sort name" head
      let arguments ← readSorts symbols placeholders items
      appliedSort symbols name arguments expression

def readSorts (symbols : SymbolTable) (placeholders : List Text) :
    List SExpr → Except Fault (List SmtSort)
  | [] => .ok []
  | expression :: expressions => do
    let sort ← readSort symbols placeholders expression
    let sorts ← readSorts symbols placeholders expressions
    return sort :: sorts

end

/-- A name with its sort, as binders and parameter lists hold them. -/
def readSortedName (symbols : SymbolTable) :
    SExpr → Except Fault (Text × SmtSort)
  | .list [name, sort] _ => do
    return (← readSymbol "variable name" name, ← readSort symbols [] sort)
  | expression => expected "(name sort)" expression

end ModelAudit
