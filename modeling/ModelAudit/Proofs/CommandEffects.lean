import ModelAudit.Proofs.TermSources
import ModelAudit.Script.Session

/-!
# Effects of commands

What a command that is read has been read from, and what it does to a formula,
to a model or to the symbols. Each function that reads commands is taken apart
once; whatever a run of commands preserves is then shown for each effect.
-/

namespace ModelAudit

open Outcome

namespace SExpr

variable {expression : SExpr} {word : Text}

/-- The name behind the head of a command, if the head is this word. -/
def nameAfter? (word : Text) : SExpr → Option Text
  | .list (head :: name :: _) _ =>
    if head.isSymbol word then name.symbol? else none
  | _ => none

theorem nameAfter?_of_head {first name : SExpr} {rest : List SExpr}
    {position : Position} (headed : first.symbol? = some word) :
    nameAfter? word (.list (first :: name :: rest) position) =
      name.symbol? := by
  rw [nameAfter?, isSymbol, headed, if_pos (decide_eq_true rfl)]

theorem nameAfter?_of_other {head : Text}
    (headed : expression.headSymbol? = some head) (other : head ≠ word) :
    nameAfter? word expression = none := by
  match expression with
  | .atom _ _ | .list [] _ | .list [_] _ => rfl
  | .list (first :: _ :: _) _ =>
      change first.symbol? = some head at headed
      rw [nameAfter?, isSymbol, headed, if_neg (by simpa using other)]

end SExpr

namespace Command

variable {symbols later : SymbolTable} {command : Command} {expression : SExpr}

theorem parameterItems_eq_ok {head what : Text} {items : List SExpr} :
    parameterItems head what expression = .ok items ↔
      ∃ position, expression = .list items position := by
  cases expression with
  | atom leaf position => simp [parameterItems]
  | list others position => simp [parameterItems, eq_comm]

theorem headSymbol?_of_ofExpression
    (isCommand : ofExpression expression = .ok command) :
    ∃ position, expression = .list command.items position ∧
      expression.headSymbol? = some command.head := by
  unfold ofExpression at isCommand
  split at isCommand
  · cases isCommand
  · next items position =>
    split at isCommand
    · next head headed =>
      obtain rfl := Except.ok.inj isCommand
      exact ⟨position, rfl, headed⟩
    · cases isCommand

/-- The name that a command introduces stands after its leading symbol. -/
def Introduces (command : Command) (name : Text) : Prop :=
  ∃ head nameExpression rest,
    command.items = head :: nameExpression :: rest ∧
    nameExpression.symbol? = some name

/-! ## Terms -/

theorem readAssertion_eq_ok {term : Term}
    (read : command.readAssertion symbols = .ok term) :
    ∃ head expression, command.items = [head, expression] ∧
      readTerm symbols [] expression = .ok term ∧ term.sort = .bool := by
  rw [readAssertion] at read
  split at read
  · next head expression items =>
    obtain ⟨inner, innerRead, read⟩ := bind_eq_ok.mp read
    split at read
    · next sort =>
      obtain rfl := Except.ok.inj read
      exact ⟨head, expression, items, innerRead, sort⟩
    · cases read
  · cases read

/-! ## Sorts -/

/-- A command that declares a sort declares it over every table. -/
theorem declareSort_eq_ok (declared : command.declareSort symbols = .ok later) :
    ∃ name, command.Introduces name ∧ later = symbols.declareSort name 0 ∧
      ∀ other, command.declareSort other = .ok (other.declareSort name 0) := by
  have named (nameExpression : SExpr) (arity : Except Fault Nat)
      (read : (do
        let name ← readSymbol "sort name" nameExpression
        let count ← arity
        if count = 0 then return symbols.declareSort name 0
        else
          unsupported "declare-sort"
            ("parametric sort " ++ name ++ " of arity " ++ Text.decimal
              count)) = .ok later) :
      ∃ name, readSymbol "sort name" nameExpression = .ok name ∧ arity = .ok 0 ∧
        later = symbols.declareSort name 0 := by
    obtain ⟨name, named, read⟩ := bind_eq_ok.mp read
    obtain ⟨count, counted, read⟩ := bind_eq_ok.mp read
    split at read
    · next zero =>
      exact ⟨name, named, zero ▸ counted, (Except.ok.inj read).symm⟩
    · cases read
  rw [declareSort] at declared
  split at declared
  · next items =>
    obtain ⟨name, read, _, rfl⟩ := named _ _ declared
    refine ⟨name, ⟨_, _, _, items, readSymbol_eq_ok.mp read⟩, rfl,
      fun other => ?_⟩
    simp only [declareSort, items, read, ok_bind, if_true, pure_eq]
  · next items =>
    obtain ⟨name, read, counted, rfl⟩ := named _ _ declared
    refine ⟨name, ⟨_, _, _, items, readSymbol_eq_ok.mp read⟩, rfl,
      fun other => ?_⟩
    simp only [declareSort, items, read, counted, ok_bind, if_true, pure_eq]
  · cases declared

/-- The parts of a sort definition that was read. -/
structure DefinesSort (command : Command) (symbols : SymbolTable) (name : Text)
    (params : List Text) (bodyExpression : SExpr) (body : SmtSort) : Prop where
  items : ∃ head nameExpression paramItems position,
    command.items = [head, nameExpression, .list paramItems position,
      bodyExpression] ∧
      nameExpression.symbol? = some name ∧
      List.Forall₂ (fun item param => SExpr.symbol? item = some param)
        paramItems params
  read : readSort symbols params bodyExpression = .ok body

theorem defineSort_eq_ok (defined : command.defineSort symbols = .ok later) :
    ∃ name params bodyExpression body,
      DefinesSort command symbols name params bodyExpression body ∧
      later = symbols.defineSort name ⟨params, body⟩ := by
  rw [defineSort] at defined
  split at defined
  · next head nameExpression paramList bodyExpression items =>
    obtain ⟨name, named, defined⟩ := bind_eq_ok.mp defined
    obtain ⟨paramItems, listed, defined⟩ := bind_eq_ok.mp defined
    obtain ⟨params, paramsRead, defined⟩ := bind_eq_ok.mp defined
    obtain ⟨body, bodyRead, defined⟩ := bind_eq_ok.mp defined
    obtain rfl := Except.ok.inj defined
    obtain ⟨position, rfl⟩ := parameterItems_eq_ok.mp listed
    refine ⟨name, params, bodyExpression, body, ⟨?_, bodyRead⟩, rfl⟩
    exact ⟨head, nameExpression, paramItems, position, items,
      readSymbol_eq_ok.mp named, (mapM_eq_ok.mp paramsRead).imp fun _ _ read =>
        readSymbol_eq_ok.mp read⟩
  · cases defined

/-! ## Symbols -/

/-- What is known of a symbol that was declared. -/
structure DeclaresSymbol (symbols : SymbolTable) (nameExpression : SExpr)
    (arguments : List SmtSort) (result : SmtSort) (kind : DeclarationKind)
    (declaration : Declaration) (later : SymbolTable) : Prop where
  table : later = symbols.declare declaration
  named : nameExpression.symbol? = some declaration.name
  unreserved : isBuiltinName declaration.name = false
  arguments : declaration.arguments = arguments
  result : declaration.result = result
  kind : declaration.kind = kind
  same : ∀ earlier, symbols.lookup? declaration.name = some earlier →
    earlier.sameSignature declaration = true

variable {declaration : Declaration}

/-- A symbol is declared exactly if its name is not built in and a signature
that it already has is the same. -/
theorem declareSymbol_eq_ok_iff {nameExpression : SExpr}
    {arguments : List SmtSort} {result : SmtSort} {kind : DeclarationKind} :
    declareSymbol symbols nameExpression arguments result kind =
        .ok (declaration, later) ↔
      DeclaresSymbol symbols nameExpression arguments result kind declaration
        later := by
  constructor
  · intro declared
    rw [declareSymbol] at declared
    obtain ⟨name, named, declared⟩ := bind_eq_ok.mp declared
    have symbol := readSymbol_eq_ok.mp named
    split at declared
    · cases declared
    · next unreserved =>
      dsimp only at declared
      split at declared
      · cases declared
      · next fits =>
        obtain ⟨rfl, rfl⟩ := Prod.mk.inj (Except.ok.inj declared)
        refine ⟨rfl, symbol, by simpa using unreserved, rfl, rfl, rfl,
          fun earlier found => ?_⟩
        rw [found] at fits
        simpa [Option.filter] using fits
  · rintro ⟨rfl, named, unreserved, rfl, rfl, rfl, same⟩
    have allowed : (symbols.lookup? declaration.name).filter
        (fun earlier => !earlier.sameSignature declaration) = none := by
      cases found : symbols.lookup? declaration.name with
      | none => rfl
      | some earlier => simp [Option.filter, same earlier found]
    rw [declareSymbol, readSymbol_eq_ok.mpr named, ok_bind, unreserved,
      if_neg Bool.false_ne_true]
    dsimp only
    rw [allowed]
    rfl

/-- The parts of a declaration that was read. A constant has no expressions for
arguments. -/
structure DeclarationParts (command : Command) (symbols : SymbolTable)
    (declaration : Declaration) (later : SymbolTable) (nameExpression : SExpr)
    (argumentItems : List SExpr)
    (resultExpression : SExpr) : Prop where
  items : ∃ head rest, command.items = head :: nameExpression :: rest
  arguments : readSorts symbols [] argumentItems = .ok declaration.arguments
  result : readSort symbols [] resultExpression = .ok declaration.result
  declares : DeclaresSymbol symbols nameExpression declaration.arguments
    declaration.result .declared declaration later
  /-- Over another table the command declares the symbol with the sorts that are
  read there. -/
  elsewhere : ∀ other arguments result, readSorts other [] argumentItems =
      .ok arguments →
    readSort other [] resultExpression = .ok result →
    command.declaration? other =
      some (declareSymbol other nameExpression arguments result .declared)

theorem head_of_declaration?
    {declared : Except Fault (Declaration × SymbolTable)}
    (declares : command.declaration? symbols = some declared) :
    command.head = ("declare-fun" : Text) ∨
    command.head = ("declare-const" : Text) := by
  rw [declaration?] at declares
  split at declares
  · next head => exact .inl head
  · split at declares
    · next head => exact .inr head
    · cases declares

theorem head_ne_of_declaration?
    {declared : Except Fault (Declaration × SymbolTable)}
    (declares : command.declaration? symbols = some declared) {head : Text}
    (other : head ∉ (["declare-fun", "declare-const"] : List Text)) :
    command.head ≠ head := by
  rintro rfl
  rcases head_of_declaration? declares with same | same
  all_goals simp [same] at other

theorem exists_declarationParts
    (declared : command.declaration? symbols =
      some (.ok (declaration, later))) :
    ∃ nameExpression argumentItems resultExpression,
      DeclarationParts command symbols declaration
      later nameExpression argumentItems resultExpression := by
  rw [declaration?] at declared
  split at declared
  · next head =>
    have declared := Option.some.inj declared
    rw [declareFunction] at declared
    split at declared
    · next first name argumentList resultExpression items =>
      obtain ⟨argumentItems, isList, declared⟩ := bind_eq_ok.mp declared
      obtain ⟨arguments, argumentsRead, declared⟩ := bind_eq_ok.mp declared
      obtain ⟨result, resultRead, declared⟩ := bind_eq_ok.mp declared
      have declares := declareSymbol_eq_ok_iff.mp declared
      obtain rfl := declares.arguments
      obtain rfl := declares.result
      refine ⟨name, argumentItems, resultExpression, ⟨_, _, items⟩,
        argumentsRead, resultRead, declares,
        fun other arguments result argumentsThere resultThere => ?_⟩
      rw [declaration?, if_pos head, declareFunction, items]
      dsimp only
      rw [isList, ok_bind, argumentsThere, ok_bind, resultThere, ok_bind]
    · cases declared
  next notFunction =>
  split at declared
  · next head =>
    have declared := Option.some.inj declared
    rw [declareConstant] at declared
    split at declared
    · next first name resultExpression items =>
      obtain ⟨result, resultRead, declared⟩ := bind_eq_ok.mp declared
      have declares := declareSymbol_eq_ok_iff.mp declared
      have constant := declares.arguments
      obtain rfl := declares.result
      refine ⟨name, [], resultExpression, ⟨_, _, items⟩, constant ▸ rfl,
        resultRead, constant.symm ▸ declares,
        fun other arguments result argumentsThere resultThere => ?_⟩
      obtain rfl : [] = arguments := Except.ok.inj argumentsThere
      rw [declaration?, if_neg notFunction, if_pos head, declareConstant, items]
      dsimp only
      rw [resultThere, ok_bind]
    · cases declared
  · cases declared

theorem DeclarationParts.introduces {nameExpression resultExpression : SExpr}
    {argumentItems : List SExpr}
    (parts : DeclarationParts command symbols declaration later
      nameExpression argumentItems resultExpression) : command.Introduces
        declaration.name := by
  obtain ⟨head, rest, items⟩ := parts.items
  exact ⟨head, nameExpression, rest, items, parts.declares.named⟩

/-! ## Functions -/

/-- The parts of a function definition before its body is read. -/
structure HeaderParts (command : Command) (symbols : SymbolTable)
    (header : FunctionHeader) (paramItems : List SExpr)
    (resultExpression : SExpr) : Prop where
  items : ∃ head position, command.items =
    [head, header.nameExpression, .list paramItems position, resultExpression,
      header.bodyExpression]
  params : paramItems.mapM (readSortedName symbols) = .ok header.params
  result : readSort symbols [] resultExpression = .ok header.result

variable {header : FunctionHeader} {definition : Definition}

theorem exists_headerParts
    (read : command.functionHeader symbols = .ok header) :
    ∃ paramItems resultExpression,
      HeaderParts command symbols header paramItems resultExpression := by
  unfold functionHeader at read
  split at read
  · next items =>
    obtain ⟨paramItems, listed, read⟩ := bind_eq_ok.mp read
    obtain ⟨params, paramsRead, read⟩ := bind_eq_ok.mp read
    obtain ⟨result, resultRead, read⟩ := bind_eq_ok.mp read
    obtain rfl := Except.ok.inj read
    obtain ⟨position, rfl⟩ := parameterItems_eq_ok.mp listed
    exact ⟨paramItems, _, ⟨_, position, items⟩, paramsRead, resultRead⟩
  · cases read

/-- The expressions of a header are items of the command. -/
theorem items_of_functionHeader
    (read : command.functionHeader symbols = .ok header) :
    ∃ head params result,
      command.items = [head, header.nameExpression, params, result,
        header.bodyExpression] := by
  obtain ⟨_, _, parts⟩ := exists_headerParts read
  obtain ⟨head, _, items⟩ := parts.items
  exact ⟨head, _, _, items⟩

/-- The body of a definition does not matter to the declaration of its
function. -/
theorem registerFunction_eq_ok_iff :
    command.registerFunction symbols = .ok later ↔
      ∃ header declaration, command.functionHeader symbols = .ok header ∧
        DeclaresSymbol symbols header.nameExpression header.arguments
          header.result .defined declaration later := by
  constructor
  · intro registered
    obtain ⟨header, read, registered⟩ := bind_eq_ok.mp registered
    obtain ⟨⟨declaration, table⟩, declared, registered⟩ :=
      bind_eq_ok.mp registered
    obtain rfl := Except.ok.inj registered
    exact ⟨header, declaration, read, declareSymbol_eq_ok_iff.mp declared⟩
  · rintro ⟨header, declaration, read, declares⟩
    rw [registerFunction, read, ok_bind, declareSymbol_eq_ok_iff.mpr declares]
    rfl

/-- The parts of a definition that was read. -/
structure DefinitionParts (command : Command) (symbols : SymbolTable)
    (definition : Definition) (later : SymbolTable) (header : FunctionHeader) :
    Prop where
  read : command.functionHeader symbols = .ok header
  body : readTerm symbols (Scope.enter [] header.params) header.bodyExpression =
    .ok definition.body
  sameSort : definition.body.sort = header.result
  declares : DeclaresSymbol symbols header.nameExpression header.arguments
    header.result .defined definition.declaration later
  params : definition.params = header.params

theorem exists_parts
    (defined : command.defineFunction symbols = .ok (definition, later)) :
    ∃ header, DefinitionParts command symbols definition later header := by
  rw [defineFunction] at defined
  obtain ⟨header, read, defined⟩ := bind_eq_ok.mp defined
  obtain ⟨body, bodyRead, defined⟩ := bind_eq_ok.mp defined
  split at defined
  · next sameSort =>
    obtain ⟨⟨declaration, table⟩, declared, defined⟩ := bind_eq_ok.mp defined
    obtain ⟨rfl, rfl⟩ := Prod.mk.inj (Except.ok.inj defined)
    exact ⟨header, read, bodyRead, sameSort,
      declareSymbol_eq_ok_iff.mp declared, rfl⟩
  · cases defined

theorem DefinitionParts.introduces
    (parts : DefinitionParts command symbols definition later header) :
    command.Introduces definition.name := by
  obtain ⟨head, _, _, items⟩ := items_of_functionHeader parts.read
  exact ⟨head, _, _, items, parts.declares.named⟩

end Command

namespace Session

variable {session : Session} {expression : SExpr} {command : Command}

/-! ## Steps of a formula -/

/-- What a command does in a formula. -/
inductive FormulaEffect (progress : FormulaProgress) (command : Command) :
    FormulaProgress → Prop
  | ignored (head : Command.ignoredHeads.contains command.head = true) :
      FormulaEffect progress command progress
  | asserted {term : Term} (head : command.head = ("assert" : Text))
      (read : command.readAssertion progress.session.symbols = .ok term) :
      FormulaEffect progress command ⟨progress.session,
        { progress.formula with
          assertions := progress.formula.assertions ++ [term] }⟩
  | defined {definition : Definition} {symbols : SymbolTable}
      (head : command.head = ("define-fun" : Text))
      (read : command.defineFunction progress.session.symbols =
        .ok (definition, symbols)) :
      FormulaEffect progress command ⟨{ progress.session with
          symbols, definitions :=
            progress.session.definitions.insert definition.name definition },
        { progress.formula with
          definitions := progress.formula.definitions ++ [definition] }⟩
  | sortDeclared {symbols : SymbolTable}
      (head : command.head = ("declare-sort" : Text))
      (read : command.declareSort progress.session.symbols = .ok symbols) :
      FormulaEffect progress command ⟨{ progress.session with symbols },
        progress.formula⟩
  | sortDefined {symbols : SymbolTable}
      (head : command.head = ("define-sort" : Text))
      (read : command.defineSort progress.session.symbols = .ok symbols) :
      FormulaEffect progress command ⟨{ progress.session with symbols },
        progress.formula⟩
  | declared {declaration : Declaration} {symbols : SymbolTable}
      (read : command.declaration? progress.session.symbols =
        some (.ok (declaration, symbols))) :
      FormulaEffect progress command ⟨{ progress.session with symbols },
        progress.formula⟩

section Formula

variable {progress next : FormulaProgress}

/-- An accepted command of a formula has one of the effects listed. -/
theorem exists_formulaEffect
    (stepped : formulaStep progress expression = .ok next) :
    ∃ command, Command.ofExpression expression = .ok command ∧
      FormulaEffect progress command next := by
  unfold formulaStep at stepped
  obtain ⟨command, isCommand, stepped⟩ := bind_eq_ok.mp stepped
  refine ⟨command, isCommand, ?_⟩
  split at stepped
  · next head =>
    obtain rfl := Except.ok.inj stepped
    exact .ignored head
  split at stepped
  · next head =>
    obtain ⟨term, read, stepped⟩ := bind_eq_ok.mp stepped
    obtain rfl := Except.ok.inj stepped
    exact .asserted head read
  split at stepped
  · next head =>
    obtain ⟨⟨definition, symbols⟩, read, stepped⟩ := bind_eq_ok.mp stepped
    obtain rfl := Except.ok.inj stepped
    exact .defined head read
  split at stepped
  · next head =>
    obtain ⟨symbols, read, stepped⟩ := bind_eq_ok.mp stepped
    obtain rfl := Except.ok.inj stepped
    exact .sortDeclared head read
  split at stepped
  · next head =>
    obtain ⟨symbols, read, stepped⟩ := bind_eq_ok.mp stepped
    obtain rfl := Except.ok.inj stepped
    exact .sortDefined head read
  split at stepped
  · next read =>
    obtain ⟨⟨declaration, symbols⟩, rfl, stepped⟩ := bind_eq_ok.mp stepped
    obtain rfl := Except.ok.inj stepped
    exact .declared read
  · cases stepped

theorem FormulaEffect.of_assertion
    (effect : FormulaEffect progress command next)
    (head : command.head = ("assert" : Text)) :
    ∃ term, command.readAssertion progress.session.symbols = .ok term ∧
      next = ⟨progress.session,
        { progress.formula with
          assertions := progress.formula.assertions ++ [term] }⟩ := by
  cases effect with
  | asserted _ read => exact ⟨_, read, rfl⟩
  | ignored other =>
      rw [head] at other
      exact absurd other (by decide)
  | defined other _ | sortDeclared other _ | sortDefined other _ =>
      exact absurd (head.symm.trans other) (by decide)
  | declared read =>
    exact absurd head (Command.head_ne_of_declaration? read (by decide))

theorem FormulaEffect.of_definition
    (effect : FormulaEffect progress command next)
    (head : command.head = ("define-fun" : Text)) :
    ∃ definition symbols,
      command.defineFunction progress.session.symbols =
          .ok (definition, symbols) ∧
        next = ⟨{ progress.session with
            symbols,
            definitions :=
  progress.session.definitions.insert definition.name definition },
          { progress.formula with
            definitions := progress.formula.definitions ++ [definition] }⟩ := by
  cases effect with
  | defined _ read => exact ⟨_, _, read, rfl⟩
  | ignored other =>
      rw [head] at other
      exact absurd other (by decide)
  | asserted other _ | sortDeclared other _ | sortDefined other _ =>
      exact absurd (head.symm.trans other) (by decide)
  | declared read =>
    exact absurd head (Command.head_ne_of_declaration? read (by decide))

end Formula

/-! ## Steps of a model -/

theorem requireSameDefinition_eq_ok_iff {definition : Definition}
    {head name : SExpr} {rest : List SExpr}
    (items : command.items = head :: name :: rest) :
    session.requireSameDefinition definition command = .ok () ↔
      ∀ earlier, session.definitions.find? definition.name = some earlier →
        earlier = definition := by
  rw [requireSameDefinition, items]
  cases session.definitions.find? definition.name with
  | none => simp
  | some earlier => simp

theorem requireUndefined_eq_ok_iff {name : Text}
    (introduces : command.Introduces name) :
    session.requireUndefined command = .ok () ↔
      session.definitions.find? name = none := by
  obtain ⟨head, nameExpression, rest, items, named⟩ := introduces
  rw [requireUndefined, items]
  dsimp only
  rw [named]
  cases found : session.definitions.find? name with
  | none => simp [Option.filter, Table.has, found]
  | some earlier => simp [Option.filter, Table.has, found]

/-- Definitions declare their function in the first pass, and other commands do
nothing. -/
theorem registerStep_eq_ok_iff {next : Session} :
    registerStep session expression = .ok next ↔
      ∃ command, Command.ofExpression expression = .ok command ∧
        (command.head = ("define-fun" : Text) ∧
            (∃ symbols, command.registerFunction session.symbols = .ok symbols ∧
              next = { session with symbols }) ∨
          command.head ≠ ("define-fun" : Text) ∧ next = session) := by
  unfold registerStep
  rw [bind_eq_ok]
  refine exists_congr fun command => and_congr_right fun _ => ?_
  by_cases head : command.head = ("define-fun" : Text)
  · rw [if_pos head, bind_eq_ok]
    simp [head, eq_comm (b := next)]
  · rw [if_neg head]
    simp [head, eq_comm]

/-- What a command does in a model. -/
inductive ModelEffect (progress : ModelProgress) (command : Command) :
    ModelProgress → Prop
  | defined {definition : Definition} {symbols : SymbolTable}
      (head : command.head = ("define-fun" : Text))
      (read : command.defineFunction progress.session.symbols =
        .ok (definition, symbols))
      (same : progress.session.requireSameDefinition definition command =
        .ok ()) :
      ModelEffect progress command ⟨{ progress.session with symbols },
        { progress.model with definitions := progress.model.definitions ++
            if progress.session.definitions.has definition.name then []
              else [definition] }⟩
  | sortDeclared {symbols : SymbolTable}
      (head : command.head = ("declare-sort" : Text))
      (read : command.declareSort progress.session.symbols = .ok symbols) :
      ModelEffect progress command ⟨{ progress.session with symbols },
        progress.model⟩
  | declared {declaration : Declaration} {symbols : SymbolTable}
      (read : command.declaration? progress.session.symbols =
        some (.ok (declaration, symbols)))
      (undefined : progress.session.requireUndefined command = .ok ()) :
      ModelEffect progress command ⟨{ progress.session with symbols },
        { progress.model with
          declarations := progress.model.declarations ++ [declaration] }⟩

section Model

variable {progress next : ModelProgress}

/-- An accepted command of a model has one of the effects listed. -/
theorem exists_modelEffect
    (stepped : modelStep progress expression = .ok next) :
    ∃ command, Command.ofExpression expression = .ok command ∧
      ModelEffect progress command next := by
  unfold modelStep at stepped
  obtain ⟨command, isCommand, stepped⟩ := bind_eq_ok.mp stepped
  refine ⟨command, isCommand, ?_⟩
  split at stepped
  · next head =>
    obtain ⟨⟨definition, symbols⟩, read, stepped⟩ := bind_eq_ok.mp stepped
    obtain ⟨same, stepped⟩ := check_bind_eq_ok.mp stepped
    obtain rfl := Except.ok.inj stepped
    exact .defined head read same
  split at stepped
  · next head =>
    obtain ⟨symbols, read, stepped⟩ := bind_eq_ok.mp stepped
    obtain rfl := Except.ok.inj stepped
    exact .sortDeclared head read
  split at stepped
  · next read =>
    obtain ⟨undefined, stepped⟩ := check_bind_eq_ok.mp stepped
    obtain ⟨⟨declaration, symbols⟩, rfl, stepped⟩ := bind_eq_ok.mp stepped
    obtain rfl := Except.ok.inj stepped
    exact .declared read undefined
  · cases stepped

/-- Each of the effects is that of an accepted command. -/
theorem ModelEffect.modelStep (effect : ModelEffect progress command next)
    (isCommand : Command.ofExpression expression = .ok command) :
    modelStep progress expression = .ok next := by
  obtain ⟨session, model⟩ := progress
  unfold Session.modelStep
  dsimp only
  rw [isCommand, ok_bind]
  cases effect with
  | defined head read same =>
      dsimp only at read same
      rw [if_pos head, read, ok_bind, same]
      rfl
  | sortDeclared head read =>
      dsimp only at read
      rw [if_neg (by rw [head]; decide), if_pos head, read]
      rfl
  | declared read undefined =>
      dsimp only at read undefined
      rw [if_neg (Command.head_ne_of_declaration? read (by decide)),
        if_neg (Command.head_ne_of_declaration? read (by decide)), read]
      dsimp only
      rw [undefined]
      rfl

theorem ModelEffect.of_definition (effect : ModelEffect progress command next)
    (head : command.head = ("define-fun" : Text)) :
    ∃ definition symbols,
      command.defineFunction progress.session.symbols =
          .ok (definition, symbols) ∧
        progress.session.requireSameDefinition definition command = .ok () ∧
        next = ⟨{ progress.session with symbols },
          { progress.model with definitions := progress.model.definitions ++
              if progress.session.definitions.has definition.name then []
                else [definition] }⟩ := by
  cases effect with
  | defined _ read same => exact ⟨_, _, read, same, rfl⟩
  | sortDeclared other _ => exact absurd (head.symm.trans other) (by decide)
  | declared read _ =>
    exact absurd head (Command.head_ne_of_declaration? read (by decide))

end Model

end Session

end ModelAudit
