import Mathlib.Data.List.Nodup
import Mathlib.Logic.Relation
import ModelAudit.Proofs.CommandEffects
import ModelAudit.Proofs.GroundSorts

/-!
# Growth of the symbol table

Commands only add to the symbol table: a declared sort stays declared, and a
symbol keeps its signature. Whatever is known of a symbol or a sort when a term
is read therefore holds of all later tables as well.
-/

namespace ModelAudit

namespace Operator

theorem mem_all (operator : Operator) : operator ∈ all := by
  cases operator <;> decide

theorem nodup_names : (all.map name).Nodup := by
  -- Numbers are compared faster than the code points around them.
  have numbers :
      (all.map fun operator => operator.name.map CodePoint.toNat).Nodup := by
    decide +kernel
  refine List.Nodup.of_map (List.map CodePoint.toNat) ?_
  rwa [List.map_map]

theorem name_injective : Function.Injective name := by
  intro left right same
  exact List.inj_on_of_nodup_map nodup_names (mem_all left) (mem_all right) same

theorem name_of_ofName? {name : Text} {operator : Operator}
    (found : ofName? name = some operator) : operator.name = name := by
  rw [ofName?] at found
  simpa using List.find?_some found

theorem ofName?_name (operator : Operator) :
    ofName? operator.name = some operator := by
  have isSome : (ofName? operator.name).isSome = true := by
    rw [ofName?, List.find?_isSome]
    exact ⟨operator, mem_all operator, decide_eq_true rfl⟩
  obtain ⟨found, isFound⟩ := Option.isSome_iff_exists.mp isSome
  rw [isFound, name_injective (name_of_ofName? isFound)]

theorem isBuiltinName_name (operator : Operator) :
    isBuiltinName operator.name = true := by
  rw [isBuiltinName, ofName?_name, Option.isSome_some, Bool.true_or]

end Operator

namespace SymbolTable

/-- Declared symbols have names of their own and ground signatures, and so have
the bodies of aliases. -/
structure WellFormed (symbols : SymbolTable) : Prop where
  aliases : symbols.GroundAliases
  names : ∀ name declaration, symbols.lookup? name = some declaration →
      declaration.name = name
  unreserved : ∀ name ∈ symbols.declarations.names, isBuiltinName name = false
  arguments : ∀ name declaration, symbols.lookup? name = some declaration →
    ∀ argument ∈ declaration.arguments, argument.Ground symbols.userSorts
  results : ∀ name declaration, symbols.lookup? name = some declaration →
    declaration.result.Ground symbols.userSorts

theorem wellFormed_empty : SymbolTable.empty.WellFormed where
  aliases _ _ found := by cases found
  names _ _ found := by cases found
  unreserved _ member := absurd member List.not_mem_nil
  arguments _ _ found := by cases found
  results _ _ found := by cases found

/-- No declared symbol has a built-in name. -/
theorem WellFormed.isBuiltinName_eq_false {symbols : SymbolTable} {name : Text}
    {declaration : Declaration} (wellFormed : symbols.WellFormed)
    (found : symbols.lookup? name = some declaration) :
    isBuiltinName name = false :=
  wellFormed.unreserved name
    (List.mem_map_of_mem (Table.mem_of_find?_eq_some found))

/-- What a command can do to the symbol table. -/
inductive Step (symbols : SymbolTable) : SymbolTable → Prop
  | declareSort (name : Text) : Step symbols (symbols.declareSort name 0)
  | defineSort (name : Text) (sortAlias : SortAlias) :
      sortAlias.body.Ground (sortAlias.params ++ symbols.userSorts) →
      Step symbols (symbols.defineSort name sortAlias)
  | declare (declaration : Declaration) :
      isBuiltinName declaration.name = false →
      (∀ argument ∈ declaration.arguments, argument.Ground symbols.userSorts) →
      declaration.result.Ground symbols.userSorts →
      (∀ earlier, symbols.lookup? declaration.name = some earlier →
        earlier.sameSignature declaration = true) →
      Step symbols (symbols.declare declaration)

/-- The tables that commands lead to. -/
abbrev Grows : SymbolTable → SymbolTable → Prop :=
  Relation.ReflTransGen Step

variable {symbols later : SymbolTable} {name : Text}

theorem lookup?_declare (symbols : SymbolTable) (declaration : Declaration)
    (name : Text) :
    (symbols.declare declaration).lookup? name =
      if declaration.name = name then some declaration
        else symbols.lookup? name := by
  rw [lookup?, declare, Table.find?_insert, lookup?]

theorem Step.userSorts_subset (step : Step symbols later) :
    symbols.userSorts ⊆ later.userSorts := by
  cases step with
  | declareSort name =>
    exact fun _ member => Table.mem_names_insert.mpr (.inr member)
  | defineSort name sortAlias _ => exact fun _ member => member
  | declare declaration _ _ _ _ => exact fun _ member => member

theorem sameSignature_iff {left right : Declaration} :
    left.sameSignature right = true ↔
      left.arguments = right.arguments ∧ left.result = right.result := by
  simp [Declaration.sameSignature]

/-- A symbol keeps its signature. -/
theorem Step.signature {declaration : Declaration} (step : Step symbols later)
    (found : symbols.lookup? name = some declaration) :
    ∃ other, later.lookup? name = some other ∧
      other.arguments = declaration.arguments ∧
      other.result = declaration.result := by
  cases step with
  | declareSort _ => exact ⟨declaration, found, rfl, rfl⟩
  | defineSort _ _ _ => exact ⟨declaration, found, rfl, rfl⟩
  | declare other _ _ _ same =>
      rw [lookup?_declare]
      by_cases sameName : other.name = name
      · subst sameName
        obtain ⟨arguments, result⟩ :=
          sameSignature_iff.mp (same declaration found)
        exact ⟨other, if_pos rfl, arguments.symm, result.symm⟩
      · exact ⟨declaration, by rw [if_neg sameName, found], rfl, rfl⟩

/-- Commands keep the symbol table well formed. -/
theorem Step.wellFormed (step : Step symbols later)
    (wellFormed : symbols.WellFormed) :
    later.WellFormed := by
  have subset := step.userSorts_subset
  cases step with
  | declareSort sortName =>
      have aliases : (symbols.declareSort sortName 0).GroundAliases := by
        intro name sortAlias found
        apply (wellFormed.aliases name sortAlias found).mono
        exact List.append_subset.mpr ⟨List.subset_append_left _ _,
          fun _ member => List.mem_append_right _ (subset member)⟩
      exact ⟨aliases, wellFormed.names, wellFormed.unreserved,
        fun name declaration found argument member =>
          (wellFormed.arguments name declaration found argument member).mono
            subset,
        fun name declaration found =>
          (wellFormed.results name declaration found).mono subset⟩
  | defineSort aliasName sortAlias ground =>
      have aliases :
          (symbols.defineSort aliasName sortAlias).GroundAliases := by
        intro name other found
        rw [SymbolTable.defineSort, Table.find?_insert] at found
        split at found
        · obtain rfl := Option.some.inj found
          exact ground
        · exact wellFormed.aliases name other found
      exact ⟨aliases, wellFormed.names, wellFormed.unreserved,
        wellFormed.arguments, wellFormed.results⟩
  | declare declaration unreserved arguments result same =>
      refine ⟨wellFormed.aliases, ?_, ?_, ?_, ?_⟩
      · intro name other found
        rw [lookup?_declare] at found
        split at found
        · next sameName =>
          obtain rfl := Option.some.inj found
          exact sameName
        · exact wellFormed.names name other found
      · intro name member
        rcases Table.mem_names_insert.mp member with rfl | earlier
        · exact unreserved
        · exact wellFormed.unreserved name earlier
      · intro name other found
        rw [lookup?_declare] at found
        split at found
        · obtain rfl := Option.some.inj found
          exact arguments
        · exact wellFormed.arguments name other found
      · intro name other found
        rw [lookup?_declare] at found
        split at found
        · obtain rfl := Option.some.inj found
          exact result
        · exact wellFormed.results name other found

namespace Grows

theorem wellFormed (grown : symbols.Grows later)
    (wellFormed : symbols.WellFormed) :
    later.WellFormed := by
  induction grown with
  | refl => exact wellFormed
  | tail _ step inductionHypothesis => exact step.wellFormed inductionHypothesis

theorem userSorts_subset (grown : symbols.Grows later) :
    symbols.userSorts ⊆ later.userSorts := by
  induction grown with
  | refl => exact fun _ member => member
  | tail _ step inductionHypothesis =>
      exact fun _ member => step.userSorts_subset (inductionHypothesis member)

/-- No table lists a symbol twice. -/
theorem nodup_names (grown : symbols.Grows later)
    (nodup : symbols.declarations.names.Nodup) :
    later.declarations.names.Nodup := by
  induction grown with
  | refl => exact nodup
  | tail _ step inductionHypothesis =>
      cases step with
      | declareSort _ => exact inductionHypothesis
      | defineSort _ _ _ => exact inductionHypothesis
      | declare declaration _ _ _ _ =>
        exact Table.nodup_names_insert inductionHypothesis _ _

theorem signature {declaration : Declaration} (grown : symbols.Grows later)
    (found : symbols.lookup? name = some declaration) :
    ∃ other, later.lookup? name = some other ∧
      other.arguments = declaration.arguments ∧
      other.result = declaration.result := by
  induction grown with
  | refl => exact ⟨declaration, found, rfl, rfl⟩
  | tail _ step inductionHypothesis =>
      obtain ⟨middle, middleFound, middleArguments, middleResult⟩ :=
        inductionHypothesis
      obtain ⟨other, otherFound, arguments, result⟩ :=
        step.signature middleFound
      exact ⟨other, otherFound, arguments.trans middleArguments,
        result.trans middleResult⟩

end Grows

end SymbolTable

/-! ## Commands -/

namespace Command

open SymbolTable

variable {symbols later : SymbolTable} {command : Command}
  {declaration : Declaration}

theorem DeclaresSymbol.step {nameExpression : SExpr} {arguments : List SmtSort}
    {result : SmtSort} {kind : DeclarationKind}
    (declares : DeclaresSymbol symbols nameExpression arguments result kind
      declaration later)
    (groundArguments : ∀ argument ∈ arguments,
      argument.Ground symbols.userSorts)
    (groundResult : result.Ground symbols.userSorts) : Step symbols later := by
  obtain ⟨rfl, _, unreserved, rfl, rfl, _, same⟩ := declares
  exact .declare declaration unreserved groundArguments groundResult same

theorem step_of_declareSort
    (declared : command.declareSort symbols = .ok later) :
    Step symbols later := by
  obtain ⟨name, _, rfl, _⟩ := declareSort_eq_ok declared
  exact .declareSort name

theorem step_of_defineSort (wellFormed : symbols.WellFormed)
    (defined : command.defineSort symbols = .ok later) :
    Step symbols later := by
  obtain ⟨name, params, _, body, parts, rfl⟩ := defineSort_eq_ok defined
  exact .defineSort name ⟨params, body⟩
    (readSort_ground wellFormed.aliases _ _ parts.read)

/-- What is known of a declaration that was read. -/
structure Declares (symbols : SymbolTable) (declaration : Declaration)
    (later : SymbolTable) :
    Prop where
  step : Step symbols later
  table : later = symbols.declare declaration
  kind : declaration.kind = .declared

theorem declares_of_declaration? (wellFormed : symbols.WellFormed)
    (declared : command.declaration? symbols =
      some (.ok (declaration, later))) :
    Declares symbols declaration later ∧
    command.Introduces declaration.name := by
  obtain ⟨_, _, _, parts⟩ := exists_declarationParts declared
  have step :=
    parts.declares.step (readSorts_closed wellFormed.aliases parts.arguments)
      (readSort_closed wellFormed.aliases parts.result)
  exact ⟨⟨step, parts.declares.table, parts.declares.kind⟩, parts.introduces⟩

theorem functionHeader_ground {header : FunctionHeader}
    (wellFormed : symbols.WellFormed)
    (read : functionHeader symbols command = .ok header) :
    (∀ param ∈ header.params, param.snd.Ground symbols.userSorts) ∧
      header.result.Ground symbols.userSorts := by
  obtain ⟨_, _, parts⟩ := exists_headerParts read
  exact ⟨readSortedNames_ground wellFormed.aliases parts.params,
    readSort_closed wellFormed.aliases parts.result⟩

theorem FunctionHeader.arguments_ground {header : FunctionHeader}
    {names : List Text}
    (ground : ∀ param ∈ header.params, param.snd.Ground names) :
    ∀ argument ∈ header.arguments, argument.Ground names := by
  intro argument member
  obtain ⟨param, inside, rfl⟩ := List.mem_map.mp member
  exact ground param inside

theorem step_of_registerFunction (wellFormed : symbols.WellFormed)
    (registered : command.registerFunction symbols = .ok later) :
    Step symbols later ∧
    ∃ declaration, later = symbols.declare declaration := by
  obtain ⟨header, declaration, read, declares⟩ :=
    registerFunction_eq_ok_iff.mp registered
  obtain ⟨params, result⟩ := functionHeader_ground wellFormed read
  exact ⟨declares.step (FunctionHeader.arguments_ground params) result,
    declaration, declares.table⟩

/-- What is known of a definition that was read from the items of a command. -/
structure Defines (items : List SExpr) (symbols : SymbolTable)
    (definition : Definition) (later : SymbolTable) : Prop where
  step : Step symbols later
  table : later = symbols.declare definition.declaration
  kind : definition.declaration.kind = .defined
  arguments : definition.declaration.arguments = definition.params.map Prod.snd
  result : definition.declaration.result = definition.body.sort
  params : ∀ param ∈ definition.params, param.snd.Ground symbols.userSorts
  body : ∃ expression ∈ items,
    readTerm symbols (Scope.enter [] definition.params) expression =
      .ok definition.body

theorem defines_of_defineFunction {definition : Definition}
    (wellFormed : symbols.WellFormed)
    (defined : command.defineFunction symbols = .ok (definition, later)) :
    Defines command.items symbols definition later ∧
    command.Introduces definition.name := by
  obtain ⟨header, parts⟩ := exists_parts defined
  obtain ⟨params, result⟩ := functionHeader_ground wellFormed parts.read
  obtain ⟨_, _, _, items⟩ := items_of_functionHeader parts.read
  have declares := parts.declares
  refine ⟨⟨declares.step (FunctionHeader.arguments_ground params) result,
    declares.table, declares.kind, ?_,
    declares.result.trans parts.sameSort.symm, ?_, header.bodyExpression, by
      simp [items], ?_⟩, parts.introduces⟩
  · rw [declares.arguments, parts.params, FunctionHeader.arguments]
  · rw [parts.params]
    exact params
  · rw [parts.params]
    exact parts.body

end Command

/-! ## Sessions -/

namespace Session

open SymbolTable

/-- A run without fault goes on from where its first step leads. -/
theorem runAll_cons_eq_none_iff {State : Type}
    {step : State → SExpr → Except Fault State} {state final : State}
    {expression : SExpr} {expressions : List SExpr} :
    runAll step state (expression :: expressions) = (none, final) ↔
      ∃ next, step state expression = .ok next ∧
        runAll step next expressions = (none, final) := by
  rw [runAll]
  cases step state expression with
  | error fault => simp
  | ok next => simp

/-- Whatever holds at the start and after each step holds at the end, also after
a fault. -/
theorem runAll_induction {State : Type} (holds : State → Prop)
    (step : State → SExpr → Except Fault State) {expressions : List SExpr}
    (preserved : ∀ state, ∀ expression ∈ expressions, ∀ next, holds state →
      step state expression = .ok next → holds next)
    {state : State} (start : holds state) :
    holds (runAll step state expressions).snd := by
  induction expressions generalizing state with
  | nil => exact start
  | cons expression expressions inductionHypothesis =>
      rw [runAll]
      cases stepped : step state expression with
      | error fault => exact start
      | ok next =>
          refine inductionHypothesis ?_
            (preserved state expression (by simp) next start stepped)
          exact fun state later member =>
            preserved state later (List.mem_cons_of_mem _ member)

/-- What a command of a formula can do, given its items. -/
inductive FormulaStep (items : List SExpr) (progress : FormulaProgress) :
    FormulaProgress → Prop
  | ignore : FormulaStep items progress progress
  | assert (term : Term) (expression : SExpr) :
      expression ∈ items →
      readTerm progress.session.symbols [] expression = .ok term →
      term.sort = .bool →
      FormulaStep items progress ⟨progress.session,
        { progress.formula with
          assertions := progress.formula.assertions ++ [term] }⟩
  | define (definition : Definition) (symbols : SymbolTable) :
      Command.Defines items progress.session.symbols definition symbols →
      FormulaStep items progress ⟨{ progress.session with
          symbols, definitions :=
            progress.session.definitions.insert definition.name definition },
        { progress.formula with
          definitions := progress.formula.definitions ++ [definition] }⟩
  | introduce (symbols : SymbolTable) :
      Step progress.session.symbols symbols →
      FormulaStep items progress ⟨{ progress.session with symbols },
        progress.formula⟩

/-- An accepted command of a formula does one of these things. -/
theorem formulaStep_cases {progress next : FormulaProgress} {expression : SExpr}
    (wellFormed : progress.session.symbols.WellFormed)
    (stepped : formulaStep progress expression = .ok next) :
    ∃ command, Command.ofExpression expression = .ok command ∧
      FormulaStep command.items progress next := by
  obtain ⟨command, isCommand, effect⟩ := exists_formulaEffect stepped
  refine ⟨command, isCommand, ?_⟩
  cases effect with
  | ignored _ => exact .ignore
  | @asserted term _ read =>
      obtain ⟨_, expression, items, termRead, sort⟩ :=
        Command.readAssertion_eq_ok read
      exact .assert term expression (by simp [items]) termRead sort
  | defined _ read =>
      exact .define _ _ (Command.defines_of_defineFunction wellFormed read).1
  | sortDeclared _ read => exact .introduce _ (Command.step_of_declareSort read)
  | sortDefined _ read =>
    exact .introduce _ (Command.step_of_defineSort wellFormed read)
  | declared read =>
    exact .introduce _ (Command.declares_of_declaration? wellFormed read).1.step

theorem registerStep_cases {session next : Session} {expression : SExpr}
    (wellFormed : session.symbols.WellFormed)
    (stepped : registerStep session expression = .ok next) :
    next = session ∨
      ∃ symbols, Step session.symbols symbols ∧
        next = { session with symbols } := by
  obtain ⟨command, _, ⟨_, symbols, registered, rfl⟩ | ⟨_, rfl⟩⟩ :=
    registerStep_eq_ok_iff.mp stepped
  · exact .inr
      ⟨symbols, (Command.step_of_registerFunction wellFormed registered).1, rfl⟩
  · exact .inl rfl

/-- What a command of a model can do, given its items. -/
inductive ModelStep (items : List SExpr) (progress : ModelProgress) :
    ModelProgress → Prop
  | repeat (definition : Definition) (symbols : SymbolTable) :
      Command.Defines items progress.session.symbols definition symbols →
      progress.session.definitions.find? definition.name = some definition →
      ModelStep items progress ⟨{ progress.session with symbols },
        progress.model⟩
  | define (definition : Definition) (symbols : SymbolTable) :
      Command.Defines items progress.session.symbols definition symbols →
      progress.session.definitions.find? definition.name = none →
      ModelStep items progress ⟨{ progress.session with symbols },
        { progress.model with
          definitions := progress.model.definitions ++ [definition] }⟩
  | introduce (symbols : SymbolTable) :
      Step progress.session.symbols symbols →
      ModelStep items progress ⟨{ progress.session with symbols },
        progress.model⟩
  | declare (declaration : Declaration) (symbols : SymbolTable) :
      Command.Declares progress.session.symbols declaration symbols →
      progress.session.definitions.find? declaration.name = none →
      ModelStep items progress ⟨{ progress.session with symbols },
        { progress.model with
          declarations := progress.model.declarations ++ [declaration] }⟩

/-- An accepted command of a model does one of these things. -/
theorem modelStep_cases {progress next : ModelProgress} {expression : SExpr}
    (wellFormed : progress.session.symbols.WellFormed)
    (stepped : modelStep progress expression = .ok next) :
    ∃ command, Command.ofExpression expression = .ok command ∧
      ModelStep command.items progress next := by
  obtain ⟨command, isCommand, effect⟩ := exists_modelEffect stepped
  refine ⟨command, isCommand, ?_⟩
  cases effect with
  | @defined definition symbols _ read same =>
      obtain ⟨defines, _, _, _, items, _⟩ :=
        Command.defines_of_defineFunction wellFormed read
      have unchanged := (requireSameDefinition_eq_ok_iff items).mp same
      cases earlier : progress.session.definitions.find? definition.name with
      | none =>
          simp only [Table.has, earlier, Option.isSome_none, Bool.false_eq_true,
            if_false]
          exact .define definition symbols defines earlier
      | some other =>
          simp only [Table.has, earlier, Option.isSome_some, if_true,
            List.append_nil]
          exact .repeat definition symbols defines
            (unchanged other earlier ▸ earlier)
  | sortDeclared _ read => exact .introduce _ (Command.step_of_declareSort read)
  | declared read undefined =>
      obtain ⟨declares, introduces⟩ :=
        Command.declares_of_declaration? wellFormed read
      exact .declare _ _ declares
        ((requireUndefined_eq_ok_iff introduces).mp undefined)

theorem FormulaStep.grows {items : List SExpr} {progress next : FormulaProgress}
    (step : FormulaStep items progress next) :
    progress.session.symbols.Grows next.session.symbols := by
  cases step with
  | ignore => exact .refl
  | assert _ _ _ _ _ => exact .refl
  | define _ _ defines => exact .single defines.step
  | introduce _ step => exact .single step

theorem ModelStep.grows {items : List SExpr} {progress next : ModelProgress}
    (step : ModelStep items progress next) :
    progress.session.symbols.Grows next.session.symbols := by
  cases step with
  | «repeat» _ _ defines _ => exact .single defines.step
  | define _ _ defines _ => exact .single defines.step
  | introduce _ step => exact .single step
  | declare _ _ declares _ => exact .single declares.step

/-- Registering functions only adds to the symbol table. -/
theorem registerAll_grows {session : Session}
    (wellFormed : session.symbols.WellFormed) (expressions : List SExpr) :
    session.symbols.Grows
        (runAll registerStep session expressions).snd.symbols ∧
      (runAll registerStep session expressions).snd.definitions =
        session.definitions := by
  apply runAll_induction fun reached : Session =>
    session.symbols.Grows reached.symbols ∧
      reached.definitions = session.definitions
  · intro state expression _ next reached stepped
    rcases registerStep_cases (reached.1.wellFormed wellFormed) stepped with
      rfl | ⟨symbols, step, rfl⟩
    · exact reached
    · exact ⟨reached.1.tail step, reached.2⟩
  · exact ⟨.refl, rfl⟩

end Session

end ModelAudit
