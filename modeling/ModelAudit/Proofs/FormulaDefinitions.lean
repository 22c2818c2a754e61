import ModelAudit.Proofs.SettledPair

/-!
# A model keeps the definitions of the formula

What the formula defines stays as its last definition has it, whatever model is
read after it. A model may repeat this definition. It is rejected as soon as
reading comes to a command that declares the name or defines it in another way.
-/

namespace ModelAudit

open SymbolTable

namespace SExpr

/-- Whether the expression is a command with this leading symbol for the
name. -/
def introduces (head name : Text) : SExpr → Bool
  | .list (headExpression :: nameExpression :: _) _ =>
    headExpression.isSymbol head && nameExpression.isSymbol name
  | _ => false

/-- Whether the expression declares the name as a function or as a constant. -/
def declares (name : Text) (expression : SExpr) : Bool :=
  expression.introduces "declare-fun" name || expression.introduces
    "declare-const" name

/-- The expression reads as the definition over the symbols. -/
def ReadsAs (symbols : SymbolTable) (expression : SExpr)
    (definition : Definition) : Prop :=
  ∃ command later, Command.ofExpression expression = .ok command ∧
    command.head = ("define-fun" : Text) ∧
    command.defineFunction symbols = .ok (definition, later)

/-- The expression defines the name of the definition with another signature. -/
def Resigns (symbols : SymbolTable) (last : Definition)
    (expression : SExpr) : Prop :=
  ∃ command header, Command.ofExpression expression = .ok command ∧
    command.head = ("define-fun" : Text) ∧
    Command.functionHeader symbols command = .ok header ∧
    header.nameExpression.symbol? = some last.name ∧
    ¬(header.arguments = last.declaration.arguments ∧
      header.result = last.declaration.result)

/-- The expression declares the name of the definition or defines it
otherwise. -/
inductive Contradicts (symbols : SymbolTable) (last : Definition)
    (expression : SExpr) : Prop
  | declares : expression.declares last.name = true →
      Contradicts symbols last expression
  | defines (definition : Definition) : expression.ReadsAs symbols definition →
      definition.name = last.name → definition ≠ last →
      Contradicts symbols last expression

theorem ofExpression_of_introduces {head name : Text} {expression : SExpr}
    (introduces : expression.introduces head name = true) :
    ∃ first nameExpression rest, Command.ofExpression expression =
        .ok ⟨head, first :: nameExpression :: rest, expression⟩ ∧
      nameExpression.symbol? = some name := by
  unfold SExpr.introduces at introduces
  split at introduces
  · next first nameExpression rest position =>
    obtain ⟨isHead, isName⟩ := Bool.and_eq_true_iff.mp introduces
    have headSymbol : first.symbol? = some head := by
      simpa [isSymbol] using isHead
    have nameSymbol : nameExpression.symbol? = some name := by
      simpa [isSymbol] using isName
    refine ⟨first, nameExpression, rest, ?_, nameSymbol⟩
    simp [Command.ofExpression, headSymbol?, headSymbol]
  · cases introduces

end SExpr

namespace Session

variable {formula : Formula} {session : Session} {last : Definition}
  {expression : SExpr}

theorem HoldsCommands.unique {output : Text} {commands others : List SExpr}
    (holds : HoldsCommands output commands)
    (othersHold : HoldsCommands output others) :
    commands = others := by
  obtain ⟨text, expressions, textRead, expressionsRead, rfl⟩ := holds
  obtain ⟨otherText, otherExpressions, otherTextRead, otherRead, rfl⟩ :=
    othersHold
  obtain rfl := Except.ok.inj (textRead.symm.trans otherTextRead)
  rw [Except.ok.inj (expressionsRead.symm.trans otherRead)]

/-! ## Runs -/

section Runs

variable {State : Type} {step : State → SExpr → Except Fault State}
  {state reached final : State} {before after : List SExpr}

theorem runAll_append (run : runAll step state before = (none, reached)) :
    runAll step state (before ++ after) = runAll step reached after := by
  induction before generalizing state with
  | nil =>
      obtain ⟨-, rfl⟩ := Prod.mk.inj run
      rfl
  | cons first others inductionHypothesis =>
      obtain ⟨next, stepped, runLater⟩ := runAll_cons_eq_none_iff.mp run
      rw [List.cons_append, runAll, stepped]
      exact inductionHypothesis runLater

/-- Commands in a row are accepted if and only if the first ones are, and the
others after them. -/
theorem runAll_append_eq_none_iff :
    runAll step state (before ++ after) = (none, final) ↔
      ∃ reached, runAll step state before = (none, reached) ∧
        runAll step reached after = (none, final) := by
  constructor
  · intro run
    induction before generalizing state with
    | nil => exact ⟨state, rfl, run⟩
    | cons expression expressions inductionHypothesis =>
        obtain ⟨next, stepped, runLater⟩ := runAll_cons_eq_none_iff.mp run
        obtain ⟨reached, front, back⟩ := inductionHypothesis runLater
        exact ⟨reached, runAll_cons_eq_none_iff.mpr ⟨next, stepped, front⟩,
          back⟩
  · rintro ⟨reached, run, rest⟩
    rw [runAll_append run, rest]

theorem runAll_fault {fault : Fault}
    (run : runAll step state before = (none, reached))
    (faulty : step reached expression = .error fault) :
    runAll step state (before ++ expression :: after) =
      (some fault, reached) := by
  rw [runAll_append run, runAll, faulty]

theorem exists_step_of_runAll
    (run : runAll step state (before ++ expression :: after) = (none, final)) :
    ∃ reached next, runAll step state before = (none, reached) ∧
      step reached expression = .ok next := by
  obtain ⟨reached, front, rest⟩ := runAll_append_eq_none_iff.mp run
  obtain ⟨next, stepped, _⟩ := runAll_cons_eq_none_iff.mp rest
  exact ⟨reached, next, front, stepped⟩

end Runs

/-- Registering the functions of a model comes to a command. -/
def ComesToRegister (session : Session) (commands : List SExpr)
    (expression : SExpr) (reached : Session) : Prop :=
  ∃ before after, commands = before ++ expression :: after ∧
    runAll registerStep session before = (none, reached)

/-- All functions have been registered, and reading the model comes to a
command. -/
def ComesToRead (session : Session) (commands : List SExpr) (expression : SExpr)
    (reached : ModelProgress) : Prop :=
  ∃ before after registered, commands = before ++ expression :: after ∧
    runAll registerStep session commands = (none, registered) ∧
    runAll modelStep ⟨registered, ⟨[], []⟩⟩ before = (none, reached)

theorem ComesToRegister.settled {commands : List SExpr} {reached : Session}
    (comes : session.ComesToRegister commands expression reached)
    (settled : FormulaProgress.Settled ⟨session, formula⟩) :
    ModelProgress.Settled formula ⟨reached, ⟨[], []⟩⟩ := by
  obtain ⟨before, after, _, run⟩ := comes
  have here := registered_settled settled before
  rwa [run] at here

theorem ComesToRead.settled {commands : List SExpr} {reached : ModelProgress}
    (comes : session.ComesToRead commands expression reached)
    (spelled : ∀ command ∈ commands, command.Everywhere Atom.Spelled)
    (settled : FormulaProgress.Settled ⟨session, formula⟩) :
    reached.Settled formula := by
  obtain ⟨before, after, registered, rfl, registering, run⟩ := comes
  have start := registered_settled settled (before ++ expression :: after)
  rw [registering] at start
  have here := runAll_modelStep_settled
    (fun command inside => spelled command (List.mem_append_left _ inside))
    start
  rwa [run] at here

theorem readModel_of_registerStep {output : Text} {commands : List SExpr}
    {reached : Session} {fault : Fault} (ready : session.formulaRead = true)
    (holds : HoldsCommands output commands)
    (comes : session.ComesToRegister commands expression reached)
    (faulty : registerStep reached expression = .error fault) :
    (session.readModel output).fst = .error fault := by
  obtain ⟨text, expressions, textRead, expressionsRead, unwrapped⟩ := holds
  obtain ⟨before, after, split, run⟩ := comes
  have stopped :
      runAll registerStep session (unwrapModel expressions) =
        (some fault, reached) := by
    rw [← unwrapped, split]
    exact runAll_fault run faulty
  simp only [readModel, ready, if_true, textRead, expressionsRead, stopped]

theorem readModel_of_modelStep {output : Text} {commands : List SExpr}
    {reached : ModelProgress} {fault : Fault}
    (ready : session.formulaRead = true) (holds : HoldsCommands output commands)
    (comes : session.ComesToRead commands expression reached)
    (faulty : modelStep reached expression = .error fault) :
    (session.readModel output).fst = .error fault := by
  obtain ⟨text, expressions, textRead, expressionsRead, unwrapped⟩ := holds
  obtain ⟨before, after, registered, split, registering, run⟩ := comes
  have stopped :
      runAll modelStep ⟨registered, ⟨[], []⟩⟩ (unwrapModel expressions) =
      (some fault, reached) := by
    rw [← unwrapped, split]
    exact runAll_fault run faulty
  rw [unwrapped] at registering
  simp only [readModel, ready, if_true, textRead, expressionsRead, registering,
    stopped]

/-! ## Steps -/

/-- A definition with another signature is refused when functions are
declared. -/
theorem registerStep_of_resigns (wellFormed : session.symbols.WellFormed)
    (declared : session.symbols.HasSignature last.name
      last.declaration.arguments last.declaration.result)
    (resigns : expression.Resigns session.symbols last) :
    ∃ earlier later place,
      registerStep session expression =
        .error (.mismatch (.redeclared earlier later) place) := by
  obtain ⟨command, header, isCommand, head, headerRead, named, different⟩ :=
    resigns
  obtain ⟨earlier, found, arguments, result⟩ := declared
  have unreserved := wellFormed.isBuiltinName_eq_false found
  have other :
      earlier.sameSignature ⟨last.name, header.arguments, header.result,
        .defined⟩ =
      false := by
    rw [← Bool.not_eq_true, sameSignature_iff, arguments, result]
    exact fun same => different ⟨same.1.symm, same.2.symm⟩
  have refused :
      Command.declareSymbol session.symbols header.nameExpression
        header.arguments
      header.result .defined =
        mismatch (.redeclared earlier ⟨last.name, header.arguments,
          header.result, .defined⟩)
          header.nameExpression := by
    simp [Command.declareSymbol, readSymbol, named, unreserved, found,
      Option.filter, other]
  refine ⟨earlier, ⟨last.name, header.arguments, header.result, .defined⟩,
    header.nameExpression.place, ?_⟩
  simp [registerStep, isCommand, head, Command.registerFunction, headerRead,
    refused, mismatch]

/-- A command that contradicts the definition is refused where the model comes
to it. -/
theorem modelStep_of_contradicts {progress : ModelProgress}
    (wellFormed : progress.session.symbols.WellFormed)
    (recorded : progress.session.definitions.find? last.name = some last)
    (contradicts : expression.Contradicts progress.session.symbols last) :
    ∃ cause place, modelStep progress expression =
      .error (.conflict cause place) := by
  have known : progress.session.definitions.has last.name = true := by
    rw [Table.has, recorded, Option.isSome_some]
  cases contradicts with
  | declares declares =>
      have conflict {head : Text} (differs : head ≠ "define-fun" ∧
          head ≠ "declare-sort")
          (declaration : ∀ items, (Command.declaration? progress.session.symbols
            ⟨head, items, expression⟩).isSome)
          (introduces : expression.introduces head last.name = true) :
          ∃ cause place, modelStep progress expression =
            .error (.conflict cause place) := by
        obtain ⟨first, nameExpression, rest, isCommand, named⟩ :=
          SExpr.ofExpression_of_introduces introduces
        obtain ⟨declared, isDeclaration⟩ :=
          Option.isSome_iff_exists.mp
            (declaration (first :: nameExpression :: rest))
        refine ⟨.declares last.name, nameExpression.place, ?_⟩
        simp [modelStep, isCommand, differs.1, differs.2, isDeclaration,
          requireUndefined, named, Option.filter, known]
      rcases Bool.or_eq_true_iff.mp declares with function | constant
      · exact conflict (by decide +kernel)
          (fun items => by simp [Command.declaration?]) function
      · exact conflict (by decide +kernel)
          (fun items => by
            have other : ("declare-const" : Text) ≠ "declare-fun" := by
              decide +kernel
            simp [Command.declaration?, other]) constant
  | defines definition readsAs named different =>
      obtain ⟨command, later, isCommand, head, defined⟩ := readsAs
      obtain ⟨_, first, nameExpression, rest, items, _⟩ :=
        Command.defines_of_defineFunction wellFormed defined
      rw [← named] at recorded
      refine ⟨.redefines definition.name, nameExpression.place, ?_⟩
      simp [modelStep, isCommand, head, defined, requireSameDefinition, items,
        recorded, Ne.symm different]

/-- A command that is accepted as a definition of the name reads as a definition
of it. -/
theorem readsAs_of_modelStep {progress next : ModelProgress} {name : Text}
    (wellFormed : progress.session.symbols.WellFormed)
    (stepped : modelStep progress expression = .ok next)
    (introduces : expression.introduces "define-fun" name = true) :
    ∃ definition : Definition, definition.name = name ∧
      expression.ReadsAs progress.session.symbols definition := by
  obtain ⟨first, nameExpression, rest, isCommand, named⟩ :=
    SExpr.ofExpression_of_introduces introduces
  obtain ⟨command, read, effect⟩ := exists_modelEffect stepped
  obtain rfl := Except.ok.inj (isCommand.symm.trans read)
  obtain ⟨definition, later, defined, _, _⟩ := effect.of_definition rfl
  obtain ⟨_, _, otherExpression, _, items, otherNamed⟩ :=
    Command.defines_of_defineFunction wellFormed defined
  obtain ⟨rfl, rfl, rfl⟩ : first = _ ∧ nameExpression = otherExpression ∧
      rest = _ := by
    simpa using items
  rw [named] at otherNamed
  exact ⟨definition, (Option.some.inj otherNamed).symm, _, later, isCommand,
    rfl, defined⟩

/-! ## Pairs -/

/-- In the pair the definition is the only one of its name, and no declaration
has it. -/
structure Pair.Keeps (pair : Pair) (last : Definition) : Prop where
  definitions :
      ∀ definition ∈ pair.model.definitions, definition.name ≠ last.name
  declarations :
      ∀ declaration ∈ pair.model.declarations, declaration.name ≠ last.name
  effective :
      ((effectiveDefinitions
        (pair.formula.definitions ++ pair.model.definitions)).filter
    fun definition => definition.name = last.name) = [last]

/-- A model that leaves the definition alone leaves it as the only one of its
name. -/
theorem Pair.keeps_of_respects {pair : Pair}
    (respects : pair.model.Respects pair.formula)
    (isLast : last.IsLastIn pair.formula.definitions) : pair.Keeps last := by
  have defined : last.name ∈ pair.formula.definitions.map Definition.name := by
    obtain ⟨before, after, split, _⟩ := isLast
    simp [split]
  have absent : last.name ∉ pair.model.definitions.map Definition.name := by
    intro member
    obtain ⟨definition, inside, same⟩ := List.mem_map.mp member
    exact respects.definitions definition inside (same ▸ defined)
  refine ⟨?_, ?_, ?_⟩
  · exact fun definition member same =>
      respects.definitions definition member (same ▸ defined)
  · exact fun declaration member same =>
      respects.declarations declaration member (same ▸ defined)
  · rw [filter_effectiveDefinitions, find?_definitionTable_append,
      find?_definitionTable_eq_none.mpr absent, Option.none_or, isLast.find?,
      Option.toList_some]

/-- The commands of a model that is read only repeat the definition. -/
theorem repeats_of_readModel {modelOutput : Text} {model : Model}
    {later : Session} {commands : List SExpr}
    (settled : FormulaProgress.Settled ⟨session, formula⟩)
    (isLast : last.IsLastIn formula.definitions)
    (read : session.readModel modelOutput = (.ok model, later))
    (holds : HoldsCommands modelOutput commands)
    (member : expression ∈ commands) :
    expression.declares last.name = false ∧
      (expression.introduces "define-fun" last.name = true →
        ∃ symbols, expression.ReadsAs symbols last) := by
  obtain ⟨others, registered, othersHold, registering, finished⟩ :=
    runs_of_readModel read
  obtain rfl := holds.unique othersHold
  obtain ⟨before, after, split⟩ := List.append_of_mem member
  rw [split] at finished
  obtain ⟨reached, next, run, stepped⟩ := exists_step_of_runAll finished
  have comes : session.ComesToRead commands expression reached :=
    ⟨before, after, registered, split, registering, run⟩
  have here := comes.settled holds.spelled settled
  have wellFormed := here.wellFormed
  have recorded : reached.session.definitions.find? last.name = some last := by
    rw [here.recorded, isLast.find?]
  have agrees : ¬expression.Contradicts reached.session.symbols last := by
    intro contradicts
    obtain ⟨cause, place, faulty⟩ :=
      modelStep_of_contradicts wellFormed recorded contradicts
    rw [stepped] at faulty
    cases faulty
  constructor
  · rw [← Bool.not_eq_true]
    exact fun declares => agrees (.declares declares)
  · intro introduces
    obtain ⟨definition, named, readsAs⟩ :=
      readsAs_of_modelStep wellFormed stepped introduces
    have same : definition = last := by
      by_contra different
      exact agrees (.defines definition readsAs named different)
    exact ⟨_, same ▸ readsAs⟩

theorem formulaRead_of_readFormula {formulaText : Text}
    (read : start.readFormula formulaText = (.ok formula, session)) :
    session.formulaRead = true := by
  unfold readFormula at read
  split at read
  · cases read
  · split at read
    · cases read
    · obtain ⟨_, rfl⟩ := Prod.mk.inj read
      rfl

/-- A fault in the model is a fault of the pair. -/
theorem readPair_of_readModel {formulaText modelOutput : Text} {fault : Fault}
    (read : start.readFormula formulaText = (.ok formula, session))
    (faulty : (session.readModel modelOutput).fst = .error fault) :
    readPair formulaText modelOutput = .error fault := by
  unfold readPair
  rw [read]
  dsimp only
  split
  · next other _ reading =>
    rw [reading] at faulty
    rw [Except.error.inj faulty]
  · next reading =>
    rw [reading] at faulty
    cases faulty

/-- Of each name that a formula defines the last definition stays in effect, and
the commands of a model may only repeat it. Reading stops with a mismatch when
it comes to another signature of the name, and with a conflict when it comes to
a declaration or another definition. -/
theorem formula_definition_kept {formulaText : Text}
    (read : start.readFormula formulaText = (.ok formula, session))
    {name : Text}
    (defined : name ∈ formula.definitions.map Definition.name) :
    ∃ last : Definition, last.IsLastIn formula.definitions ∧ last.name = name ∧
      (∀ modelOutput pair, readPair formulaText modelOutput = .ok pair →
        pair.formula = formula ∧ pair.Keeps last ∧
          ∀ commands, HoldsCommands modelOutput commands →
            ∀ expression ∈ commands,
            expression.declares name = false ∧
              (expression.introduces "define-fun" name = true →
                ∃ symbols, expression.ReadsAs symbols last)) ∧
      ∀ modelOutput commands expression, HoldsCommands modelOutput commands →
        (∀ reached, session.ComesToRegister commands expression reached →
          expression.Resigns reached.symbols last →
          ∃ cause place, readPair formulaText modelOutput =
            .error (.mismatch cause place)) ∧
        ∀ reached, session.ComesToRead commands expression reached →
          expression.Contradicts reached.session.symbols last →
          ∃ cause place, readPair formulaText modelOutput =
            .error (.conflict cause place) := by
  obtain ⟨last, isLast, rfl⟩ := exists_isLastIn defined
  have settled := readFormula_settled read
  have ready := formulaRead_of_readFormula read
  refine ⟨last, isLast, rfl, ?_, ?_⟩
  · intro modelOutput pair pairRead
    have respects := (readPair_settled pairRead).respects
    unfold readPair at pairRead
    rw [read] at pairRead
    dsimp only at pairRead
    split at pairRead
    · cases pairRead
    · next model later modelRead =>
      obtain rfl := Except.ok.inj pairRead
      exact ⟨rfl, Pair.keeps_of_respects respects isLast,
        fun commands holds expression member =>
        repeats_of_readModel settled isLast modelRead holds member⟩
  · intro modelOutput commands expression holds
    constructor
    · intro reached comes resigns
      have here := comes.settled settled
      have wellFormed := here.wellFormed
      obtain ⟨member, _⟩ := definition_of_find? isLast.find?
      have declared := (here.formula.definitions last member).declared
      obtain ⟨earlier, later, place, faulty⟩ :=
        registerStep_of_resigns wellFormed declared resigns
      exact ⟨_, place,
        readPair_of_readModel read
          (readModel_of_registerStep ready holds comes faulty)⟩
    · intro reached comes contradicts
      have here := comes.settled holds.spelled settled
      have wellFormed := here.wellFormed
      have recorded :
          reached.session.definitions.find? last.name = some last := by
        rw [here.recorded, isLast.find?]
      obtain ⟨cause, place, faulty⟩ :=
        modelStep_of_contradicts wellFormed recorded contradicts
      exact ⟨cause, place,
        readPair_of_readModel read
          (readModel_of_modelStep ready holds comes faulty)⟩

/-! ## One definition -/

theorem exists_holdsCommands (output : Text) (test : List SExpr → Bool)
    (passed : ((SolverOutput.modelText output).toOption.bind fun text =>
      (readExpressions text).toOption.map fun expressions =>
        test (unwrapModel expressions)) =
        some true) :
    ∃ commands, HoldsCommands output commands ∧ test commands = true := by
  obtain ⟨text, textRead, passed⟩ := Option.bind_eq_some_iff.mp passed
  obtain ⟨expressions, read, passed⟩ := Option.map_eq_some_iff.mp passed
  exact ⟨_, ⟨text, expressions, Outcome.toOption_eq_some_iff.mp textRead,
    Outcome.toOption_eq_some_iff.mp read, rfl⟩, passed⟩

def oneDefined : Formula where
  assertions :=
    [.application (.operator .equality) [] [.symbol "n" .int,
      .literal (.integer 1)] .bool]
  definitions := [⟨⟨"n", [], .int, .defined⟩, [], .literal (.integer 1)⟩]

def afterOneDefined : Session :=
  (start.readFormula "(define-fun n () Int 1)(assert (= n 1))").snd

/-- A model that repeats the definition is read, and models that declare the
constant or give it another sort are not. -/
theorem oneDefined_kept :
    ∃ last : Definition, last.IsLastIn oneDefined.definitions ∧
      last.name = ("n" : Text) ∧
      (readPair "(define-fun n () Int 1)(assert (= n 1))"
        "(declare-const m Int)(define-fun n () Int 1)").isOk = true ∧
      (∀ modelOutput pair,
        readPair "(define-fun n () Int 1)(assert (= n 1))" modelOutput =
            .ok pair →
          pair.formula = oneDefined ∧ pair.Keeps last) ∧
      (∃ cause place,
        readPair "(define-fun n () Int 1)(assert (= n 1))"
          "(declare-const n Int)" =
        .error (.conflict cause place)) ∧
      ∃ cause place, readPair "(define-fun n () Int 1)(assert (= n 1))"
        "(define-fun n () Bool true)" = .error (.mismatch cause place) := by
  have formulaRead :
      (start.readFormula "(define-fun n () Int 1)(assert (= n 1))").fst =
      .ok oneDefined :=
    Outcome.toOption_eq_some_iff.mp (by decide +kernel)
  have read : start.readFormula "(define-fun n () Int 1)(assert (= n 1))" =
      (.ok oneDefined, afterOneDefined) :=
    Prod.ext formulaRead rfl
  have defined : ("n" : Text) ∈ oneDefined.definitions.map Definition.name := by
    decide +kernel
  obtain ⟨last, isLast, named, kept, stops⟩ :=
    formula_definition_kept read defined
  refine ⟨last, isLast, named, by decide +kernel, ?_, ?_, ?_⟩
  · intro modelOutput pair pairRead
    obtain ⟨sameFormula, keeps, _⟩ := kept modelOutput pair pairRead
    exact ⟨sameFormula, keeps⟩
  · obtain ⟨commands, holds, passed⟩ :=
      exists_holdsCommands "(declare-const n Int)"
        (fun commands => match commands with
          | command :: _ => command.declares "n" &&
            (runAll registerStep afterOneDefined commands).fst.isNone
          | [] => false) (by decide +kernel)
    split at passed
    · next command others =>
      obtain ⟨declares, registered⟩ := Bool.and_eq_true_iff.mp passed
      have registering :
          runAll registerStep afterOneDefined (command :: others) =
          (none, (runAll registerStep afterOneDefined
            (command :: others)).snd) :=
        Prod.ext (Option.isNone_iff_eq_none.mp registered) rfl
      exact (stops _ _ command holds).2 _ ⟨[], others, _, rfl, registering, rfl⟩
        (.declares (named ▸ declares))
    · cases passed
  · obtain ⟨commands, holds, passed⟩ :=
      exists_holdsCommands "(define-fun n () Bool true)"
        (fun commands => match commands with
          | expression :: _ =>
            ((Command.ofExpression expression).toOption.bind fun command =>
              (Command.functionHeader afterOneDefined.symbols
                command).toOption.map fun header =>
                command.head = ("define-fun" : Text) &&
                  header.nameExpression.symbol? =
                    some ("n" : Text) && header.result = .bool) =
              some true
          | [] => false) (by decide +kernel)
    split at passed
    · next expression others =>
      obtain ⟨command, isCommand, passed⟩ :=
        Option.bind_eq_some_iff.mp (of_decide_eq_true passed)
      obtain ⟨header, headerRead, passed⟩ := Option.map_eq_some_iff.mp passed
      simp only [Bool.and_eq_true, decide_eq_true_eq] at passed
      obtain ⟨⟨head, symbol⟩, result⟩ := passed
      obtain ⟨member, _⟩ := definition_of_find? isLast.find?
      have isInt : last.declaration.result = .int := by
        rw [List.mem_singleton.mp member]
      refine (stops _ _ expression holds).1 _ ⟨[], others, rfl, rfl⟩
        ⟨command, header, Outcome.toOption_eq_some_iff.mp isCommand, head,
          Outcome.toOption_eq_some_iff.mp headerRead, named ▸ symbol,
          fun same => ?_⟩
      have bool := same.2
      rw [result, isInt] at bool
      exact absurd bool (by decide +kernel)
    · cases passed

/-- The model declares `n`, which the formula defines, but reading stops before
that command at an undeclared name. -/
theorem conflict_not_reached :
    (start.readFormula
      "(define-fun n () Int 1)(assert (= n 1))").fst.toOption.map
        (fun formula => formula.definitions.map Definition.name) =
          some (["n"] : List Text) ∧
      (∃ commands,
        HoldsCommands "(define-fun g () Int u)(declare-const n Int)" commands ∧
        ∃ expression ∈ commands, expression.declares "n" = true) ∧
      ∃ fault, readPair "(define-fun n () Int 1)(assert (= n 1))"
          "(define-fun g () Int u)(declare-const n Int)" = .error fault ∧
        fault.undeclaredName? = some ("u" : Text) ∧
        (∀ cause place, fault ≠ .conflict cause place) ∧
        ∀ cause place, fault ≠ .mismatch cause place := by
  refine ⟨by decide +kernel, ?_, ?_⟩
  · obtain ⟨commands, holds, declared⟩ :=
      exists_holdsCommands "(define-fun g () Int u)(declare-const n Int)"
        (fun commands => commands.any (SExpr.declares "n")) (by decide +kernel)
    exact ⟨commands, holds, List.any_eq_true.mp declared⟩
  · have undeclared : (match readPair "(define-fun n () Int 1)(assert (= n 1))"
        "(define-fun g () Int u)(declare-const n Int)" with
        | .error fault => fault.undeclaredName?
        | .ok _ => none) = some ("u" : Text) := by
      decide +kernel
    split at undeclared
    · next fault faulty =>
      refine ⟨fault, faulty, undeclared, ?_, ?_⟩
      · rintro cause place rfl
        cases undeclared
      · rintro cause place rfl
        cases undeclared
    · cases undeclared

end Session

end ModelAudit
