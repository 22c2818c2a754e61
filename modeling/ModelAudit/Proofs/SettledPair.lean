import ModelAudit.Proofs.DefinitionTable
import ModelAudit.Proofs.WellSorted

/-!
# What is settled about a pair

When a formula and a model have been read without fault, all terms are well
sorted over the final symbol table, all definitions and declarations have the
signatures that it has, and the model neither declares nor defines what the
formula defines.
-/

namespace ModelAudit

open SymbolTable

/-- A definition whose signature is declared and fits its parameters and its
body. -/
structure Definition.Settled (symbols : SymbolTable) (definition : Definition) :
    Prop where
  arguments : definition.declaration.arguments = definition.params.map Prod.snd
  declared : symbols.HasSignature definition.name
    definition.declaration.arguments definition.declaration.result
  params : ∀ param ∈ definition.params, param.snd.Ground symbols.userSorts
  written : definition.body.HasSort symbols Literal.Written
    (Scope.enter [] definition.params) definition.declaration.result

structure Formula.Settled (symbols : SymbolTable) (formula : Formula) :
    Prop where
  written : ∀ assertion ∈ formula.assertions,
      assertion.HasSort symbols Literal.Written [] .bool
  definitions : ∀ definition ∈ formula.definitions, definition.Settled symbols

structure Model.Settled (symbols : SymbolTable) (model : Model) : Prop where
  definitions : ∀ definition ∈ model.definitions, definition.Settled symbols
  declarations : ∀ declaration ∈ model.declarations,
    symbols.HasSignature declaration.name declaration.arguments
      declaration.result

/-- The model leaves alone what the formula defines. -/
structure Model.Respects (formula : Formula) (model : Model) : Prop where
  definitions : ∀ definition ∈ model.definitions,
    definition.name ∉ formula.definitions.map Definition.name
  declarations : ∀ declaration ∈ model.declarations,
    declaration.name ∉ formula.definitions.map Definition.name

structure Session.Pair.Settled (pair : Session.Pair) : Prop where
  reached : SymbolTable.empty.Grows pair.symbols
  formula : pair.formula.Settled pair.symbols
  model : pair.model.Settled pair.symbols
  respects : pair.model.Respects pair.formula

variable {symbols later : SymbolTable}

theorem Definition.Settled.typed {definition : Definition}
    (settled : definition.Settled symbols) :
    definition.body.HasSort symbols Literal.InRange
      (Scope.enter [] definition.params)
      definition.declaration.result :=
  settled.written.weaken fun _ => Literal.Written.inRange

theorem Formula.Settled.typed {formula : Formula}
    (settled : formula.Settled symbols) :
    ∀ assertion ∈ formula.assertions, assertion.HasSort symbols Literal.InRange
      [] .bool :=
  fun assertion member => (settled.written assertion member).weaken fun _ =>
    Literal.Written.inRange

theorem Definition.Settled.signature {definition : Definition}
    (settled : definition.Settled symbols) :
    symbols.HasSignature definition.name (definition.params.map Prod.snd)
      definition.body.sort := by
  rw [← settled.arguments, settled.typed.sort_eq]
  exact settled.declared

theorem Definition.Settled.body {definition : Definition}
    (settled : definition.Settled symbols) :
    definition.body.WellSorted symbols (Scope.enter [] definition.params) :=
  settled.typed.wellSorted

theorem Formula.Settled.assertions {formula : Formula}
    (settled : formula.Settled symbols) :
    ∀ assertion ∈ formula.assertions, assertion.WellSorted symbols [] :=
  fun assertion member => (settled.typed assertion member).wellSorted

theorem Session.Pair.Settled.wellFormed {pair : Session.Pair}
    (settled : pair.Settled) :
    pair.symbols.WellFormed :=
  settled.reached.wellFormed wellFormed_empty

theorem Session.Pair.Settled.definition {pair : Session.Pair}
    (settled : pair.Settled) :
    ∀ definition ∈ pair.formula.definitions ++ pair.model.definitions,
      definition.Settled pair.symbols :=
  List.forall_mem_append.mpr ⟨settled.formula.definitions,
    settled.model.definitions⟩

/-! ## Later tables -/

theorem Definition.Settled.grow {definition : Definition}
    (settled : definition.Settled symbols) (grown : symbols.Grows later) :
    definition.Settled later where
  arguments := settled.arguments
  declared := settled.declared.grow grown
  params param member :=
    (settled.params param member).mono grown.userSorts_subset
  written := settled.written.grow grown

theorem Formula.Settled.grow {formula : Formula}
    (settled : formula.Settled symbols) (grown : symbols.Grows later) :
    formula.Settled later where
  written assertion member := (settled.written assertion member).grow grown
  definitions definition member :=
    (settled.definitions definition member).grow grown

theorem Model.Settled.grow {model : Model} (settled : model.Settled symbols)
    (grown : symbols.Grows later) :
    model.Settled later where
  definitions definition member :=
    (settled.definitions definition member).grow grown
  declarations declaration member :=
    (settled.declarations declaration member).grow grown

theorem hasSignature_declare (symbols : SymbolTable)
    (declaration : Declaration) :
    (symbols.declare declaration).HasSignature declaration.name
      declaration.arguments
      declaration.result :=
  ⟨declaration, by rw [lookup?_declare, if_pos rfl], rfl, rfl⟩

theorem Command.everywhere_items {holds : Atom → Prop} {expression : SExpr}
    {command : Command}
    (isCommand : Command.ofExpression expression = .ok command)
    (everywhere : expression.Everywhere holds) :
    ∀ item ∈ command.items, item.Everywhere holds := by
  obtain ⟨position, rfl, _⟩ := headSymbol?_of_ofExpression isCommand
  exact everywhere.items

/-- A definition that was read is settled in the table that it leads to. -/
theorem Command.Defines.settled {items : List SExpr} {definition : Definition}
    (wellFormed : symbols.WellFormed)
    (spelled : ∀ item ∈ items, item.Everywhere Atom.Spelled)
    (defines : Command.Defines items symbols definition later) :
    definition.Settled later := by
  have grown : symbols.Grows later := .single defines.step
  obtain ⟨expression, member, read⟩ := defines.body
  have typed :=
    hasSort_of_readTerm wellFormed.aliases (spelled expression member) read
  refine ⟨defines.arguments, ?_,
    fun param member =>
      (defines.params param member).mono grown.userSorts_subset, ?_⟩
  · rw [defines.table]
    exact hasSignature_declare symbols definition.declaration
  · rw [defines.result]
    exact typed.grow grown

/-! ## Formulas -/

namespace Session

/-- What holds while a formula is read from the start. -/
structure FormulaProgress.Settled (progress : FormulaProgress) : Prop where
  reached : SymbolTable.empty.Grows progress.session.symbols
  formula : progress.formula.Settled progress.session.symbols
  recorded : progress.session.definitions =
      definitionTable progress.formula.definitions

theorem FormulaProgress.Settled.wellFormed {progress : FormulaProgress}
    (settled : progress.Settled) : progress.session.symbols.WellFormed :=
  settled.reached.wellFormed wellFormed_empty

/-- A command of a formula keeps its definitions and assertions settled. -/
theorem FormulaStep.settled {items : List SExpr}
    {progress next : FormulaProgress} (step : FormulaStep items progress next)
    (spelled : ∀ item ∈ items, item.Everywhere Atom.Spelled)
    (settled : progress.Settled) :
    next.Settled := by
  have wellFormed := settled.wellFormed
  have grown := step.grows
  cases step with
  | ignore => exact settled
  | assert term expression member read sort =>
      have typed :=
        hasSort_of_readTerm wellFormed.aliases (spelled expression member) read
      refine ⟨settled.reached, ⟨?_, settled.formula.definitions⟩,
        settled.recorded⟩
      intro assertion member
      rcases List.mem_append.mp member with earlier | new
      · exact settled.formula.written assertion earlier
      · obtain rfl := List.mem_singleton.mp new
        exact sort ▸ typed
  | define definition symbols defines =>
      refine ⟨settled.reached.trans grown,
        ⟨(settled.formula.grow grown).written, ?_⟩, ?_⟩
      · intro other member
        rcases List.mem_append.mp member with earlier | new
        · exact (settled.formula.grow grown).definitions other earlier
        · obtain rfl := List.mem_singleton.mp new
          exact defines.settled wellFormed spelled
      · rw [definitionTable_append_singleton, ← settled.recorded]
  | introduce symbols step =>
      exact ⟨settled.reached.trans grown, settled.formula.grow grown,
        settled.recorded⟩

/-- The session after a formula that is accepted is settled. -/
theorem readFormula_settled {text : Text} {formula : Formula}
    {session : Session}
    (read : start.readFormula text = (.ok formula, session)) :
    FormulaProgress.Settled ⟨session, formula⟩ := by
  unfold readFormula at read
  split at read
  · cases read
  · next expressions expressionsRead =>
    have spelled := everywhere_spelled_of_readExpressions expressionsRead
    have settled :
        (runAll formulaStep ⟨start, ⟨[], []⟩⟩ expressions).snd.Settled := by
      apply runAll_induction FormulaProgress.Settled
      · intro progress expression member next settled stepped
        obtain ⟨command, isCommand, step⟩ :=
          formulaStep_cases settled.wellFormed stepped
        exact step.settled
          (Command.everywhere_items isCommand (spelled expression member))
          settled
      · exact ⟨.refl, ⟨by simp, by simp⟩, rfl⟩
    split at read
    · cases read
    · next progress run =>
      rw [run] at settled
      obtain ⟨same, rfl⟩ := Prod.mk.inj read
      obtain rfl := Except.ok.inj same
      exact ⟨settled.reached, settled.formula, settled.recorded⟩

/-! ## Models -/

/-- What holds while a model is read after a formula. -/
structure ModelProgress.Settled (formula : Formula) (progress : ModelProgress) :
    Prop where
  reached : SymbolTable.empty.Grows progress.session.symbols
  recorded : progress.session.definitions = definitionTable formula.definitions
  respects : progress.model.Respects formula
  formula : formula.Settled progress.session.symbols
  model : progress.model.Settled progress.session.symbols

variable {formula : Formula}

theorem ModelProgress.Settled.wellFormed {progress : ModelProgress}
    (settled : progress.Settled formula) :
    progress.session.symbols.WellFormed :=
  settled.reached.wellFormed wellFormed_empty

/-- A command of a model keeps the model settled, and leaves alone what the
formula defines. -/
theorem ModelStep.settled {items : List SExpr} {progress next : ModelProgress}
    (step : ModelStep items progress next)
    (spelled : ∀ item ∈ items, item.Everywhere Atom.Spelled)
    (settled : progress.Settled formula) :
    next.Settled formula := by
  have wellFormed := settled.wellFormed
  have grown := step.grows
  have reached := settled.reached.trans grown
  have formulaLater := settled.formula.grow grown
  have modelLater := settled.model.grow grown
  cases step with
  | «repeat» definition symbols defines same =>
      exact ⟨reached, settled.recorded, settled.respects, formulaLater,
        modelLater⟩
  | define definition symbols defines unrecorded =>
      refine ⟨reached, settled.recorded, ⟨?_, settled.respects.declarations⟩,
        formulaLater, ⟨?_, modelLater.declarations⟩⟩
      · intro other member
        rcases List.mem_append.mp member with earlier | new
        · exact settled.respects.definitions other earlier
        · obtain rfl := List.mem_singleton.mp new
          rwa [settled.recorded, find?_definitionTable_eq_none] at unrecorded
      · intro other member
        rcases List.mem_append.mp member with earlier | new
        · exact modelLater.definitions other earlier
        · obtain rfl := List.mem_singleton.mp new
          exact defines.settled wellFormed spelled
  | introduce symbols step =>
      exact ⟨reached, settled.recorded, settled.respects, formulaLater,
        modelLater⟩
  | declare declaration symbols declares unrecorded =>
      refine ⟨reached, settled.recorded, ⟨settled.respects.definitions, ?_⟩,
        formulaLater, ⟨modelLater.definitions, ?_⟩⟩
      · intro other member
        rcases List.mem_append.mp member with earlier | new
        · exact settled.respects.declarations other earlier
        · obtain rfl := List.mem_singleton.mp new
          rwa [settled.recorded, find?_definitionTable_eq_none] at unrecorded
      · intro other member
        rcases List.mem_append.mp member with earlier | new
        · exact modelLater.declarations other earlier
        · obtain rfl := List.mem_singleton.mp new
          rw [declares.table]
          exact hasSignature_declare _ _

theorem everywhere_of_mem_unwrapModel {holds : Atom → Prop}
    {expressions : List SExpr}
    (everywhere : ∀ expression ∈ expressions, expression.Everywhere holds) :
    ∀ command ∈ unwrapModel expressions, command.Everywhere holds := by
  unfold unwrapModel
  split
  · next items position =>
    have inside :=
      (everywhere (.list items position) (List.mem_singleton_self _)).items
    split_ifs
    · exact fun command member => inside command (List.mem_of_mem_drop member)
    · exact inside
    · exact everywhere
  · exact everywhere

/-- The commands of the model that a solver's output holds. -/
def HoldsCommands (output : Text) (commands : List SExpr) : Prop :=
  ∃ text expressions, SolverOutput.modelText output = .ok text ∧
    readExpressions text = .ok expressions ∧ commands = unwrapModel expressions

theorem HoldsCommands.spelled {output : Text} {commands : List SExpr}
    (holds : HoldsCommands output commands) :
    ∀ command ∈ commands, command.Everywhere Atom.Spelled := by
  obtain ⟨text, expressions, _, read, rfl⟩ := holds
  exact everywhere_of_mem_unwrapModel
    (everywhere_spelled_of_readExpressions read)

/-- A formula is read in one run over its commands. -/
theorem run_of_readFormula {text : Text} {formula : Formula}
    {session later : Session}
    (read : session.readFormula text = (.ok formula, later)) :
    ∃ commands final, readExpressions text = .ok commands ∧
      runAll formulaStep ⟨session, ⟨[], []⟩⟩ commands = (none, final) ∧
      final.formula = formula := by
  unfold readFormula at read
  split at read
  · cases read
  · next commands commandsRead =>
    split at read
    · cases read
    · next final run =>
      obtain ⟨same, _⟩ := Prod.mk.inj read
      exact ⟨commands, final, commandsRead, run, Except.ok.inj same⟩

/-- A model is read in two runs over its commands. -/
theorem runs_of_readModel {output : Text} {model : Model}
    {session later : Session}
    (read : session.readModel output = (.ok model, later)) :
    ∃ commands registered, HoldsCommands output commands ∧
      runAll registerStep session commands = (none, registered) ∧
      runAll modelStep ⟨registered, ⟨[], []⟩⟩ commands =
        (none, ⟨later, model⟩) := by
  unfold readModel at read
  split at read
  · split at read
    · cases read
    · next text textRead =>
      split at read
      · cases read
      · next expressions expressionsRead =>
        dsimp only at read
        split at read
        · cases read
        · next registered registering =>
          split at read
          · cases read
          · next progress finished =>
            obtain ⟨same, rfl⟩ := Prod.mk.inj read
            obtain rfl := Except.ok.inj same
            exact ⟨_, registered, ⟨text, expressions, textRead,
              expressionsRead, rfl⟩,
              registering, finished⟩
  · cases read

/-- Registering the functions of a model settles nothing new. -/
theorem registered_settled {session : Session}
    (settled : FormulaProgress.Settled ⟨session, formula⟩)
    (commands : List SExpr) :
    ModelProgress.Settled formula
      ⟨(runAll registerStep session commands).snd, ⟨[], []⟩⟩ := by
  obtain ⟨grown, kept⟩ := registerAll_grows settled.wellFormed commands
  exact ⟨settled.reached.trans grown, kept.trans settled.recorded,
    ⟨by simp, by simp⟩, settled.formula.grow grown, ⟨by simp, by simp⟩⟩

theorem runAll_modelStep_settled {progress : ModelProgress}
    {commands : List SExpr}
    (spelled : ∀ command ∈ commands, command.Everywhere Atom.Spelled)
    (settled : progress.Settled formula) :
    (runAll modelStep progress commands).snd.Settled formula := by
  apply runAll_induction (ModelProgress.Settled formula)
  · intro progress expression member next settled stepped
    obtain ⟨command, isCommand, step⟩ :=
      modelStep_cases settled.wellFormed stepped
    exact step.settled
      (Command.everywhere_items isCommand (spelled expression member)) settled
  · exact settled

theorem readModel_settled {output : Text} {model : Model}
    {session later : Session}
    (settled : FormulaProgress.Settled ⟨session, formula⟩)
    (read : session.readModel output = (.ok model, later)) :
    ModelProgress.Settled formula ⟨later, model⟩ := by
  obtain ⟨commands, registered, holds, registering, finished⟩ :=
    runs_of_readModel read
  have start := registered_settled settled commands
  rw [registering] at start
  have final := runAll_modelStep_settled holds.spelled start
  rwa [finished] at final

/-- What is settled about every pair that is read. -/
theorem readPair_settled {formulaText modelOutput : Text} {pair : Pair}
    (read : readPair formulaText modelOutput = .ok pair) :
    pair.Settled := by
  unfold readPair at read
  split at read
  · cases read
  · next formula session formulaRead =>
    have settledFormula := readFormula_settled formulaRead
    split at read
    · cases read
    · next model later modelRead =>
      have settled := readModel_settled settledFormula modelRead
      obtain rfl := Except.ok.inj read
      exact ⟨settled.reached, settled.formula, settled.model, settled.respects⟩

end Session

end ModelAudit
