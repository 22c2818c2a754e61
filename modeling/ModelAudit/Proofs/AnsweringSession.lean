import ModelAudit.Proofs.FormulaDefinitions
import ModelAudit.Proofs.StableSignatures
import ModelAudit.Proofs.StumblingTerms

/-!
# Texts that a session answers

A session reads a formula or a model, or it says why it rejects the text, unless
it comes to a part of a term where reading stumbles. Commands and lists of
commands around the terms never break off.
-/

namespace ModelAudit

instance {Value : Type} (computed : Except Fault Value) :
    Decidable (Answers computed) :=
  match computed with
  | .ok value => .isTrue (answers_ok value)
  | .error _ => decidable_of_iff _ answers_error.symm

variable {fault : Fault}

/-! ## Commands -/

namespace Command

variable {symbols : SymbolTable} {command : Command}

/-- Reading the command comes to this term. -/
inductive HoldsTerm (symbols : SymbolTable) (command : Command) : Site → Prop
  | assertion {first term : SExpr} :
      command.head = ("assert" : Text) → command.items = [first, term] →
      HoldsTerm symbols command ⟨[], term⟩
  | body {header : FunctionHeader} :
      command.head = ("define-fun" : Text) →
      functionHeader symbols command = .ok header →
      HoldsTerm symbols command ⟨Scope.enter [] header.params,
        header.bodyExpression⟩

/-- Reading an assertion breaks off where reading its term does, and nowhere
else. -/
theorem readAssertion_eq_error_iff (crash : fault.isRejection = false) :
    command.readAssertion symbols = .error fault ↔
      ∃ first term, command.items = [first, term] ∧
        readTerm symbols [] term = .error fault := by
  unfold readAssertion
  constructor
  · intro failed
    split at failed
    next first term items =>
      rcases Outcome.bind_eq_error.mp failed with inTerm | ⟨read, _, failed⟩
      · exact ⟨first, term, items, inTerm⟩
      split at failed
      · cases failed
      · exact absurd failed ((answers_mismatch _ _).ne_error crash)
    · exact absurd failed ((answers_wrongCount _ _).ne_error crash)
  · rintro ⟨first, term, items, inTerm⟩
    simp only [items, inTerm, Outcome.error_bind]

/-- Reading a definition breaks off where reading its body does, and nowhere
else. -/
theorem defineFunction_eq_error_iff (crash : fault.isRejection = false) :
    command.defineFunction symbols = .error fault ↔
      ∃ header, functionHeader symbols command = .ok header ∧
        readTerm symbols (Scope.enter [] header.params) header.bodyExpression =
          .error fault := by
  unfold defineFunction
  constructor
  · intro failed
    obtain ⟨header, headerRead, failed⟩ :=
      (functionHeader_answers _ _).of_bind crash failed
    rcases Outcome.bind_eq_error.mp failed with inBody | ⟨body, _, failed⟩
    · exact ⟨header, headerRead, inBody⟩
    split at failed
    · obtain ⟨_, _, returned⟩ :=
        (declareSymbol_answers _ _ _ _ _).of_bind crash failed
      cases returned
    · exact absurd failed ((answers_mismatch _ _).ne_error crash)
  · rintro ⟨header, headerRead, inBody⟩
    rw [headerRead, Outcome.ok_bind, inBody, Outcome.error_bind]

end Command

namespace Session

variable {session : Session} {expression : SExpr}

/-! ## Steps -/

/-- No term is read while functions are declared, so nothing breaks off. -/
theorem registerStep_answers : Answers (registerStep session expression) := by
  unfold registerStep
  refine (Command.ofExpression_answers _).bind fun command => ?_
  split
  · exact (Command.registerFunction_answers _ _).bind fun _ => answers_pure _
  · exact answers_pure _

/-- Reading a command of a formula breaks off if and only if reading its term
does. -/
theorem formulaStep_eq_error_iff (crash : fault.isRejection = false)
    {progress : FormulaProgress} :
    formulaStep progress expression = .error fault ↔
      ∃ command site, Command.ofExpression expression = .ok command ∧
        command.HoldsTerm progress.session.symbols site ∧
        readTerm progress.session.symbols site.scope site.expression =
          .error fault := by
  unfold formulaStep
  constructor
  · intro failed
    obtain ⟨command, isCommand, failed⟩ :=
      (Command.ofExpression_answers _).of_bind crash failed
    split at failed
    · cases failed
    split at failed
    next isAssertion =>
      rcases Outcome.bind_eq_error.mp failed with failed | ⟨_, _, returned⟩
      · obtain ⟨first, term, items, inTerm⟩ :=
          (Command.readAssertion_eq_error_iff crash).mp failed
        exact ⟨command, _, isCommand, .assertion isAssertion items, inTerm⟩
      · cases returned
    split at failed
    next isDefinition =>
      rcases Outcome.bind_eq_error.mp failed with failed | ⟨_, _, returned⟩
      · obtain ⟨header, headerRead, inBody⟩ :=
          (Command.defineFunction_eq_error_iff crash).mp failed
        exact ⟨command, _, isCommand, .body isDefinition headerRead, inBody⟩
      · cases returned
    split at failed
    · obtain ⟨_, _, returned⟩ :=
        (Command.declareSort_answers _ _).of_bind crash failed
      cases returned
    split at failed
    · obtain ⟨_, _, returned⟩ :=
        (Command.defineSort_answers _ _).of_bind crash failed
      cases returned
    split at failed
    next declared declares =>
      obtain ⟨_, _, returned⟩ :=
        (Command.declaration?_answers _ _ declares).of_bind crash failed
      cases returned
    · exact absurd failed ((answers_unsupported _ _).ne_error crash)
  · rintro ⟨command, site, isCommand, holds, inTerm⟩
    rw [isCommand]
    dsimp only [Outcome.ok_bind]
    cases holds with
    | assertion isAssertion items =>
        have failed :=
          (Command.readAssertion_eq_error_iff crash).mpr ⟨_, _, items, inTerm⟩
        have heeded : ¬Command.ignoredHeads.contains command.head = true := by
          rw [isAssertion]
          decide
        rw [if_neg heeded, if_pos isAssertion, failed, Outcome.error_bind]
    | body isDefinition headerRead =>
        have failed :=
          (Command.defineFunction_eq_error_iff crash).mpr
            ⟨_, headerRead, inTerm⟩
        have heeded : ¬Command.ignoredHeads.contains command.head = true := by
          rw [isDefinition]
          decide
        have other : ¬command.head = ("assert" : Text) := by
          rw [isDefinition]
          decide
        rw [if_neg heeded, if_neg other, if_pos isDefinition, failed,
          Outcome.error_bind]

theorem requireSameDefinition_answers (definition : Definition)
    (command : Command) :
    Answers (session.requireSameDefinition definition command) := by
  unfold requireSameDefinition
  split
  · split <;> simp [Fault.isRejection]
  · simp

theorem requireUndefined_answers (command : Command) :
    Answers (session.requireUndefined command) := by
  unfold requireUndefined
  split
  · split <;> simp [Fault.isRejection]
  · simp

/-- Reading a command of a model breaks off if and only if it is a definition
and reading its body does. -/
theorem modelStep_eq_error_iff (crash : fault.isRejection = false)
    {progress : ModelProgress} :
    modelStep progress expression = .error fault ↔
      ∃ command site, Command.ofExpression expression = .ok command ∧
        command.head = ("define-fun" : Text) ∧
        command.HoldsTerm progress.session.symbols site ∧
        readTerm progress.session.symbols site.scope site.expression =
          .error fault := by
  unfold modelStep
  constructor
  · intro failed
    obtain ⟨command, isCommand, failed⟩ :=
      (Command.ofExpression_answers _).of_bind crash failed
    split at failed
    next isDefinition =>
      rcases Outcome.bind_eq_error.mp failed
        with failed | ⟨⟨definition, symbols⟩, _, failed⟩
      · obtain ⟨header, headerRead, inBody⟩ :=
          (Command.defineFunction_eq_error_iff crash).mp failed
        exact ⟨command, _, isCommand, isDefinition,
          .body isDefinition headerRead, inBody⟩
      · obtain ⟨_, _, returned⟩ :=
          (requireSameDefinition_answers _ _).of_bind crash failed
        cases returned
    split at failed
    · obtain ⟨_, _, returned⟩ :=
        (Command.declareSort_answers _ _).of_bind crash failed
      cases returned
    split at failed
    next declared declares =>
      obtain ⟨_, _, failed⟩ := (requireUndefined_answers _).of_bind crash failed
      obtain ⟨_, _, returned⟩ :=
        (Command.declaration?_answers _ _ declares).of_bind crash failed
      cases returned
    · exact absurd failed ((answers_unsupported _ _).ne_error crash)
  · rintro ⟨command, site, isCommand, isDefinition, holds, inTerm⟩
    rw [isCommand]
    dsimp only [Outcome.ok_bind]
    rw [if_pos isDefinition]
    cases holds with
    | assertion isAssertion _ =>
        rw [isDefinition] at isAssertion
        exact absurd isAssertion (by decide)
    | body _ headerRead =>
        have failed :=
          (Command.defineFunction_eq_error_iff crash).mpr
            ⟨_, headerRead, inTerm⟩
        rw [failed, Outcome.error_bind]

/-! ## Runs -/

/-- A run ends with a fault if and only if it comes to an expression where the
step fails. -/
theorem runAll_eq_fault_iff {State : Type}
    {step : State → SExpr → Except Fault State} {state reached : State}
    {expressions : List SExpr} :
    runAll step state expressions = (some fault, reached) ↔
      ∃ before expression after, expressions = before ++ expression :: after ∧
        runAll step state before = (none, reached) ∧
        step reached expression = .error fault := by
  constructor
  · intro run
    induction expressions generalizing state with
    | nil => cases run
    | cons first others inductionHypothesis =>
        rw [runAll] at run
        cases stepped : step state first with
        | error cause =>
            rw [stepped] at run
            obtain ⟨same, rfl⟩ := Prod.mk.inj run
            obtain rfl := Option.some.inj same
            exact ⟨[], first, others, rfl, rfl, stepped⟩
        | ok next =>
            rw [stepped] at run
            obtain ⟨before, expression, after, rfl, earlier, faulty⟩ :=
              inductionHypothesis run
            refine ⟨first :: before, expression, after, rfl, ?_, faulty⟩
            rw [runAll, stepped]
            exact earlier
  · rintro ⟨before, expression, after, rfl, run, faulty⟩
    exact runAll_fault run faulty

/-! ## Sessions -/

/-- Reading the text comes to this part of a term, over these symbols. -/
inductive Meets (session : Session) : Input → SymbolTable → Site → Prop
  | formula {text : Text} {before after : List SExpr} {expression : SExpr}
      {reached : FormulaProgress} {command : Command} {term part : Site} :
      readExpressions text = .ok (before ++ expression :: after) →
      runAll formulaStep ⟨session, ⟨[], []⟩⟩ before = (none, reached) →
      Command.ofExpression expression = .ok command →
      command.HoldsTerm reached.session.symbols term →
      ComesTo reached.session.symbols term part →
      Meets session (.formula text) reached.session.symbols part
  | model {output : Text} {commands : List SExpr} {expression : SExpr}
      {reached : ModelProgress} {command : Command} {body part : Site} :
      HoldsCommands output commands →
      session.ComesToRead commands expression reached →
      Command.ofExpression expression = .ok command →
      command.head = ("define-fun" : Text) →
      command.HoldsTerm reached.session.symbols body →
      ComesTo reached.session.symbols body part →
      Meets session (.model output) reached.session.symbols part

/-- Reading the text comes to a part of a term where it stumbles. -/
def BreaksOff (session : Session) (input : Input) (fault : Fault) : Prop :=
  ∃ symbols part, session.Meets input symbols part ∧ Stumbles symbols part fault

theorem BreaksOff.not_isRejection {input : Input}
    (breaksOff : session.BreaksOff input fault) :
    fault.isRejection = false := by
  obtain ⟨_, _, _, stumbles⟩ := breaksOff
  exact stumbles.not_isRejection

theorem readFormula_eq_error_iff (crash : fault.isRejection = false)
    {text : Text} :
    (session.readFormula text).fst = .error fault ↔
      session.BreaksOff (.formula text) fault := by
  constructor
  · intro failed
    unfold readFormula at failed
    split at failed
    · obtain rfl := Except.error.inj failed
      cases crash
    next expressions isRead =>
    split at failed
    next other progress run =>
      obtain rfl := Except.error.inj failed
      obtain ⟨before, expression, after, rfl, earlier, faulty⟩ :=
        runAll_eq_fault_iff.mp run
      obtain ⟨command, term, isCommand, holds, inTerm⟩ :=
        (formulaStep_eq_error_iff crash).mp faulty
      obtain ⟨part, comes, stumbles⟩ := (readTerm_eq_error_iff crash).mp inTerm
      exact ⟨_, part, .formula isRead earlier isCommand holds comes, stumbles⟩
    · cases failed
  · rintro ⟨symbols, part, meets, stumbles⟩
    cases meets with
    | formula isRead earlier isCommand holds comes =>
        have inTerm := (readTerm_eq_error_iff crash).mpr ⟨part, comes, stumbles⟩
        have faulty :=
          (formulaStep_eq_error_iff crash).mpr ⟨_, _, isCommand, holds, inTerm⟩
        simp only [readFormula, isRead, runAll_fault earlier faulty]

theorem readModel_eq_error_iff (crash : fault.isRejection = false)
    (ready : session.formulaRead = true) {output : Text} :
    (session.readModel output).fst = .error fault ↔
      session.BreaksOff (.model output) fault := by
  constructor
  · intro failed
    rw [readModel, if_pos ready] at failed
    split at failed
    · obtain rfl := Except.error.inj failed
      cases crash
    next text isText =>
    split at failed
    · obtain rfl := Except.error.inj failed
      cases crash
    next expressions isRead =>
    dsimp only at failed
    split at failed
    next other registered registering =>
      obtain rfl := Except.error.inj failed
      obtain ⟨_, _, _, _, _, faulty⟩ := runAll_eq_fault_iff.mp registering
      exact absurd faulty (registerStep_answers.ne_error crash)
    next registered registering =>
    split at failed
    next other progress run =>
      obtain rfl := Except.error.inj failed
      obtain ⟨before, expression, after, split, earlier, faulty⟩ :=
        runAll_eq_fault_iff.mp run
      obtain ⟨command, body, isCommand, isDefinition, holds, inBody⟩ :=
        (modelStep_eq_error_iff crash).mp faulty
      obtain ⟨part, comes, stumbles⟩ := (readTerm_eq_error_iff crash).mp inBody
      exact ⟨_, part, .model ⟨text, expressions, isText, isRead, rfl⟩
        ⟨before, after, registered, split, registering,
          earlier⟩ isCommand isDefinition holds comes,
        stumbles⟩
    · cases failed
  · rintro ⟨symbols, part, meets, stumbles⟩
    cases meets with
    | model holdsCommands comesToRead isCommand isDefinition holds comes =>
        have inBody := (readTerm_eq_error_iff crash).mpr ⟨part, comes, stumbles⟩
        have faulty := (modelStep_eq_error_iff crash).mpr
          ⟨_, _, isCommand, isDefinition, holds, inBody⟩
        exact readModel_of_modelStep ready holdsCommands comesToRead faulty

theorem answers_iff_not_breaksOff {Value : Type} {computed : Except Fault Value}
    {input : Input} (broken : ∀ fault, fault.isRejection = false →
      (computed = .error fault ↔ session.BreaksOff input fault)) :
    Answers computed ↔ ¬∃ fault, session.BreaksOff input fault := by
  constructor
  · rintro answers ⟨fault, breaksOff⟩
    have crash := breaksOff.not_isRejection
    exact answers.ne_error crash ((broken fault crash).mpr breaksOff)
  · intro never fault failed
    by_contra notRejected
    have crash : fault.isRejection = false := by simpa using notRejected
    exact never ⟨fault, (broken fault crash).mp failed⟩

/-- A session answers a text with a value or a rejection if and only if reading
the text comes to no part of a term where it stumbles: no application of a
qualified empty list, and no bit-vector constant with a digit that is no decimal
digit. -/
theorem reading_answers_iff (session : Session) :
    (∀ text, Answers (session.readFormula text).fst ↔
      ¬∃ fault, session.BreaksOff (.formula text) fault) ∧
    (session.formulaRead = true →
      ∀ output, Answers (session.readModel output).fst ↔
      ¬∃ fault, session.BreaksOff (.model output) fault) :=
  ⟨fun _ => answers_iff_not_breaksOff fun _ crash =>
    readFormula_eq_error_iff crash,
    fun ready _ => answers_iff_not_breaksOff fun _ crash =>
      readModel_eq_error_iff crash ready⟩

/-- An assertion that applies a qualified empty list breaks off, and so does a
model with a superscript two in a bit-vector constant. -/
theorem emptyName_loneDigit_breakOff :
    (∃ fault, start.BreaksOff (.formula "(assert (= ((as () Int) 1) 1))")
      fault) ∧
    (start.readFormula "(declare-const x (_ BitVec 8))").snd.formulaRead =
      true ∧
    ∃ fault, (start.readFormula "(declare-const x (_ BitVec 8))").snd.BreaksOff
      (.model "(define-fun x () (_ BitVec 8) (_ |bv²| 8))") fault := by
  have ready :
      (start.readFormula "(declare-const x (_ BitVec 8))").snd.formulaRead =
        true := by
    decide +kernel
  have emptyName :
      ¬Answers (start.readFormula "(assert (= ((as () Int) 1) 1))").fst := by
    decide +kernel
  have loneDigit :
      ¬Answers
        ((start.readFormula "(declare-const x (_ BitVec 8))").snd.readModel
      "(define-fun x () (_ BitVec 8) (_ |bv²| 8))").fst := by
    decide +kernel
  refine ⟨?_, ready, ?_⟩
  · exact not_not.mp (mt ((reading_answers_iff start).1 _).mpr emptyName)
  · exact not_not.mp (mt ((reading_answers_iff _).2 ready _).mpr loneDigit)

end Session

end ModelAudit
