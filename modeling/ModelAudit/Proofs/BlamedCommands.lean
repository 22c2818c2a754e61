import ModelAudit.Proofs.AnsweringSession
import ModelAudit.Proofs.Blame
import ModelAudit.Proofs.PlacedCommands

/-!
# What a fault of a command blames

A fault of a command names the place of the command or of a part of it, and is
about what stands there. A run over commands fails as one of its commands does.
-/

namespace ModelAudit

namespace Command

variable {known : SExpr → Prop} {expression : SExpr} {command : Command}

/-- The command with its items is among the expressions. -/
structure Inside (known : SExpr → Prop) (command : Command) : Prop where
  expression : known command.expression
  items : ∀ item ∈ command.items, known item
  headed : command.expression.headSymbol? = some command.head

theorem ofExpression_blames (inside : known expression) :
    Blames known (ofExpression expression) := by
  unfold ofExpression
  split
  · exact blames_expected inside _
  · split
    · exact blames_ok _
    · next items position headless =>
        exact blames_of_suits inside rfl ⟨rfl, headless⟩

theorem inside_of_ofExpression (closed : ClosedUnderItems known)
    (inside : known expression)
    (isCommand : ofExpression expression = .ok command) :
    command.Inside known := by
  unfold ofExpression at isCommand
  split at isCommand
  · cases isCommand
  · split at isCommand
    · next items position head headed =>
      obtain rfl := Except.ok.inj isCommand
      exact ⟨inside, closed _ _ inside, headed⟩
    · cases isCommand

variable (symbols : SymbolTable)

theorem wrongCount_blames {Value : Type} (inside : command.Inside known)
    (count : Nat) :
    Blames known (command.wrongCount count : Except Fault Value) :=
  blames_of_suits inside.expression rfl inside.headed

theorem parameterItems_blames (inside : known expression) (head what : Text) :
    Blames known (parameterItems head what expression) := by
  unfold parameterItems
  split
  · exact blames_ok _
  · exact blames_of_suits inside rfl rfl

theorem known_of_parameterItems (closed : ClosedUnderItems known)
    (inside : known expression) {head what : Text} {items : List SExpr}
    (read : parameterItems head what expression = .ok items) :
    ∀ item ∈ items, known item := by
  obtain ⟨position, rfl⟩ := parameterItems_eq_ok.mp read
  exact closed _ _ inside

theorem declareSymbol_blames (inside : known expression)
    (arguments : List SmtSort) (result : SmtSort) (kind : DeclarationKind) :
    Blames known (declareSymbol symbols expression arguments result kind) := by
  refine (readSymbol_blames inside _).bind fun name read => ?_
  have named := readSymbol_eq_ok.mp read
  split
  · exact blames_of_suits inside rfl named
  · dsimp only
    split
    · exact blames_mismatch inside named
    · exact blames_ok _

theorem declareSort_blames (inside : command.Inside known)
    (isDeclareSort : command.head = ("declare-sort" : Text)) :
    Blames known (command.declareSort symbols) := by
  have named (nameExpression : SExpr) (insideName : known nameExpression)
      (arity : Except Fault Nat) (counted : Blames known arity) :
      Blames known (do
        let name ← readSymbol "sort name" nameExpression
        let count ← arity
        if count = 0 then return symbols.declareSort name 0
        else
          (unsupported "declare-sort"
            ("parametric sort " ++ name ++ " of arity " ++ Text.decimal count) :
              Except Fault SymbolTable)) := by
    refine (readSymbol_blames insideName _).bind fun name _ =>
      counted.bind fun count _ => ?_
    split
    · exact blames_ok _
    · exact blames_unsupported _ _
  have insideItems := inside.items
  unfold declareSort
  split
  · next items =>
    rw [items] at insideItems
    exact named _ (insideItems _ (by simp)) _ (blames_ok 0)
  · next items =>
    rw [items] at insideItems
    exact named _ (insideItems _ (by simp)) _
      (readNumeral_blames (insideItems _ (by simp)))
  · have headed := inside.headed
    rw [isDeclareSort] at headed
    exact blames_of_suits inside.expression rfl headed

theorem declaration?_blames (closed : ClosedUnderItems known)
    (inside : command.Inside known)
    {declared : Except Fault (Declaration × SymbolTable)}
    (declares : command.declaration? symbols = some declared) :
    Blames known declared := by
  have insideItems := inside.items
  unfold declaration? at declares
  split at declares
  · obtain rfl := Option.some.inj declares
    unfold declareFunction
    split
    · next items =>
      rw [items] at insideItems
      exact (parameterItems_blames (insideItems _ (by simp)) _ _).bind
        fun listed read =>
        (readSorts_blames symbols [] closed listed
          (known_of_parameterItems closed (insideItems _ (by simp)) read)).bind
            fun arguments _ =>
            (readSort_blames symbols [] closed _ (insideItems _ (by simp))).bind
              fun result _ =>
              declareSymbol_blames _ (insideItems _ (by simp)) _ _ _
    · exact wrongCount_blames inside _
  split at declares
  · obtain rfl := Option.some.inj declares
    unfold declareConstant
    split
    · next items =>
      rw [items] at insideItems
      exact (readSort_blames symbols [] closed _ (insideItems _ (by simp))).bind
        fun sort _ =>
        declareSymbol_blames _ (insideItems _ (by simp)) _ _ _
    · exact wrongCount_blames inside _
  · cases declares

theorem functionHeader_blames (closed : ClosedUnderItems known)
    (inside : command.Inside known) :
    Blames known (functionHeader symbols command) := by
  have insideItems := inside.items
  unfold functionHeader
  split
  · next items =>
    rw [items] at insideItems
    exact (parameterItems_blames (insideItems _ (by simp)) _ _).bind
      fun listed read =>
      (readSortedNames_blames symbols closed
        (known_of_parameterItems closed (insideItems _ (by simp)) read)).bind
          fun params _ =>
          (readSort_blames symbols [] closed _ (insideItems _ (by simp))).bind
            fun result _ =>
            blames_ok _
  · exact wrongCount_blames inside _

theorem registerFunction_blames (closed : ClosedUnderItems known)
    (inside : command.Inside known) :
    Blames known (command.registerFunction symbols) := by
  refine (functionHeader_blames symbols closed inside).bind fun header read =>
    ?_
  obtain ⟨_, _, _, items⟩ := items_of_functionHeader read
  have insideName := inside.items header.nameExpression (by simp [items])
  exact (declareSymbol_blames symbols insideName _ _ _).bind fun _ _ =>
    blames_ok _

theorem defineFunction_blames (closed : ClosedUnderItems known)
    (inside : command.Inside known) :
    Blames known (command.defineFunction symbols) := by
  refine (functionHeader_blames symbols closed inside).bind fun header read =>
    ?_
  obtain ⟨_, _, _, items⟩ := items_of_functionHeader read
  have insideName := inside.items header.nameExpression (by simp [items])
  have insideBody := inside.items header.bodyExpression (by simp [items])
  refine (readTerm_blames symbols closed _ _ insideBody).bind
    fun body bodyRead => ?_
  split
  · exact (declareSymbol_blames symbols insideName _ _ _).bind fun _ _ =>
      blames_ok _
  · exact blames_mismatch insideBody ⟨symbols, _, body, bodyRead, rfl⟩

end Command

namespace Session

variable {known : SExpr → Prop} {expression : SExpr}

theorem registerStep_blames (closed : ClosedUnderItems known)
    (inside : known expression) (session : Session) :
    Blames known (registerStep session expression) := by
  refine (Command.ofExpression_blames inside).bind fun command isCommand => ?_
  have insideCommand := Command.inside_of_ofExpression closed inside isCommand
  split
  · exact (Command.registerFunction_blames session.symbols closed
      insideCommand).bind
      fun _ _ => blames_ok _
  · exact blames_ok _

theorem requireSameDefinition_blames (session : Session) {command : Command}
    (inside : command.Inside known) {symbols later : SymbolTable}
    {definition : Definition}
    (defined : command.defineFunction symbols = .ok (definition, later)) :
    Blames known (session.requireSameDefinition definition command) := by
  obtain ⟨header, parts⟩ := Command.exists_parts defined
  obtain ⟨_, _, _, items⟩ := Command.items_of_functionHeader parts.read
  have insideName := inside.items header.nameExpression (by simp [items])
  unfold requireSameDefinition
  rw [items]
  cases session.definitions.find? definition.name with
  | none => exact blames_ok _
  | some earlier =>
      dsimp only
      split
      · exact blames_ok _
      · exact blames_of_suits insideName rfl parts.declares.named

theorem requireUndefined_blames (session : Session) {command : Command}
    (inside : command.Inside known) :
    Blames known (session.requireUndefined command) := by
  have insideItems := inside.items
  unfold requireUndefined
  split
  · next nameExpression _ items =>
    rw [items] at insideItems
    split
    · next name found =>
      exact blames_of_suits (insideItems nameExpression (by simp)) rfl
        (Option.filter_eq_some_iff.mp found).1
    · exact blames_ok _
  · exact blames_ok _

/-- A fault in a command of a model is blamed on the command or on a part of
it. -/
theorem modelStep_blames (closed : ClosedUnderItems known)
    (inside : known expression) (progress : ModelProgress) :
    Blames known (modelStep progress expression) := by
  obtain ⟨session, model⟩ := progress
  refine (Command.ofExpression_blames inside).bind fun command isCommand => ?_
  have insideCommand := Command.inside_of_ofExpression closed inside isCommand
  dsimp only
  split
  · exact (Command.defineFunction_blames session.symbols closed
      insideCommand).bind
      fun ⟨definition, symbols⟩ defined =>
        (requireSameDefinition_blames session insideCommand defined).bind
          fun _ _ => blames_ok _
  split
  · next isDeclareSort =>
    exact (Command.declareSort_blames session.symbols insideCommand
      isDeclareSort).bind
      fun _ _ => blames_ok _
  split
  · next declared declares =>
    exact (requireUndefined_blames session insideCommand).bind fun _ _ =>
      (Command.declaration?_blames session.symbols closed insideCommand
        declares).bind
        fun _ _ => blames_ok _
  · exact blames_unsupported _ _

/-- A run fails as one of its steps does. -/
theorem runAll_blames {State : Type} {step : State → SExpr → Except Fault State}
    (stepBlames : ∀ expression, known expression →
      ∀ state, Blames known (step state expression))
    {expressions : List SExpr}
    (inside : ∀ expression ∈ expressions, known expression)
    {state final : State} {fault : Fault}
    (run : runAll step state expressions = (some fault, final)) :
    ∀ place, fault.place? = some place →
      ∃ expression, known expression ∧ expression.place = place ∧
        fault.Suits expression := by
  obtain ⟨before, expression, after, rfl, _, failed⟩ :=
    runAll_eq_fault_iff.mp run
  exact stepBlames expression (inside expression (by simp)) final fault failed

/-- A fault in the commands of a model is blamed on one of them or on a part of
it. -/
theorem readCommands_blames (closed : ClosedUnderItems known)
    {commands : List SExpr} (inside : ∀ command ∈ commands, known command)
    (session : Session) :
    Blames known (session.readCommands commands).fst := by
  unfold readCommands
  split
  · next fault registered run =>
    rintro _ ⟨⟩
    exact runAll_blames (fun _ inside => registerStep_blames closed inside)
      inside run
  · split
    · next fault progress run =>
      rintro _ ⟨⟩
      exact runAll_blames (fun _ inside => modelStep_blames closed inside)
        inside run
    · exact blames_ok _

end Session

end ModelAudit
