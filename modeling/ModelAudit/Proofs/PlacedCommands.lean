import ModelAudit.Proofs.Positions
import ModelAudit.Script.Session

/-!
# Commands wherever they stand

What positions are to terms they are to commands and to lists of commands: a
session reads a model alike wherever its tokens stand. It keeps the same symbols
as well, also if the model is faulty.
-/

namespace ModelAudit

/-! ## Commands -/

namespace Command

variable (symbols : SymbolTable) (command : Command)

def bare : Command where
  head := command.head
  items := command.items.map SExpr.bare
  expression := command.expression.bare

def FunctionHeader.bare (header : FunctionHeader) : FunctionHeader :=
  { header with
    nameExpression := header.nameExpression.bare
    bodyExpression := header.bodyExpression.bare }

theorem wrongCount_alike {Value : Type} (other : Command)
    (count otherCount : Nat) :
    Alike (command.wrongCount count : Except Fault Value)
      (other.wrongCount otherCount) :=
  alike_error rfl

theorem ofExpression_bare (expression : SExpr) :
    Alike ((ofExpression expression).map bare)
      (ofExpression expression.bare) := by
  cases expression with
  | atom leaf position => exact alike_error rfl
  | list items position =>
      have sameHead := SExpr.headSymbol?_bare (.list items position)
      rw [SExpr.bare_list] at sameHead
      rw [SExpr.bare_list, ofExpression, ofExpression, sameHead]
      cases (SExpr.list items position).headSymbol? with
      | none => exact alike_error rfl
      | some head =>
          dsimp only [Outcome.map_ok, bare]
          rw [SExpr.bare_list]
          exact .refl _

theorem parameterItems_bare (head what : Text) (expression : SExpr) :
    Alike ((parameterItems head what expression).map (List.map SExpr.bare))
      (parameterItems head what expression.bare) := by
  cases expression with
  | atom leaf position => exact alike_error rfl
  | list items position =>
      rw [SExpr.bare_list]
      exact .refl _

theorem declareSymbol_bare (nameExpression : SExpr) (arguments : List SmtSort)
    (result : SmtSort) (kind : DeclarationKind) :
    Alike (declareSymbol symbols nameExpression arguments result kind)
      (declareSymbol symbols nameExpression.bare arguments result kind) := by
  refine (readSymbol_bare _ nameExpression).bind fun name => ?_
  split
  · exact alike_error rfl
  · dsimp only
    split
    · exact mismatch_alike _ _ _
    · exact .refl _

theorem declareSort_bare :
    Alike (command.declareSort symbols) (command.bare.declareSort symbols) := by
  have declareName (nameExpression : SExpr)
      {count otherCount : Except Fault Nat} (counted : Alike count otherCount) :
      Alike
        (do
          let name ← readSymbol "sort name" nameExpression
          let number ← count
          if number = 0 then return symbols.declareSort name 0
          else
            (unsupported "declare-sort"
              ("parametric sort " ++ name ++ " of arity " ++ Text.decimal
                number) :
                Except Fault SymbolTable))
        (do
          let name ← readSymbol "sort name" nameExpression.bare
          let number ← otherCount
          if number = 0 then return symbols.declareSort name 0
          else
            (unsupported "declare-sort"
              ("parametric sort " ++ name ++ " of arity " ++ Text.decimal
                number) :
                Except Fault SymbolTable)) := by
    refine (readSymbol_bare _ nameExpression).bind fun name =>
      counted.bind fun number => ?_
    split
    · exact .refl _
    · exact unsupported_alike _ _ _ _
  obtain ⟨head, items, expression⟩ := command
  match items with
  | [_, name] => exact declareName name (.refl _)
  | [_, name, arity] => exact declareName name (readNumeral_bare arity)
  | [] | [_] | _ :: _ :: _ :: _ :: _ => exact alike_error rfl

theorem declareFunction_bare :
    Alike (command.declareFunction symbols)
      (command.bare.declareFunction symbols) := by
  obtain ⟨head, items, expression⟩ := command
  match items with
  | [_, name, argumentList, resultExpression] =>
      exact (parameterItems_bare head _ argumentList).bindMap fun arguments =>
        (readSorts_bare symbols [] arguments).bind fun _ =>
          (readSort_bare symbols [] resultExpression).bind fun _ =>
            declareSymbol_bare _ _ _ _ _
  | [] | [_] | [_, _] | [_, _, _] | _ :: _ :: _ :: _ :: _ :: _ =>
    exact wrongCount_alike _ _ _ _

theorem declareConstant_bare :
    Alike (command.declareConstant symbols)
      (command.bare.declareConstant symbols) := by
  obtain ⟨head, items, expression⟩ := command
  match items with
  | [_, name, sortExpression] =>
      exact (readSort_bare symbols [] sortExpression).bind fun _ =>
        declareSymbol_bare _ _ _ _ _
  | [] | [_] | [_, _] | _ :: _ :: _ :: _ :: _ => exact wrongCount_alike _ _ _ _

theorem declaration?_bare :
    Option.Rel Alike (command.declaration? symbols)
      (command.bare.declaration? symbols) := by
  unfold declaration?
  have sameHead : command.bare.head = command.head := rfl
  rw [sameHead]
  split
  · exact .some (declareFunction_bare symbols command)
  split
  · exact .some (declareConstant_bare symbols command)
  · exact .none

theorem functionHeader_bare :
    Alike ((functionHeader symbols command).map FunctionHeader.bare)
      (functionHeader symbols command.bare) := by
  obtain ⟨head, items, expression⟩ := command
  match items with
  | [_, name, paramList, resultExpression, body] =>
      simp only [functionHeader, bare, List.map_cons, List.map_nil,
        Outcome.map_bind]
      exact (parameterItems_bare head _ paramList).bindMap fun params =>
        (mapM_alike params (readSortedName_bare symbols)).bind fun _ =>
          (readSort_bare symbols [] resultExpression).bind fun _ => .refl _
  | [] | [_] | [_, _] | [_, _, _] | [_, _, _, _]
  | _ :: _ :: _ :: _ :: _ :: _ :: _ =>
      exact wrongCount_alike _ _ _ _

theorem registerFunction_bare :
    Alike (command.registerFunction symbols)
      (command.bare.registerFunction symbols) :=
  (functionHeader_bare symbols command).bindMap fun header =>
    (declareSymbol_bare symbols header.nameExpression _ _ _).bind fun _ =>
      .refl _

/-- Positions do not matter to a definition. -/
theorem defineFunction_bare :
    Alike (command.defineFunction symbols)
      (command.bare.defineFunction symbols) := by
  refine (functionHeader_bare symbols command).bindMap fun header =>
    (readTerm_bare symbols header.bodyExpression _).bind fun body => ?_
  have sameResult : header.bare.result = header.result := rfl
  by_cases fits : body.sort = header.result
  · rw [if_pos fits, if_pos (fits.trans sameResult.symm)]
    exact (declareSymbol_bare symbols header.nameExpression _ _ _).bind fun _ =>
      .refl _
  · rw [if_neg fits, if_neg fun bareFits => fits (bareFits.trans sameResult)]
    exact alike_error rfl

end Command

/-! ## Steps and runs -/

namespace Session

variable (session : Session)

theorem registerStep_bare (expression : SExpr) :
    Alike (registerStep session expression)
      (registerStep session expression.bare) := by
  refine (Command.ofExpression_bare expression).bindMap fun command => ?_
  dsimp only [Command.bare]
  split
  · exact (Command.registerFunction_bare session.symbols command).bind fun _ =>
      .refl _
  · exact .refl _

theorem requireSameDefinition_bare (definition : Definition)
    (command : Command) :
    Alike (session.requireSameDefinition definition command)
      (session.requireSameDefinition definition command.bare) := by
  obtain ⟨head, items, expression⟩ := command
  unfold requireSameDefinition
  cases session.definitions.find? definition.name with
  | none => exact .refl _
  | some earlier =>
      rcases items with _ | ⟨_, _ | ⟨nameExpression, _⟩⟩
      case cons.cons =>
        show Alike
          (if earlier = definition then .ok ()
            else .error (.conflict
              (.redefines definition.name) nameExpression.place))
          (if earlier = definition then .ok ()
            else .error (.conflict
              (.redefines definition.name) nameExpression.bare.place))
        split
        · exact .refl _
        · exact alike_error rfl
      all_goals exact .refl _

theorem requireUndefined_bare (command : Command) :
    Alike (session.requireUndefined command)
      (session.requireUndefined command.bare) := by
  obtain ⟨head, items, expression⟩ := command
  rcases items with _ | ⟨_, _ | ⟨nameExpression, _⟩⟩
  case cons.cons =>
    simp only [requireUndefined, Command.bare, List.map_cons,
      SExpr.symbol?_bare]
    split
    · exact alike_error rfl
    · exact .refl _
  all_goals exact .refl _

/-- Positions do not matter to a command of a model. -/
theorem modelStep_bare (progress : ModelProgress) (expression : SExpr) :
    Alike (modelStep progress expression)
      (modelStep progress expression.bare) := by
  obtain ⟨session, model⟩ := progress
  refine (Command.ofExpression_bare expression).bindMap fun command => ?_
  have sameHead : command.bare.head = command.head := rfl
  dsimp only
  rw [sameHead]
  split
  · exact (Command.defineFunction_bare session.symbols command).bind
      fun ⟨definition, _⟩ =>
      (requireSameDefinition_bare session definition command).bind fun _ =>
        .refl _
  split
  · exact (Command.declareSort_bare session.symbols command).bind fun _ =>
      .refl _
  · have declares := Command.declaration?_bare session.symbols command
    generalize Command.declaration? session.symbols command = declared
      at declares ⊢
    generalize Command.declaration? session.symbols command.bare = bareDeclared
      at declares ⊢
    cases declares with
    | none => exact unsupported_alike _ _ _ _
    | some declared =>
        exact (requireUndefined_bare session command).bind fun _ =>
          declared.bind fun _ => .refl _

/-- Results of reading that are alike, and leave the same session. -/
structure AlikeResults {Value : Type}
    (left right : Except Fault Value × Session) : Prop where
  outcome : Alike left.fst right.fst
  session : left.snd = right.snd

theorem AlikeResults.symm {Value : Type}
    {left right : Except Fault Value × Session}
    (alike : AlikeResults left right) : AlikeResults right left :=
  ⟨alike.outcome.symm, alike.session.symm⟩

theorem AlikeResults.trans {Value : Type}
    {left middle right : Except Fault Value × Session}
    (first : AlikeResults left middle) (second : AlikeResults middle right) :
    AlikeResults left right :=
  ⟨first.outcome.trans second.outcome, first.session.trans second.session⟩

theorem AlikeResults.eq_ok_iff {Value : Type}
    {left right : Except Fault Value × Session} (alike : AlikeResults left right)
    {value : Value} {session : Session} :
    left = (.ok value, session) ↔ right = (.ok value, session) := by
  constructor
  · rintro rfl
    exact Prod.ext alike.outcome.eq_ok alike.session.symm
  · rintro rfl
    exact Prod.ext alike.outcome.symm.eq_ok alike.session

/-- Steps that are alike without positions run alike. -/
theorem runAll_bare {State : Type} {step : State → SExpr → Except Fault State}
    (stepBare : ∀ state expression,
      Alike (step state expression) (step state expression.bare))
    (state : State) (expressions : List SExpr) :
    (runAll step state (expressions.map SExpr.bare)).fst.map Fault.kind =
        (runAll step state expressions).fst.map Fault.kind ∧
      (runAll step state (expressions.map SExpr.bare)).snd =
        (runAll step state expressions).snd := by
  induction expressions generalizing state with
  | nil => exact ⟨rfl, rfl⟩
  | cons expression expressions inductionHypothesis =>
      have here := stepBare state expression
      rw [List.map_cons, runAll, runAll]
      cases stepped : step state expression with
      | error fault =>
          rw [stepped] at here
          cases bareStepped : step state expression.bare with
          | error other =>
              rw [bareStepped] at here
              exact ⟨congrArg some (Except.error.inj here).symm, rfl⟩
          | ok next =>
              rw [bareStepped] at here
              cases here
      | ok next =>
          rw [stepped] at here
          cases bareStepped : step state expression.bare with
          | error other =>
              rw [bareStepped] at here
              cases here
          | ok other =>
              rw [bareStepped] at here
              obtain rfl : next = other := Except.ok.inj here
              exact inductionHypothesis next

/-- Both runs end without a fault, or with faults of one kind. -/
theorem runAll_bare_cases {State : Type}
    {step : State → SExpr → Except Fault State}
    (stepBare : ∀ state expression,
      Alike (step state expression) (step state expression.bare))
    (state : State) (expressions : List SExpr) :
    (∃ next, runAll step state expressions = (none, next) ∧
      runAll step state (expressions.map SExpr.bare) = (none, next)) ∨
    ∃ fault other next, runAll step state expressions = (some fault, next) ∧
      runAll step state (expressions.map SExpr.bare) = (some other, next) ∧
      other.kind = fault.kind := by
  obtain ⟨sameFault, sameState⟩ := runAll_bare stepBare state expressions
  rcases run : runAll step state expressions with ⟨_ | fault, next⟩
  · rw [run] at sameFault sameState
    exact .inl ⟨next, rfl,
      Prod.ext (Option.map_eq_none_iff.mp sameFault) sameState⟩
  · rw [run] at sameFault sameState
    obtain ⟨other, bareFault, sameKind⟩ := Option.map_eq_some_iff.mp sameFault
    exact .inr ⟨fault, other, next, rfl, Prod.ext bareFault sameState, sameKind⟩

def readCommands (session : Session) (commands : List SExpr) :
    Except Fault Model × Session :=
  match runAll registerStep session commands with
  | (some fault, session) => (.error fault, session)
  | (none, session) =>
    match runAll modelStep ⟨session, ⟨[], []⟩⟩ commands with
    | (some fault, progress) => (.error fault, progress.session)
    | (none, progress) => (.ok progress.model, progress.session)

/-- Positions do not matter to the commands of a model. -/
theorem readCommands_bare (commands : List SExpr) :
    AlikeResults (session.readCommands (commands.map SExpr.bare))
      (session.readCommands commands) := by
  unfold readCommands
  rcases runAll_bare_cases registerStep_bare session commands
    with ⟨next, run, bareRun⟩ | ⟨fault, other, next, run, bareRun, sameKind⟩
  case inr =>
    rw [run, bareRun]
    exact ⟨alike_error sameKind, rfl⟩
  rw [run, bareRun]
  dsimp only
  rcases runAll_bare_cases modelStep_bare ⟨next, ⟨[], []⟩⟩ commands with
    ⟨progress, read, bareRead⟩ |
    ⟨fault, other, progress, read, bareRead, sameKind⟩
  case inr =>
    rw [read, bareRead]
    exact ⟨alike_error sameKind, rfl⟩
  rw [read, bareRead]
  exact ⟨.refl _, rfl⟩

/-- Commands of a model that differ in their positions are read alike. -/
theorem readCommands_of_sameBare {commands others : List SExpr}
    (same : commands.map SExpr.bare = others.map SExpr.bare) :
    AlikeResults (session.readCommands commands)
      (session.readCommands others) := by
  have alike := readCommands_bare session commands
  rw [same] at alike
  exact alike.symm.trans (readCommands_bare session others)

/-- Positions do not matter to the list around a model. -/
theorem unwrapModel_bare (expressions : List SExpr) :
    unwrapModel (expressions.map SExpr.bare) =
      (unwrapModel expressions).map SExpr.bare := by
  match expressions with
  | [.list items position] =>
      have sameHead := SExpr.headSymbol?_bare (.list items position)
      have sameLists :
          (items.map SExpr.bare).all SExpr.isList = items.all SExpr.isList := by
        rw [List.all_map]
        congr 1
        exact funext SExpr.isList_bare
      rw [SExpr.bare_list] at sameHead
      simp only [unwrapModel, List.map_cons, List.map_nil, SExpr.bare_list,
        sameHead, sameLists]
      split
      · rw [List.map_drop]
      · split <;> simp
  | [] | [.atom _ _] | .atom _ _ :: _ :: _ | .list _ _ :: _ :: _ => rfl

end Session

/-! ## Tokens -/

namespace Reader

def OpenList.bare (opened : OpenList) : OpenList :=
  ⟨.start, opened.items.map SExpr.bare⟩

def State.bare (state : State) : State :=
  ⟨state.opened.map OpenList.bare, state.top.map SExpr.bare⟩

theorem State.add_bare (state : State) (expression : SExpr) :
    (state.add expression).bare = state.bare.add expression.bare := by
  obtain ⟨opened, top⟩ := state
  cases opened with
  | nil => rfl
  | cons inner outer => rfl

/-- Positions do not matter to grouping. -/
theorem State.step_bare (state : State) (token : Token) :
    (state.bare.step ⟨token.lexeme, .start⟩).toOption =
      (state.step token).toOption.map State.bare := by
  obtain ⟨lexeme, position⟩ := token
  cases lexeme with
  | leftParenthesis => rfl
  | atom leaf => exact congrArg some (add_bare state (.atom leaf position)).symm
  | rightParenthesis =>
      obtain ⟨opened, top⟩ := state
      cases opened with
      | nil => rfl
      | cons inner outer =>
          refine congrArg some ?_
          rw [add_bare, SExpr.bare_list, List.map_reverse]
          rfl

theorem foldlM_step_bare (state : State) (tokens : List Token) :
    ((tokens.map Token.lexeme).foldlM
        (fun state lexeme => State.step state ⟨lexeme, .start⟩)
        state.bare).toOption =
      (tokens.foldlM State.step state).toOption.map State.bare := by
  induction tokens generalizing state with
  | nil => rfl
  | cons token tokens inductionHypothesis =>
      rw [List.map_cons, List.foldlM_cons, List.foldlM_cons,
        Outcome.toOption_bind, Outcome.toOption_bind, State.step_bare]
      cases state.step token with
      | error fault => rfl
      | ok next => exact inductionHypothesis next

/-- The expressions that lexemes denote, without positions. -/
def groupLexemes? (lexemes : List Lexeme) : Option (List SExpr) :=
  (group (lexemes.map fun lexeme => ⟨lexeme, .start⟩)).toOption

theorem groupLexemes?_of_tokens (tokens : List Token) :
    groupLexemes? (tokens.map Token.lexeme) =
      (group tokens).toOption.map (List.map SExpr.bare) := by
  have run := foldlM_step_bare ⟨[], []⟩ tokens
  rw [groupLexemes?, group, group, List.foldlM_map, Outcome.toOption_bind,
    Outcome.toOption_bind]
  rw [show State.bare ⟨[], []⟩ = ⟨[], []⟩ from rfl] at run
  rw [run]
  cases tokens.foldlM State.step ⟨[], []⟩ with
  | error fault => rfl
  | ok final =>
      obtain ⟨opened, top⟩ := final
      cases opened with
      | nil => exact congrArg some (List.map_reverse ..).symm
      | cons inner outer => rfl

end Reader

namespace Session

/-- What is left of an output is rendered by lexemes: the same cause, or a text
with these lexemes. -/
inductive Renders : Except NoModelCause Text →
  Except NoModelCause (List Lexeme) → Prop
  | error {cause : NoModelCause} : Renders (.error cause) (.error cause)
  | ok {text : Text} {tokens : List Token} : tokenize text = .ok tokens →
      Renders (.ok text) (.ok (tokens.map Token.lexeme))

/-- How a session reads a model of which only the lexemes are known. -/
def readLexemes (session : Session)
    (rendered : Except NoModelCause (List Lexeme)) :
    Except Fault Model × Session :=
  if session.formulaRead then
    match rendered with
    | .error cause => (.error (.noModel cause), session)
    | .ok lexemes =>
      match Reader.groupLexemes? lexemes with
      | none => (.error (.reading ⟨.unclosed, .unknown⟩), session)
      | some expressions => session.readCommands (unwrapModel expressions)
  else (.error .noFormula, session)

/-- A session reads a model by its lexemes alone. -/
theorem readModel_alike (session : Session) {output : Text}
    {rendered : Except NoModelCause (List Lexeme)}
    (renders : Renders (SolverOutput.modelText output) rendered) :
    AlikeResults (session.readLexemes rendered) (session.readModel output) := by
  unfold readLexemes readModel
  split
  · generalize SolverOutput.modelText output = remaining at renders
    cases renders with
    | error => exact ⟨.refl _, rfl⟩
    | @ok text tokens tokenized =>
        dsimp only
        rw [Reader.groupLexemes?_of_tokens, readExpressions, tokenized,
          Outcome.ok_bind]
        cases Reader.group tokens with
        | error fault => exact ⟨alike_error rfl, rfl⟩
        | ok expressions =>
            have alike := readCommands_bare session (unwrapModel expressions)
            rw [← unwrapModel_bare] at alike
            exact alike
  · exact ⟨.refl _, rfl⟩

end Session

end ModelAudit
