import ModelAudit.Proofs.FormulaDefinitions
import ModelAudit.Proofs.JoinedTexts

/-!
# Formulas on lines of their own

A session reads two texts joined by a line feed as it reads the first and then
the second: both ways fail, or both give the same assertions, the same
definitions and the same session. A step looks at what was declared before and
never at what the formula holds already, so the second text is read alike
whether the first belongs to the same formula or was a formula of its own.
-/

namespace ModelAudit

open Outcome

/-! ## Formulas without positions -/

namespace Command

variable (symbols : SymbolTable) (command : Command)

theorem defineSort_bare :
    Alike (command.defineSort symbols) (command.bare.defineSort symbols) := by
  obtain ⟨head, items, expression⟩ := command
  match items with
  | [_, nameExpression, paramList, bodyExpression] =>
      exact (readSymbol_bare _ nameExpression).bind fun _ =>
        (parameterItems_bare head _ paramList).bindMap fun params =>
          (mapM_alike params (readSymbol_bare _)).bind fun _ =>
            (readSort_bare symbols _ bodyExpression).bind fun _ => .refl _
  | [] | [_] | [_, _] | [_, _, _] | _ :: _ :: _ :: _ :: _ :: _ =>
    exact wrongCount_alike _ _ _ _

theorem readAssertion_bare :
    Alike (command.readAssertion symbols)
      (command.bare.readAssertion symbols) := by
  obtain ⟨head, items, expression⟩ := command
  match items with
  | [_, assertion] =>
      refine (readTerm_bare symbols assertion []).bind fun term => ?_
      split
      · exact .refl _
      · exact mismatch_alike _ _ _
  | [] | [_] | _ :: _ :: _ :: _ => exact wrongCount_alike _ _ _ _

end Command

namespace Session

theorem formulaStep_bare (progress : FormulaProgress) (expression : SExpr) :
    Alike (formulaStep progress expression)
      (formulaStep progress expression.bare) := by
  obtain ⟨session, formula⟩ := progress
  refine (Command.ofExpression_bare expression).bindMap fun command => ?_
  have sameHead : command.bare.head = command.head := rfl
  dsimp only
  rw [sameHead]
  split
  · exact .refl _
  split
  · exact (Command.readAssertion_bare session.symbols command).bind fun _ =>
      .refl _
  split
  · exact (Command.defineFunction_bare session.symbols command).bind fun _ =>
      .refl _
  split
  · exact (Command.declareSort_bare session.symbols command).bind fun _ =>
      .refl _
  split
  · exact (Command.defineSort_bare session.symbols command).bind fun _ =>
      .refl _
  · have declares := Command.declaration?_bare session.symbols command
    generalize Command.declaration? session.symbols command = declared
      at declares ⊢
    generalize Command.declaration? session.symbols command.bare = bareDeclared
      at declares ⊢
    cases declares with
    | none => exact unsupported_alike _ _ _ _
    | some declared => exact declared.bind fun _ => .refl _

section Commands

variable (session : Session)

def readFormulaCommands (commands : List SExpr) :
    Except Fault Formula × Session :=
  match runAll formulaStep ⟨session, ⟨[], []⟩⟩ commands with
  | (some fault, progress) => (.error fault, progress.session)
  | (none, progress) =>
    (.ok progress.formula, { progress.session with formulaRead := true })

theorem readFormula_eq_readFormulaCommands {text : Text} {commands : List SExpr}
    (read : readExpressions text = .ok commands) :
    session.readFormula text = session.readFormulaCommands commands := by
  rw [readFormula, read]
  rfl

theorem readFormulaCommands_bare (commands : List SExpr) :
    AlikeResults (session.readFormulaCommands (commands.map SExpr.bare))
      (session.readFormulaCommands commands) := by
  unfold readFormulaCommands
  rcases runAll_bare_cases formulaStep_bare ⟨session, ⟨[], []⟩⟩ commands with
    ⟨progress, run, bareRun⟩ |
    ⟨fault, other, progress, run, bareRun, sameKind⟩
  · rw [run, bareRun]
    exact ⟨.refl _, rfl⟩
  · rw [run, bareRun]
    exact ⟨alike_error sameKind, rfl⟩

/-- Commands that differ in their positions are read alike. -/
theorem readFormulaCommands_of_sameBare {commands others : List SExpr}
    (same : commands.map SExpr.bare = others.map SExpr.bare) :
    AlikeResults (session.readFormulaCommands commands)
      (session.readFormulaCommands others) := by
  have alike := readFormulaCommands_bare session commands
  rw [same] at alike
  exact alike.symm.trans (readFormulaCommands_bare session others)

end Commands

/-! ## Progress behind another formula -/

/-- The progress after a formula that was read before, with that formula in
front. Whether some formula has been read to its end is as given. -/
def FormulaProgress.behind (front : Formula) (formulaRead : Bool)
    (progress : FormulaProgress) : FormulaProgress where
  session := { progress.session with formulaRead }
  formula := ⟨front.assertions ++ progress.formula.assertions,
    front.definitions ++ progress.formula.definitions⟩

variable {session later : Session} {first second : Text} {formula : Formula}
  {expressions others : List SExpr}

/-- A command does the same behind a formula that has been read before, with
that formula in front. -/
theorem formulaStep_behind (front : Formula) (formulaRead : Bool)
    (progress : FormulaProgress) (expression : SExpr) :
    formulaStep (progress.behind front formulaRead) expression =
      (formulaStep progress expression).map (.behind front formulaRead) := by
  obtain ⟨session, formula⟩ := progress
  unfold formulaStep
  dsimp only [FormulaProgress.behind]
  cases Command.ofExpression expression with
  | error fault => rfl
  | ok command =>
      simp only [ok_bind]
      split
      · rfl
      split
      · cases command.readAssertion session.symbols with
        | error fault => rfl
        | ok term => simp [FormulaProgress.behind]
      split
      · cases command.defineFunction session.symbols with
        | error fault => rfl
        | ok defined => simp [FormulaProgress.behind]
      split
      · cases command.declareSort session.symbols with
        | error fault => rfl
        | ok symbols => rfl
      split
      · cases command.defineSort session.symbols with
        | error fault => rfl
        | ok symbols => rfl
      · cases command.declaration? session.symbols with
        | none => rfl
        | some declared =>
            cases declared with
            | error fault => rfl
            | ok declared => rfl

theorem runAll_map {State : Type} {step : State → SExpr → Except Fault State}
    (image : State → State)
    (commutes : ∀ state expression, step (image state) expression =
      (step state expression).map image) (state : State)
    (expressions : List SExpr) :
    runAll step (image state) expressions =
      ((runAll step state expressions).fst,
        image (runAll step state expressions).snd) := by
  induction expressions generalizing state with
  | nil => rfl
  | cons expression expressions inductionHypothesis =>
      rw [runAll, runAll, commutes]
      cases step state expression with
      | error fault => rfl
      | ok next => exact inductionHypothesis next

/-- The rest of a formula is read as a formula of its own, behind what was read
before. -/
theorem runAll_formulaStep_behind (reached : FormulaProgress)
    (expressions : List SExpr) :
    runAll formulaStep reached expressions =
      let alone :=
  runAll formulaStep ⟨{ reached.session with formulaRead := true }, ⟨[], []⟩⟩
        expressions
      (alone.fst, alone.snd.behind reached.formula
        reached.session.formulaRead) := by
  have shifted :=
    runAll_map (FormulaProgress.behind reached.formula
      reached.session.formulaRead)
    (formulaStep_behind _ _) ⟨{ reached.session with formulaRead := true },
      ⟨[], []⟩⟩ expressions
  have whole :
      FormulaProgress.behind reached.formula reached.session.formulaRead
      ⟨{ reached.session with formulaRead := true }, ⟨[], []⟩⟩ = reached := by
    simp [FormulaProgress.behind]
  rwa [whole] at shifted

/-- How reading a formula ends when its expressions are known. -/
theorem readFormula_eq_ok_iff (encloses : Encloses first .nothing expressions) :
    session.readFormula first = (.ok formula, later) ↔
      ∃ final, runAll formulaStep ⟨session, ⟨[], []⟩⟩ expressions =
          (none, final) ∧
        formula = final.formula ∧
        later = { final.session with formulaRead := true } := by
  obtain ⟨read, isRead, same⟩ := exists_of_encloses encloses
  rw [readFormula_eq_readFormulaCommands session isRead,
    (readFormulaCommands_of_sameBare session same).eq_ok_iff,
    readFormulaCommands]
  rcases runAll formulaStep ⟨session, ⟨[], []⟩⟩ expressions
    with ⟨_ | fault, final⟩
  · simp [eq_comm]
  · simp

/-- Reading two texts on lines of their own is reading the first and then the
second. -/
theorem readFormula_joined (firstRead : readExpressions first = .ok expressions)
    (secondRead : readExpressions second = .ok others) :
    session.readFormula (first ++ CodePoint.ofChar '\n' :: second) =
        (.ok formula, later) ↔
      ∃ front middle back, session.readFormula first = (.ok front, middle) ∧
        middle.readFormula second = (.ok back, later) ∧
        formula = ⟨front.assertions ++ back.assertions,
          front.definitions ++ back.definitions⟩ := by
  have firstEncloses := encloses_of_read firstRead
  have secondEncloses := encloses_of_read secondRead
  rw [readFormula_eq_ok_iff (firstEncloses.join secondEncloses)]
  constructor
  · rintro ⟨final, run, rfl, rfl⟩
    obtain ⟨reached, front, back⟩ := runAll_append_eq_none_iff.mp run
    rw [runAll_formulaStep_behind] at back
    rcases alone :
      runAll formulaStep ⟨{ reached.session with formulaRead := true },
        ⟨[], []⟩⟩
      others with ⟨fault, last⟩
    rw [alone] at back
    obtain ⟨rfl, rfl⟩ := Prod.mk.inj back
    exact ⟨_, _, _, (readFormula_eq_ok_iff firstEncloses).mpr
      ⟨reached, front, rfl, rfl⟩,
      (readFormula_eq_ok_iff secondEncloses).mpr ⟨last, alone, rfl, rfl⟩, rfl⟩
  · rintro ⟨front, middle, back, firstFormula, secondFormula, rfl⟩
    obtain ⟨reached, run, rfl, rfl⟩ :=
      (readFormula_eq_ok_iff firstEncloses).mp firstFormula
    obtain ⟨last, alone, rfl, rfl⟩ :=
      (readFormula_eq_ok_iff secondEncloses).mp secondFormula
    have rest := runAll_formulaStep_behind reached others
    rw [alone] at rest
    exact ⟨_, runAll_append_eq_none_iff.mpr ⟨reached, run, rest⟩, rfl, rfl⟩

/-- A name between bars that holds a line feed, and a comment at the end that is
not closed. -/
def commentedText : Text :=
  "(declare-const |a\nb| String)(assert (= |a\nb| \"\"\"\")) ; and"

def definedText : Text :=
  "(define-fun f ((x Int)) Int x)(assert (= (f 1) 1))"

/-- The comment ends at the line feed between the two texts, so both are
read. -/
theorem commentedText_joined :
    (∃ expressions, readExpressions commentedText = .ok expressions) ∧
    (∃ others, readExpressions definedText = .ok others) ∧
    ∃ formula later,
      start.readFormula
          (commentedText ++ CodePoint.ofChar '\n' :: definedText) =
        (.ok formula, later) ∧
      ∃ front middle back, start.readFormula commentedText =
          (.ok front, middle) ∧
        middle.readFormula definedText = (.ok back, later) ∧
        formula = ⟨front.assertions ++ back.assertions,
          front.definitions ++ back.definitions⟩ ∧
        formula.assertions.length = 2 := by
  have firstRead : (readExpressions commentedText).toOption.isSome = true := by
    decide +kernel
  have secondRead : (readExpressions definedText).toOption.isSome = true := by
    decide +kernel
  have counted :
      ((start.readFormula
        (commentedText ++ CodePoint.ofChar '\n' :: definedText)).fst
      |>.toOption.map fun formula => formula.assertions.length) = some 2 := by
    decide +kernel
  obtain ⟨expressions, firstRead⟩ := Option.isSome_iff_exists.mp firstRead
  obtain ⟨others, secondRead⟩ := Option.isSome_iff_exists.mp secondRead
  have firstRead := toOption_eq_some_iff.mp firstRead
  have secondRead := toOption_eq_some_iff.mp secondRead
  obtain ⟨formula, accepted, two⟩ := Option.map_eq_some_iff.mp counted
  have read : start.readFormula
      (commentedText ++ CodePoint.ofChar '\n' :: definedText) =
      (.ok formula, _) :=
    Prod.ext (toOption_eq_some_iff.mp accepted) rfl
  obtain ⟨front, middle, back, frontRead, backRead, same⟩ :=
    (readFormula_joined firstRead secondRead).mp read
  exact ⟨⟨expressions, firstRead⟩, ⟨others, secondRead⟩, formula, _, read,
    front, middle, back, frontRead, backRead, same, two⟩

end Session

end ModelAudit
