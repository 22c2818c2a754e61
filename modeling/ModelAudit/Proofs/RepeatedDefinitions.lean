import ModelAudit.Proofs.FormulaDefinitions
import ModelAudit.Proofs.StableSignatures

/-!
# Functions that a formula defines more than once

A command that defines a function again is read like the first one, as long as
the signature is the same. The last definition is the one in effect, also for
the assertions before it. So the names of a formula's definitions are different,
and its assertions are judged as they are written, exactly when no command
changes what another has defined.
-/

namespace ModelAudit

namespace SExpr

/-- The name that a `define-fun` command defines. -/
def definedFunction? : SExpr → Option Text :=
  nameAfter? "define-fun"

def isAssertion (expression : SExpr) : Bool :=
  expression.headSymbol? = some ("assert" : Text)

end SExpr

/-- No two of the commands define one function. -/
def DefinesOnce (commands : List SExpr) : Prop :=
  commands.Pairwise fun first second =>
    ∀ name, first.definedFunction? = some name →
      second.definedFunction? ≠ some name

namespace Session

/-- What has been read of a formula after some commands. -/
def progressAfter (commands : List SExpr) : FormulaProgress :=
  (runAll formulaStep ⟨start, ⟨[], []⟩⟩ commands).snd

/-- The definitions in effect where an assertion stands are among those that
count at the end. -/
def JudgedAsWritten (commands : List SExpr)
    (counting : List Definition) : Prop :=
  ∀ before assertion after, commands = before ++ assertion :: after →
    assertion.isAssertion = true →
    effectiveDefinitions (progressAfter before).formula.definitions ⊆ counting

/-- A definition in effect where an assertion stands is not changed by any later
one. -/
def KeepsJudged (commands : List SExpr)
    (definitions : List Definition) : Prop :=
  ∀ before assertion after, commands = before ++ assertion :: after →
    assertion.isAssertion = true →
    ∀ definition ∈ effectiveDefinitions (progressAfter
      before).formula.definitions,
      ∀ last : Definition, last.IsLastIn definitions →
        last.name = definition.name →
        last = definition

/-! ## Definitions of commands -/

variable {progress next final : FormulaProgress}
  {commands before after : List SExpr} {expression : SExpr}

/-- A command that is read adds the definition that it writes, if it writes
one. -/
theorem definitions_of_formulaStep
    (wellFormed : progress.session.symbols.WellFormed)
    (stepped : formulaStep progress expression = .ok next) :
    ∃ added : List Definition,
      next.formula.definitions = progress.formula.definitions ++ added ∧
        added.map Definition.name = expression.definedFunction?.toList := by
  obtain ⟨command, isCommand, effect⟩ := exists_formulaEffect stepped
  obtain ⟨position, shape, headed⟩ :=
    Command.headSymbol?_of_ofExpression isCommand
  have nothing (other : command.head ≠ "define-fun")
      (same : next.formula.definitions = progress.formula.definitions) :
      ∃ added : List Definition,
        next.formula.definitions = progress.formula.definitions ++ added ∧
          added.map Definition.name = expression.definedFunction?.toList :=
    ⟨[], by rw [same, List.append_nil],
      by rw [SExpr.definedFunction?,
        SExpr.nameAfter?_of_other headed other]; rfl⟩
  cases effect with
  | ignored ignored =>
      refine nothing (fun head => ?_) rfl
      rw [head] at ignored
      exact absurd ignored (by decide +kernel)
  | asserted head _ | sortDeclared head _ | sortDefined head _ =>
      exact nothing (by rw [head]; decide +kernel) rfl
  | declared read =>
    exact nothing (Command.head_ne_of_declaration? read (by decide)) rfl
  | @defined definition _ head read =>
      obtain ⟨_, first, name, rest, items, named⟩ :=
        Command.defines_of_defineFunction wellFormed read
      refine ⟨[definition], rfl, ?_⟩
      rw [shape, items] at headed ⊢
      change first.symbol? = some command.head at headed
      rw [head] at headed
      rw [SExpr.definedFunction?, SExpr.nameAfter?_of_head headed, named]
      rfl

/-- The definitions of a formula are those of its commands, in order. -/
theorem definitions_of_runAll (wellFormed : progress.session.symbols.WellFormed)
    (run : runAll formulaStep progress commands = (none, final)) :
    ∃ added : List Definition,
      final.formula.definitions = progress.formula.definitions ++ added ∧
        added.map Definition.name =
          commands.filterMap SExpr.definedFunction? := by
  induction commands generalizing progress with
  | nil =>
      obtain ⟨_, rfl⟩ := Prod.mk.inj run
      exact ⟨[], (List.append_nil _).symm, rfl⟩
  | cons expression others inductionHypothesis =>
      obtain ⟨next, stepped, runLater⟩ := runAll_cons_eq_none_iff.mp run
      obtain ⟨_, _, step⟩ := formulaStep_cases wellFormed stepped
      obtain ⟨first, firstAdded, firstNames⟩ :=
        definitions_of_formulaStep wellFormed stepped
      obtain ⟨rest, restAdded, restNames⟩ :=
        inductionHypothesis (step.grows.wellFormed wellFormed) runLater
      refine ⟨first ++ rest, by rw [restAdded, firstAdded, List.append_assoc],
        ?_⟩
      rw [List.map_append, firstNames, restNames]
      cases named : expression.definedFunction? with
      | none => rw [List.filterMap_cons_none named]; rfl
      | some name => rw [List.filterMap_cons_some named]; rfl

/-- The definitions before a command are the first ones of the formula. -/
theorem definitions_progressAfter
    (run : runAll formulaStep ⟨start, ⟨[], []⟩⟩
      (before ++ expression :: after) = (none, final)) :
    ∃ later, final.formula.definitions =
      (progressAfter before).formula.definitions ++ later := by
  obtain ⟨reached, next, reaching, _⟩ := exists_step_of_runAll run
  rw [runAll_append reaching] at run
  have grown : start.symbols.Grows (progressAfter before).session.symbols :=
    (runAll_formulaStep_grownBy ⟨start, ⟨[], []⟩⟩ wellFormed_start before).grown
  rw [progressAfter, reaching] at grown ⊢
  obtain ⟨later, added, _⟩ :=
    definitions_of_runAll (grown.wellFormed wellFormed_start) run
  exact ⟨later, added⟩

/-! ## Formulas -/

variable {text : Text} {formula : Formula} {session : Session}

/-- The commands define no function twice exactly if the names that they define
are different. -/
theorem definesOnce_iff (commands : List SExpr) :
    DefinesOnce commands ↔
      (commands.filterMap SExpr.definedFunction?).Nodup := by
  rw [DefinesOnce, List.Nodup, List.pairwise_filterMap]
  constructor
  · apply List.Pairwise.imp
    intro first second distinct name firstNamed other secondNamed same
    exact distinct name firstNamed (same ▸ secondNamed)
  · apply List.Pairwise.imp
    intro first second distinct name firstNamed secondNamed
    exact distinct name firstNamed name secondNamed rfl

/-- In a formula that is read, definitions of one name have one signature. -/
theorem sameSignature_of_settled {symbols : SymbolTable}
    (settled : formula.Settled symbols) {left right : Definition}
    (leftMember : left ∈ formula.definitions)
    (rightMember : right ∈ formula.definitions)
    (same : left.name = right.name) :
    left.declaration.sameSignature right.declaration = true := by
  have leftDeclared := (settled.definitions left leftMember).declared
  have rightDeclared := (settled.definitions right rightMember).declared
  exact SymbolTable.sameSignature_iff.mpr
    (leftDeclared.unique (same ▸ rightDeclared))

/-- A model adds no definition of a name that the formula defines, so a name
that the formula defines is defined twice only if the formula defines it
twice. -/
theorem nodup_iff_of_respects {formula : Formula} {model : Model}
    (respects : model.Respects formula) :
    (∀ name, 1 <
      ((formula.definitions ++ model.definitions).map Definition.name).count
          name →
        name ∉ formula.definitions.map Definition.name) ↔
      (formula.definitions.map Definition.name).Nodup := by
  rw [List.nodup_iff_count_le_one]
  have absent (name : Text)
      (defined : name ∈ formula.definitions.map Definition.name) :
      (model.definitions.map Definition.name).count name = 0 := by
    rw [List.count_eq_zero]
    intro member
    obtain ⟨definition, inside, rfl⟩ := List.mem_map.mp member
    exact respects.definitions definition inside defined
  simp only [List.map_append, List.count_append]
  constructor
  · intro fromModel name
    by_contra several
    have defined : name ∈ formula.definitions.map Definition.name :=
      List.count_pos_iff.mp (by omega)
    exact fromModel name (by omega) defined
  · intro single name several defined
    have here := single name
    rw [absent name defined] at several
    omega

/-- The definition in effect of a name that the formula defines is the formula's
last one. -/
theorem mem_effective_iff_of_respects {model : Model}
    (respects : model.Respects formula) {definition last : Definition}
    (isLast : last.IsLastIn formula.definitions)
    (named : last.name = definition.name) :
    definition ∈ effectiveDefinitions
        (formula.definitions ++ model.definitions) ↔
      last = definition := by
  obtain ⟨member, _⟩ := definition_of_find? isLast.find?
  have absent : definition.name ∉ model.definitions.map Definition.name := by
    intro inside
    obtain ⟨other, inside, same⟩ := List.mem_map.mp inside
    exact respects.definitions other inside
      (same.trans named.symm ▸ List.mem_map_of_mem member)
  rw [mem_effectiveDefinitions, find?_definitionTable_append,
    find?_definitionTable_eq_none.mpr absent, Option.none_or, ← named,
    isLast.find?, Option.some.injEq]

/-- Assertions are judged as written exactly if no definition in effect there is
changed by a later one. -/
theorem judgedAsWritten_iff {model : Model}
    (respects : model.Respects final.formula)
    (run : runAll formulaStep ⟨start, ⟨[], []⟩⟩ commands = (none, final)) :
    JudgedAsWritten commands
        (effectiveDefinitions
          (final.formula.definitions ++ model.definitions)) ↔
      KeepsJudged commands final.formula.definitions := by
  constructor
  · intro judged before assertion after split isAssertion definition member last
      isLast named
    exact (mem_effective_iff_of_respects respects isLast named).mp
      (judged before assertion after split isAssertion member)
  · intro kept before assertion after split isAssertion definition member
    obtain ⟨later, extended⟩ := definitions_progressAfter (split ▸ run)
    obtain ⟨earlier, _⟩ :=
      definition_of_find? (mem_effectiveDefinitions.mp member)
    have defined :
        definition.name ∈ final.formula.definitions.map Definition.name := by
      rw [extended]
      exact List.mem_map_of_mem (List.mem_append_left _ earlier)
    obtain ⟨last, isLast, named⟩ := exists_isLastIn defined
    exact (mem_effective_iff_of_respects respects isLast named).mpr
      (kept before assertion after split isAssertion definition member last
        isLast named)

/-- Without repeated names nothing is changed. -/
theorem keepsJudged_of_nodup
    (nodup : (final.formula.definitions.map Definition.name).Nodup)
    (run : runAll formulaStep ⟨start, ⟨[], []⟩⟩ commands = (none, final)) :
    KeepsJudged commands final.formula.definitions := by
  intro before assertion after split _ definition member last isLast named
  obtain ⟨later, extended⟩ := definitions_progressAfter (split ▸ run)
  obtain ⟨earlier, _⟩ :=
    definition_of_find? (mem_effectiveDefinitions.mp member)
  obtain ⟨lastMember, _⟩ := definition_of_find? isLast.find?
  refine List.inj_on_of_nodup_map nodup lastMember ?_ named
  rw [extended]
  exact List.mem_append_left _ earlier

/-- Every command that defines a function adds a definition, and one that
defines it again only has to keep its signature. So the names of the definitions
are different if and only if no two commands define one function, and then only
a model defines a name twice. Assertions are judged under the definitions that
they stand after, whatever model is read, if and only if no definition is
changed after an assertion that follows it. -/
theorem formula_definesOnce_iff
    (read : start.readFormula text = (.ok formula, session)) :
    ∃ commands, readExpressions text = .ok commands ∧
      formula.definitions.map Definition.name =
        commands.filterMap SExpr.definedFunction? ∧
      (∀ left ∈ formula.definitions, ∀ right ∈ formula.definitions,
        left.name = right.name →
        left.declaration.sameSignature right.declaration = true) ∧
      ((formula.definitions.map Definition.name).Nodup ↔ DefinesOnce commands) ∧
      (DefinesOnce commands → KeepsJudged commands formula.definitions) ∧
      ∀ modelOutput pair, readPair text modelOutput = .ok pair →
        pair.formula = formula ∧
        ((∀ name,
            1 < ((formula.definitions ++ pair.model.definitions).map
                Definition.name).count name →
              name ∉ formula.definitions.map Definition.name) ↔
                DefinesOnce commands) ∧
        (JudgedAsWritten commands
            (effectiveDefinitions
              (formula.definitions ++ pair.model.definitions)) ↔
          KeepsJudged commands formula.definitions) := by
  obtain ⟨commands, final, commandsRead, run, rfl⟩ := run_of_readFormula read
  have settled := (readFormula_settled read).formula
  obtain ⟨added, extended, names⟩ := definitions_of_runAll wellFormed_start run
  rw [List.nil_append] at extended
  rw [← extended] at names
  have once : (final.formula.definitions.map Definition.name).Nodup ↔
      DefinesOnce commands := by
    rw [definesOnce_iff, names]
  refine ⟨commands, commandsRead, names, ?_, once, ?_, ?_⟩
  · exact fun left leftMember right rightMember same =>
      sameSignature_of_settled settled leftMember rightMember same
  · exact fun definesOnce => keepsJudged_of_nodup (once.mpr definesOnce) run
  · intro modelOutput pair pairRead
    have respects := (readPair_settled pairRead).respects
    have sameFormula : pair.formula = final.formula := by
      unfold readPair at pairRead
      rw [read] at pairRead
      dsimp only at pairRead
      split at pairRead
      · cases pairRead
      · rw [← Except.ok.inj pairRead]
    rw [sameFormula] at respects
    exact ⟨sameFormula, (nodup_iff_of_respects respects).trans once,
      judgedAsWritten_iff respects run⟩

/-! ## A constant that is defined twice -/

def constantDefinition (value : Nat) : Definition :=
  ⟨⟨"c", [], .int, .defined⟩, [], .literal (.integer value)⟩

/-- The formula that asserts that `c` is one, and defines it as one before and
as two after. -/
def redefinedConstant : Formula where
  assertions :=
    [.application (.operator .equality) [] [.symbol "c" .int,
      .literal (.integer 1)] .bool]
  definitions := [constantDefinition 1, constantDefinition 2]

def redefinedConstantText : Text :=
  "(define-fun c () Int 1)(assert (= c 1))(define-fun c () Int 2)"

/-- Both definitions are read, and the assertion is judged under the second one,
which comes after it. -/
theorem redefinedConstant_judgedOtherwise :
    (readPair redefinedConstantText "").isOk = true ∧
      ∃ commands, readExpressions redefinedConstantText = .ok commands ∧
        ¬DefinesOnce commands ∧
        ∀ modelOutput pair, readPair redefinedConstantText modelOutput =
            .ok pair →
          ¬JudgedAsWritten commands
            (effectiveDefinitions
              (redefinedConstant.definitions ++ pair.model.definitions)) := by
  have read : start.readFormula redefinedConstantText =
      (.ok redefinedConstant, (start.readFormula redefinedConstantText).snd) :=
    Prod.ext (Outcome.toOption_eq_some_iff.mp (by decide +kernel)) rfl
  obtain ⟨commands, commandsRead, names, signatures, once, unchanged, judged⟩ :=
    formula_definesOnce_iff read
  refine ⟨by decide +kernel, commands, commandsRead, ?_,
    fun modelOutput pair pairRead => ?_⟩
  · rw [← once]
    decide +kernel
  · rw [(judged modelOutput pair pairRead).2.2]
    have tested : (readExpressions redefinedConstantText).toOption.map
        (fun commands => commands[1]?.any SExpr.isAssertion &&
          (progressAfter (commands.take 1)).formula.definitions =
            [constantDefinition 1]) =
        some true := by
      decide +kernel
    rw [commandsRead] at tested
    obtain ⟨second, defined⟩ := Bool.and_eq_true_iff.mp (Option.some.inj tested)
    obtain ⟨assertion, found, isAssertion⟩ :=
      Option.any_eq_true _ _ |>.mp second
    obtain ⟨inside, rfl⟩ := List.getElem?_eq_some_iff.mp found
    have split :
        commands = commands.take 1 ++ commands[1] :: commands.drop 2 := by
      rw [← List.drop_eq_getElem_cons inside, List.take_append_drop]
    intro kept
    have same :=
      kept (commands.take 1) commands[1] (commands.drop 2) split isAssertion
        (constantDefinition 1)
        (by rw [of_decide_eq_true defined]; decide +kernel)
        (constantDefinition 2) ⟨[constantDefinition 1], [], rfl,
          List.not_mem_nil⟩ rfl
    exact absurd same (by decide +kernel)

end Session

end ModelAudit
