import ModelAudit.Proofs.RereadDefinitions

/-!
# Models that echo a formula

A model may repeat definitions of the formula. After the sorts of a formula are
defined, what its commands declare extends the table, so a definition that was
read over an earlier table is read again over the last one. It is the formula's
own, and the model adds nothing.
-/

namespace ModelAudit

open Outcome SymbolTable

def SExpr.definesSort (expression : SExpr) : Bool :=
  expression.headSymbol? = some ("define-sort" : Text)

theorem SExpr.isModelCommand_of_isDefinition {expression : SExpr}
    (defines : expression.isDefinition = true) :
    expression.isModelCommand = true := by
  rw [isModelCommand, of_decide_eq_true defines]
  decide

/-- No sort is defined after a function. -/
def SortsFirst (commands : List SExpr) : Prop :=
  commands.Pairwise fun first second =>
    first.isDefinition = true → second.definesSort = false

instance (commands : List SExpr) : Decidable (SortsFirst commands) :=
  inferInstanceAs (Decidable (commands.Pairwise _))

theorem SymbolTable.SignaturesIn.hasSignature {symbols larger : SymbolTable}
    (signatures : symbols.SignaturesIn larger) {name : Text}
    {arguments : List SmtSort}
    {result : SmtSort} (declared : symbols.HasSignature name arguments result) :
    larger.HasSignature name arguments result := by
  obtain ⟨declaration, found, rfl, rfl⟩ := declared
  exact signatures name declaration found

namespace Session

variable {progress next final : FormulaProgress} {commands echoed : List SExpr}
  {expression : SExpr} {last : SymbolTable}

/-! ## Definitions of a formula -/

/-- A command that defines no sort extends the table. -/
theorem formulaStep_extendedBy
    (stepped : formulaStep progress expression = .ok next)
    (noSort : expression.definesSort = false) :
    progress.session.symbols.ExtendedBy next.session.symbols := by
  obtain ⟨command, isCommand, effect⟩ := exists_formulaEffect stepped
  cases effect with
  | ignored _ | asserted _ _ => exact .refl _
  | defined _ read =>
      obtain ⟨header, parts⟩ := Command.exists_parts read
      exact parts.declares.extendedBy
  | sortDeclared _ read =>
      obtain ⟨name, _, rfl, _⟩ := Command.declareSort_eq_ok read
      exact .of_declareSort _ _
  | sortDefined head _ =>
      obtain ⟨_, _, headed⟩ := Command.headSymbol?_of_ofExpression isCommand
      rw [SExpr.definesSort, headed, head] at noSort
      exact absurd noSort (by decide)
  | declared read =>
      obtain ⟨_, _, _, parts⟩ := Command.exists_declarationParts read
      exact parts.declares.extendedBy

/-- A command that defines a function is read as the definition that the formula
gets. -/
theorem readsAs_of_formulaStep
    (stepped : formulaStep progress expression = .ok next)
    (defines : expression.isDefinition = true) :
    ∃ definition, expression.ReadsAs progress.session.symbols definition ∧
      next.session.symbols =
        progress.session.symbols.declare definition.declaration ∧
      next.formula.definitions =
        progress.formula.definitions ++ [definition] := by
  obtain ⟨command, isCommand, effect⟩ := exists_formulaEffect stepped
  obtain ⟨_, _, headed⟩ := Command.headSymbol?_of_ofExpression isCommand
  obtain head : command.head = ("define-fun" : Text) :=
    Option.some.inj (headed.symm.trans (of_decide_eq_true defines))
  obtain ⟨definition, symbols, defined, rfl⟩ := effect.of_definition head
  obtain ⟨header, parts⟩ := Command.exists_parts defined
  obtain rfl := parts.declares.table
  exact ⟨definition, ⟨command, _, isCommand, head, defined⟩, rfl, rfl⟩

/-- Commands that define no sorts only add to the symbols. -/
theorem runAll_formulaStep_extendedBy
    (run : runAll formulaStep progress commands = (none, final))
    (noSorts : ∀ expression ∈ commands, expression.definesSort = false) :
    progress.session.symbols.ExtendedBy final.session.symbols := by
  induction commands generalizing progress with
  | nil =>
      obtain ⟨-, rfl⟩ := Prod.mk.inj run
      exact .refl _
  | cons expression expressions inductionHypothesis =>
      rw [List.forall_mem_cons] at noSorts
      obtain ⟨next, stepped, runLater⟩ := runAll_cons_eq_none_iff.mp run
      exact (formulaStep_extendedBy stepped noSorts.1).trans
        (inductionHypothesis runLater noSorts.2)

/-- Each definition of a formula is read again over the table at the end. -/
theorem exists_rereads_of_runAll
    (wellFormed : progress.session.symbols.WellFormed)
    (run : runAll formulaStep progress commands = (none, final))
    (sortsFirst : SortsFirst commands)
    (member : expression ∈ commands)
    (defines : expression.isDefinition = true) :
    ∃ definition ∈ final.formula.definitions,
      expression.Rereads final.session.symbols definition := by
  induction commands generalizing progress with
  | nil => cases member
  | cons first others inductionHypothesis =>
      obtain ⟨noSorts, sortsFirst⟩ := List.pairwise_cons.mp sortsFirst
      obtain ⟨next, stepped, runLater⟩ := runAll_cons_eq_none_iff.mp run
      obtain ⟨_, _, step⟩ := formulaStep_cases wellFormed stepped
      have nextFormed := step.grows.wellFormed wellFormed
      rcases List.mem_cons.mp member with rfl | later
      · obtain ⟨definition, reads, table, added⟩ :=
          readsAs_of_formulaStep stepped defines
        have extended :=
          runAll_formulaStep_extendedBy runLater fun other listed =>
          noSorts other listed defines
        obtain ⟨rest, kept, _⟩ := definitions_of_runAll nextFormed runLater
        refine ⟨definition, ?_, reads.rereads (table ▸ extended)⟩
        rw [kept, added, List.append_assoc]
        exact List.mem_append_right _ List.mem_cons_self
      · exact inductionHypothesis nextFormed runLater sortsFirst later

/-! ## Definitions that are echoed -/

variable {session later : Session} {definitions : List Definition}

theorem exists_forall₂_of_mem {Element Image : Type}
    {relation : Element → Image → Prop} {allowed : Image → Prop}
    {elements : List Element}
    (each : ∀ element ∈ elements, ∃ image, allowed image ∧
      relation element image) :
    ∃ images, List.Forall₂ relation elements images ∧
      ∀ image ∈ images, allowed image := by
  induction elements with
  | nil => exact ⟨[], .nil, fun _ member => absurd member List.not_mem_nil⟩
  | cons element elements inductionHypothesis =>
      rw [List.forall_mem_cons] at each
      obtain ⟨image, allowedHere, related⟩ := each.1
      obtain ⟨images, relatedAll, allowedAll⟩ := inductionHypothesis each.2
      exact ⟨image :: images, .cons related relatedAll,
        List.forall_mem_cons.mpr ⟨allowedHere, allowedAll⟩⟩

/-- Definitions that the session knows are read again, and nothing is added. -/
theorem readCommands_of_known
    (rereads : List.Forall₂ (SExpr.Rereads session.symbols) echoed definitions)
    (known : ∀ definition ∈ definitions,
      session.definitions.find? definition.name = some definition) :
    ∃ later, session.readCommands echoed = (.ok ⟨[], []⟩, later) ∧
      session.symbols.SignaturesIn later.symbols ∧
      later.symbols.SignaturesIn session.symbols := by
  have declared := hasSignature_of_rereads rereads
  have registering := runAll_registerStep_of_rereads rereads (.refl _) (.refl _)
  obtain ⟨extended, _⟩ := runAll_registerStep_eq_ok registering
  have signatures := (SignaturesIn.refl session.symbols).declareAll declared
  have reads : ({ session with
      symbols := session.symbols.declareAll
        (definitions.map Definition.declaration) } : Session)
      |>.ReadsEntries echoed (definitions.map .definition) :=
    readsEntries_of_rereads rereads extended signatures
      fun definition member earlier found =>
      Option.some.inj (found.symm.trans (known definition member))
  refine ⟨_, readCommands_eq_ok_iff.mpr ⟨_, _, registering, reads, ?_, rfl⟩, ?_,
    ?_⟩
  · have dropped : (definitions.filter fun definition =>
        !session.definitions.has definition.name) = [] := by
      refine List.filter_eq_nil_iff.mpr fun definition member => ?_
      rw [Table.has, known definition member]
      exact Bool.false_ne_true
    simp [modelOf, List.filterMap_map, Function.comp_def, Entry.definition?,
      Entry.declaration?, dropped]
  · rw [foldl_enter]
    exact extended.signatures.trans reads.extendedBy.signatures
  · rw [foldl_enter, foldl_enter_definitions]
    exact signatures.declareAll declared

/-- A definition of a formula without repeated names is the one that is
recorded. -/
theorem find?_of_nodup {formula : Formula} {definition : Definition}
    (settled : FormulaProgress.Settled ⟨session, formula⟩)
    (nodup : (formula.definitions.map Definition.name).Nodup)
    (member : definition ∈ formula.definitions) :
    session.definitions.find? definition.name = some definition := by
  obtain ⟨last, isLast, named⟩ := exists_isLastIn (List.mem_map_of_mem member)
  have found := isLast.find?
  obtain ⟨lastMember, _⟩ := definition_of_find? found
  obtain rfl := List.inj_on_of_nodup_map nodup lastMember member named
  rw [settled.recorded]
  exact found

/-- A model that repeats definitions of a formula adds nothing to it, if the
formula defines each function once and all its sorts before. The definitions
that are repeated may be any, in any order. -/
theorem readModel_echoed {text output : Text}
    {enclosure : SolverOutput.Enclosure} {formula : Formula}
    (read : start.readFormula text = (.ok formula, session))
    (isText : readExpressions text = .ok commands) (once : DefinesOnce commands)
    (sortsFirst : SortsFirst commands) (echoes : echoed ⊆ commands)
    (defines : ∀ expression ∈ echoed, expression.isDefinition = true)
    (encloses : Encloses output enclosure echoed) :
    ∃ later, session.readModel output = (.ok ⟨[], []⟩, later) ∧
      ∀ name arguments result,
        later.symbols.HasSignature name arguments result ↔
        session.symbols.HasSignature name arguments result := by
  have settled := readFormula_settled read
  obtain ⟨_, final, isAlsoText, run, rfl⟩ := run_of_readFormula read
  obtain rfl := Except.ok.inj (isText.symm.trans isAlsoText)
  have sameSession : session = { final.session with formulaRead := true } := by
    rw [readFormula, isText] at read
    dsimp only at read
    rw [run] at read
    exact (congrArg Prod.snd read).symm
  have nodup : (final.formula.definitions.map Definition.name).Nodup := by
    obtain ⟨added, extended, names⟩ :=
      definitions_of_runAll wellFormed_start run
    rw [List.nil_append] at extended
    rw [extended, names]
    exact (definesOnce_iff commands).mp once
  obtain ⟨definitions, rereads, listed⟩ :=
    exists_forall₂_of_mem fun expression member =>
    exists_rereads_of_runAll wellFormed_start run sortsFirst (echoes member)
      (defines expression member)
  have sameSymbols : final.session.symbols = session.symbols := by
    rw [sameSession]
  rw [sameSymbols] at rereads
  obtain ⟨later, echo, kept, same⟩ :=
    readCommands_of_known rereads fun definition member =>
    find?_of_nodup settled nodup (listed definition member)
  have isModel : ∀ expression ∈ echoed, expression.isModelCommand = true :=
    fun expression member =>
      SExpr.isModelCommand_of_isDefinition (defines expression member)
  have ready : session.formulaRead = true := by rw [sameSession]
  exact ⟨later, (readModel_eq_ok_iff ready (encloses.carries isModel)).mpr echo,
    fun name arguments result => ⟨same.hasSignature, kept.hasSignature⟩⟩

/-- Between the definitions a truth value is declared under the name of a
parameter. -/
def shadowedText : Text :=
  "(define-sort I () Int)(define-fun f ((x I)) I x)(declare-const x Bool)(define-fun g () I (f 2))"

/-- The parameter is read again as an integer, and the model adds nothing. -/
theorem shadowedText_echoed :
    ∃ commands formula session, readExpressions shadowedText = .ok commands ∧
      start.readFormula shadowedText = (.ok formula, session) ∧
      DefinesOnce commands ∧ SortsFirst commands ∧
      Encloses "((define-fun f ((x I)) I x) (define-fun g () I (f 2)))"
        .parentheses (commands.filter SExpr.isDefinition) ∧
      ∃ later, session.readModel
          "((define-fun f ((x I)) I x) (define-fun g () I (f 2)))" =
            (.ok ⟨[], []⟩, later) ∧
        ∀ name arguments result,
          later.symbols.HasSignature name arguments result ↔
          session.symbols.HasSignature name arguments result := by
  have tested : (readExpressions shadowedText).toOption.map (fun commands =>
      decide (commands.filterMap SExpr.definedFunction?).Nodup && decide
        (SortsFirst commands) &&
        decide
          (Encloses "((define-fun f ((x I)) I x) (define-fun g () I (f 2)))"
          .parentheses (commands.filter SExpr.isDefinition))) = some true := by
    decide +kernel
  have accepted :
      (start.readFormula shadowedText).fst.toOption.isSome = true := by
        decide +kernel
  obtain ⟨commands, isText, tested⟩ := Option.map_eq_some_iff.mp tested
  simp only [Bool.and_eq_true, decide_eq_true_eq] at tested
  obtain ⟨⟨nodup, sortsFirst⟩, encloses⟩ := tested
  have isText := toOption_eq_some_iff.mp isText
  have once := (definesOnce_iff commands).mpr nodup
  obtain ⟨formula, accepted⟩ := Option.isSome_iff_exists.mp accepted
  have read : start.readFormula shadowedText = (.ok formula, _) :=
    Prod.ext (toOption_eq_some_iff.mp accepted) rfl
  exact ⟨commands, formula, _, isText, read, once, sortsFirst, encloses,
    readModel_echoed read isText once sortsFirst
      (List.filter_subset_self commands)
      (fun _ member => (List.mem_filter.mp member).2) encloses⟩

end Session

end ModelAudit
