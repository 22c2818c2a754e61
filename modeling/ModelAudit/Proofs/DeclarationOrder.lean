import ModelAudit.Proofs.RemovedWrappers
import ModelAudit.Proofs.SettledPair
import ModelAudit.Proofs.UnknownSorts

/-!
# Commands of a formula in a model

A model may hold the commands that a formula holds: declarations of sorts and
symbols, and definitions. They are read as in a formula, with one exception. The
functions of a model are declared in a pass of their own, before anything else
of the model is read, and this pass meets a function's header before the sorts
that the model declares.
-/

namespace ModelAudit

open Outcome

namespace SymbolTable

variable {symbols larger last : SymbolTable} {declaration : Declaration}

theorem Grows.signaturesIn (grown : symbols.Grows last) :
    symbols.SignaturesIn last :=
  fun _ _ found => grown.signature found

theorem SignaturesIn.declare (signatures : larger.SignaturesIn last)
    (same : (symbols.declare declaration).SignaturesIn last) :
    (larger.declare declaration).SignaturesIn last := by
  intro name other found
  rw [lookup?_declare] at found
  split at found
  · next sameName =>
    obtain rfl := Option.some.inj found
    exact same name declaration (by rw [lookup?_declare, if_pos sameName])
  · exact signatures name other found

theorem ExtendedBy.declareSort (extended : symbols.ExtendedBy larger)
    (name : Text) :
    (symbols.declareSort name 0).ExtendedBy (larger.declareSort name 0) where
  sorts other known := by
    rw [SymbolTable.declareSort, Table.find?_insert] at known ⊢
    split at known
    · next same => rw [if_pos same]
    · next differs => rw [if_neg differs, extended.sorts other known]
  aliases := extended.aliases
  signatures := extended.signatures
  unreserved := extended.unreserved

/-- One table stays above the other when both get the same declaration. -/
theorem ExtendedBy.declare (extended : symbols.ExtendedBy larger)
    (declaration : Declaration) :
    (symbols.declare declaration).ExtendedBy (larger.declare declaration) where
  sorts := extended.sorts
  aliases := extended.aliases
  signatures name other found := by
    rw [lookup?_declare] at found ⊢
    split at found
    · next sameName =>
      exact ⟨other, by rw [if_pos sameName, found], rfl, rfl⟩
    · next otherName =>
      rw [if_neg otherName]
      exact extended.signatures name other found
  unreserved name builtin absent := by
    rw [lookup?_declare] at absent ⊢
    split at absent
    · cases absent
    · next differs =>
        rw [if_neg differs, extended.unreserved name builtin absent]

end SymbolTable

namespace Command

open SymbolTable

variable {symbols larger later last bare : SymbolTable} {command : Command}
  {definition : Definition} {declaration : Declaration}
  {definitions : List Definition}

/-! ## Commands over another table -/

/-- Both tables lead to one table, in which the symbol has one signature. -/
theorem DeclaresSymbol.elsewhere {nameExpression : SExpr}
    {arguments : List SmtSort} {result : SmtSort} {kind : DeclarationKind}
    (declares : DeclaresSymbol symbols nameExpression arguments result kind
      declaration later)
    (signatures : larger.SignaturesIn last) (same : later.SignaturesIn last) :
    declareSymbol larger nameExpression arguments result kind =
      .ok (declaration, larger.declare declaration) := by
  refine declareSymbol_eq_ok_iff.mpr ⟨rfl, declares.named, declares.unreserved,
    declares.arguments, declares.result, declares.kind, fun earlier found => ?_⟩
  have declared : later.lookup? declaration.name = some declaration := by
    rw [declares.table, lookup?_declare, if_pos rfl]
  obtain ⟨known, knownFound, earlierArguments, earlierResult⟩ :=
    signatures _ earlier found
  obtain ⟨again, againFound, arguments, result⟩ := same _ declaration declared
  obtain rfl : known = again :=
    Option.some.inj (knownFound.symm.trans againFound)
  exact sameSignature_iff.mpr
    ⟨earlierArguments.symm.trans arguments, earlierResult.symm.trans result⟩

/-- What `declare-fun` and `declare-const` declare, with the sorts as they are
read over every larger table. -/
theorem exists_declares
    (declared : command.declaration? symbols =
      some (.ok (declaration, later))) :
    ∃ nameExpression,
      DeclaresSymbol symbols nameExpression declaration.arguments
        declaration.result .declared declaration later ∧
      ∀ larger, symbols.SortsIn larger → command.declaration? larger =
        some (declareSymbol larger nameExpression declaration.arguments
          declaration.result
          .declared) := by
  obtain ⟨name, _, _, parts⟩ := exists_declarationParts declared
  exact ⟨name, parts.declares, fun larger sortsIn => parts.elsewhere larger _ _
    (readSorts_yields sortsIn _ _ _ parts.arguments)
    (readSort_yields sortsIn _ _ _ parts.result)⟩

theorem declaration?_eq_ok (extended : symbols.ExtendedBy larger)
    (signatures : larger.SignaturesIn last) (same : later.SignaturesIn last)
    (declared : command.declaration? symbols =
      some (.ok (declaration, later))) :
    later = symbols.declare declaration ∧
      command.declaration? larger =
        some (.ok (declaration, larger.declare declaration)) := by
  obtain ⟨_, declares, elsewhere⟩ := exists_declares declared
  exact ⟨declares.table, by
    rw [elsewhere larger extended.toSortsIn,
      declares.elsewhere signatures same]⟩

theorem functionHeader_yields (sortsIn : symbols.SortsIn larger)
    (command : Command) :
    Yields (command.functionHeader symbols)
      (command.functionHeader larger) := by
  unfold functionHeader
  split
  · exact (Yields.refl _).bind fun items =>
      (readSortedNames_yields sortsIn items).bind fun _ =>
      (readSort_yields sortsIn [] _).bind fun _ => .refl _
  · exact .refl _

/-- A definition of a formula is read over a larger table as it was read in the
formula. -/
theorem defineFunction_eq_ok (extended : symbols.ExtendedBy larger)
    (signatures : larger.SignaturesIn last) (same : later.SignaturesIn last)
    (defined : command.defineFunction symbols = .ok (definition, later)) :
    later = symbols.declare definition.declaration ∧
      command.defineFunction larger =
        .ok (definition, larger.declare definition.declaration) := by
  obtain ⟨header, parts⟩ := exists_parts defined
  refine ⟨parts.declares.table, ?_⟩
  rw [defineFunction, functionHeader_yields extended.toSortsIn command _
    parts.read, ok_bind,
    readTerm_yields extended _ _ _ parts.body, ok_bind, if_pos parts.sameSort,
    parts.declares.elsewhere signatures same, ok_bind, ← parts.params]
  rfl

end Command

/-- No sort of the signature is a declared one. -/
def Declaration.IsBuiltin (declaration : Declaration) : Prop :=
  ∀ sort ∈ declaration.result :: declaration.arguments, sort.Ground []

namespace Command

open SymbolTable

variable {symbols larger later last bare : SymbolTable} {command : Command}
  {definition : Definition} {declaration : Declaration}
  {definitions : List Definition}

/-- Before sorts are declared a function is declared if its signature is made of
built-in sorts, and refused for the sort otherwise. -/
theorem registerFunction_unsorted (unsorted : bare.Unsorted)
    (noAliases : symbols.aliases = []) (signatures : bare.SignaturesIn last)
    (same : later.SignaturesIn last)
    (defined : command.defineFunction symbols = .ok (definition, later)) :
    ReturnsIf definition.declaration.IsBuiltin (command.registerFunction bare)
      (bare.declare definition.declaration) := by
  obtain ⟨header, parts⟩ := exists_parts defined
  rw [Declaration.IsBuiltin, parts.declares.arguments, parts.declares.result]
  refine (functionHeader_unsorted unsorted noAliases parts.read).map ?_
  rw [parts.declares.elsewhere signatures same]
  rfl

/-! ## Commands that formulas and models share -/

/-- What a command of a formula does to the symbols, and what it defines, if a
model may hold it as well. -/
inductive Contributes (symbols : SymbolTable) (command : Command) :
    List Definition → SymbolTable → Prop
  | define {definition : Definition} {later : SymbolTable} :
      command.head = ("define-fun" : Text) →
      command.defineFunction symbols = .ok (definition, later) →
      Contributes symbols command [definition] later
  | declareSort {later : SymbolTable} :
      command.head = ("declare-sort" : Text) →
      command.declareSort symbols = .ok later →
      Contributes symbols command [] later
  | declare {declaration : Declaration} {later : SymbolTable} :
      command.head ≠ ("define-fun" : Text) →
      command.head ≠ ("declare-sort" : Text) →
      command.declaration? symbols = some (.ok (declaration, later)) →
      Contributes symbols command [] later

theorem Contributes.step
    (contributes : command.Contributes symbols definitions later)
    (wellFormed : symbols.WellFormed) : symbols.Step later := by
  cases contributes with
  | define _ defined =>
    exact (defines_of_defineFunction wellFormed defined).1.step
  | declareSort _ declared => exact step_of_declareSort declared
  | declare _ _ declared =>
    exact (declares_of_declaration? wellFormed declared).1.step

theorem Contributes.aliases
    (contributes : command.Contributes symbols definitions later)
    (wellFormed : symbols.WellFormed) : later.aliases = symbols.aliases := by
  cases contributes with
  | define _ defined =>
    rw [(defines_of_defineFunction wellFormed defined).1.table]; rfl
  | declareSort _ declared =>
      obtain ⟨name, _, rfl, _⟩ := declareSort_eq_ok declared
      rfl
  | declare _ _ declared =>
    rw [(declares_of_declaration? wellFormed declared).1.table]; rfl

end Command

namespace Session

open SymbolTable

variable {symbols later last : SymbolTable} {expression : SExpr}
  {expressions : List SExpr} {definitions : List Definition}

/-- The commands lead from the one table to the other, and define these
functions. -/
inductive Reads : SymbolTable → List SExpr → List Definition →
  SymbolTable → Prop
  | nil {symbols : SymbolTable} : Reads symbols [] [] symbols
  | cons {symbols middle last : SymbolTable} {expression : SExpr}
      {expressions : List SExpr} {command : Command}
      {definitions others : List Definition} :
      Command.ofExpression expression = .ok command →
      command.Contributes symbols definitions middle →
      Reads middle expressions others last →
      Reads symbols (expression :: expressions) (definitions ++ others) last

theorem Reads.grows (reads : Reads symbols expressions definitions last)
    (wellFormed : symbols.WellFormed) : symbols.Grows last := by
  induction reads with
  | nil => exact .refl
  | cons _ contributes _ inductionHypothesis =>
      have step := contributes.step wellFormed
      exact (Relation.ReflTransGen.single step).trans
        (inductionHypothesis (step.wellFormed wellFormed))

theorem head_of_isModelCommand {command : Command}
    (isCommand : Command.ofExpression expression = .ok command)
    (all : expression.isModelCommand = true) :
    command.head ∈ SExpr.modelHeads := by
  obtain ⟨_, _, headed⟩ := Command.headSymbol?_of_ofExpression isCommand
  rw [SExpr.isModelCommand, headed] at all
  simpa using all

/-- What a formula makes of a command that a model may hold. -/
theorem contributes_of_formulaStep {progress next : FormulaProgress}
    (all : expression.isModelCommand = true)
    (stepped : formulaStep progress expression = .ok next) :
    ∃ command definitions, Command.ofExpression expression = .ok command ∧
      command.Contributes progress.session.symbols definitions
        next.session.symbols ∧
      next.formula.definitions =
        progress.formula.definitions ++ definitions := by
  obtain ⟨command, isCommand, effect⟩ := exists_formulaEffect stepped
  have listed := head_of_isModelCommand isCommand all
  obtain ⟨notIgnored, notAssert, notDefineSort⟩ :
      Command.ignoredHeads.contains command.head = false ∧
        command.head ≠ ("assert" : Text) ∧
        command.head ≠ ("define-sort" : Text) :=
    (by decide : ∀ head ∈ SExpr.modelHeads,
      Command.ignoredHeads.contains head = false ∧
      head ≠ ("assert" : Text) ∧ head ≠ ("define-sort" : Text)) _ listed
  cases effect with
  | ignored ignored =>
    exact absurd (notIgnored.symm.trans ignored) Bool.false_ne_true
  | asserted head _ => exact absurd head notAssert
  | sortDefined head _ => exact absurd head notDefineSort
  | @defined definition _ head read =>
      exact ⟨command, [definition], isCommand, .define head read, rfl⟩
  | sortDeclared head read =>
      exact ⟨command, [], isCommand, .declareSort head read,
        (List.append_nil _).symm⟩
  | declared read =>
      exact ⟨command, [], isCommand,
        .declare (Command.head_ne_of_declaration? read (by decide))
        (Command.head_ne_of_declaration? read (by decide)) read,
          (List.append_nil _).symm⟩

/-- Accepted commands lead from the symbols before them to those after them. -/
theorem reads_of_runAll {progress final : FormulaProgress}
    (all : ∀ expression ∈ expressions, expression.isModelCommand = true)
    (run : runAll formulaStep progress expressions = (none, final)) :
    ∃ definitions,
      Reads progress.session.symbols expressions definitions
        final.session.symbols ∧
      final.formula.definitions =
        progress.formula.definitions ++ definitions := by
  induction expressions generalizing progress with
  | nil =>
      obtain rfl : progress = final := congrArg Prod.snd run
      exact ⟨[], .nil, (List.append_nil _).symm⟩
  | cons expression expressions inductionHypothesis =>
      rw [List.forall_mem_cons] at all
      obtain ⟨next, stepped, runLater⟩ := runAll_cons_eq_none_iff.mp run
      obtain ⟨command, here, isCommand, contributes, added⟩ :=
        contributes_of_formulaStep all.1 stepped
      obtain ⟨others, reads, addedLater⟩ := inductionHypothesis all.2 runLater
      refine ⟨here ++ others, .cons isCommand contributes reads, ?_⟩
      rw [addedLater, added, List.append_assoc]

/-! ## The first pass of a model -/

/-- The session knows no sorts, and of the symbols only such as the table
has. -/
structure Foresees (session : Session) (last : SymbolTable) : Prop where
  unsorted : session.symbols.Unsorted
  signatures : session.symbols.SignaturesIn last

variable {session : Session}

/-- The pass over functions declares what the command defines, unless a declared
sort is in the signature. -/
theorem registerStep_contributes {command : Command}
    (foresees : session.Foresees last) (noAliases : symbols.aliases = [])
    (same : later.SignaturesIn last)
    (isCommand : Command.ofExpression expression = .ok command)
    (contributes : command.Contributes symbols definitions later) :
    ∃ next : Session, next.Foresees last ∧
      next.definitions = session.definitions ∧
      ReturnsIf (∀ definition ∈ definitions, definition.declaration.IsBuiltin)
        (registerStep session expression) next := by
  unfold registerStep
  rw [isCommand, ok_bind]
  cases contributes with
  | @define definition _ head defined =>
      obtain ⟨header, parts⟩ := Command.exists_parts defined
      obtain rfl := parts.declares.table
      refine ⟨{ session with
        symbols := session.symbols.declare definition.declaration },
        ⟨⟨foresees.unsorted.sorts, foresees.unsorted.aliases⟩,
          foresees.signatures.declare same⟩,
        rfl, ?_⟩
      rw [if_pos head, List.forall_mem_singleton]
      exact (Command.registerFunction_unsorted foresees.unsorted noAliases
        foresees.signatures same defined).map rfl
  | declareSort head declared =>
      refine ⟨session, foresees, rfl, ?_⟩
      rw [if_neg (by rw [head]; decide)]
      exact returnsIf_of_eq_ok
        (fun _ member => absurd member List.not_mem_nil) rfl
  | declare notDefine _ declared =>
      refine ⟨session, foresees, rfl, ?_⟩
      rw [if_neg notDefine]
      exact returnsIf_of_eq_ok
        (fun _ member => absurd member List.not_mem_nil) rfl

/-- All functions are declared unless one of their signatures mentions a
declared sort. -/
theorem registerAll_reads (reads : Reads symbols expressions definitions last)
    (wellFormed : symbols.WellFormed) (noAliases : symbols.aliases = [])
    (foresees : session.Foresees last) :
    ((∀ definition ∈ definitions, definition.declaration.IsBuiltin) →
      ∃ next : Session, next.Foresees last ∧
        next.definitions = session.definitions ∧
        runAll registerStep session expressions = (none, next)) ∧
    ((∃ definition ∈ definitions, ¬definition.declaration.IsBuiltin) →
      ∃ name place next,
        runAll registerStep session expressions =
          (some (.undeclaredSort name place), next)) := by
  induction reads generalizing session with
  | nil =>
      exact ⟨fun _ => ⟨session, foresees, rfl, rfl⟩,
        fun ⟨_, member, _⟩ => absurd member List.not_mem_nil⟩
  | @cons symbols middle last expression expressions command here others
      isCommand contributes reads inductionHypothesis =>
      have step := contributes.step wellFormed
      have grown := reads.grows (step.wellFormed wellFormed)
      obtain ⟨next, nextForesees, sameDefinitions, registered⟩ :=
        registerStep_contributes foresees
          noAliases grown.signaturesIn isCommand contributes
      obtain ⟨accepted, refused⟩ :=
        inductionHypothesis (step.wellFormed wellFormed)
          ((contributes.aliases wellFormed).trans noAliases) nextForesees
      rw [runAll]
      constructor
      · intro builtin
        rw [List.forall_mem_append] at builtin
        obtain ⟨final, finalForesees, finalDefinitions, run⟩ :=
          accepted builtin.2
        rw [registered.1 builtin.1]
        exact ⟨final, finalForesees,
          finalDefinitions.trans sameDefinitions, run⟩
      · rintro ⟨definition, member, declared⟩
        by_cases builtin : ∀ definition ∈ here, definition.declaration.IsBuiltin
        · rw [registered.1 builtin]
          rcases List.mem_append.mp member with inside | later
          · exact absurd (builtin definition inside) declared
          · exact refused ⟨definition, later, declared⟩
        · obtain ⟨name, place, missed⟩ := registered.2 builtin
          exact ⟨name, place, session, by rw [missed]⟩

/-! ## The second pass of a model -/

/-- The session knows more symbols than the table, and no symbol that is not in
the last table. No formula has defined any. -/
structure Follows (session : Session) (symbols last : SymbolTable) : Prop where
  extended : symbols.ExtendedBy session.symbols
  signatures : session.symbols.SignaturesIn last
  fresh : session.definitions = []

/-- The pass over commands then accepts the command, and defines what the
formula would. -/
theorem modelStep_contributes {progress : ModelProgress} {command : Command}
    (follows : progress.session.Follows symbols last)
    (same : later.SignaturesIn last)
    (isCommand : Command.ofExpression expression = .ok command)
    (contributes : command.Contributes symbols definitions later) :
    ∃ next, modelStep progress expression = .ok next ∧
      next.session.Follows later last ∧
      next.model.definitions = progress.model.definitions ++ definitions := by
  obtain ⟨extended, signatures, fresh⟩ := follows
  cases contributes with
  | @define definition _ head defined =>
      obtain ⟨rfl, again⟩ :=
        Command.defineFunction_eq_ok extended signatures same defined
      have absent :
          progress.session.definitions.find? definition.name = none := by
        rw [fresh]
        rfl
      have allowed :
          progress.session.requireSameDefinition definition command =
            .ok () := by
        rw [requireSameDefinition, absent]
      refine ⟨_, (ModelEffect.defined head again allowed).modelStep isCommand,
        ⟨extended.declare _, signatures.declare same, fresh⟩, ?_⟩
      rw [Table.has, absent, Option.isSome_none, if_neg Bool.false_ne_true]
  | declareSort head declared =>
      obtain ⟨name, _, rfl, again⟩ := Command.declareSort_eq_ok declared
      exact ⟨_, (ModelEffect.sortDeclared head (again _)).modelStep isCommand,
        ⟨extended.declareSort name, signatures, fresh⟩,
        (List.append_nil _).symm⟩
  | @declare declaration _ _ _ declared =>
      obtain ⟨rfl, again⟩ :=
        Command.declaration?_eq_ok extended signatures same declared
      obtain ⟨_, _, _, parts⟩ := Command.exists_declarationParts again
      have allowed :=
        (requireUndefined_eq_ok_iff parts.introduces).mpr (by rw [fresh]; rfl)
      exact ⟨_, (ModelEffect.declared again allowed).modelStep isCommand,
        ⟨extended.declare _, signatures.declare same, fresh⟩,
        (List.append_nil _).symm⟩

/-- Once its functions are declared, a model is read as a formula is. -/
theorem runAll_modelStep_reads
    (reads : Reads symbols expressions definitions last)
    (wellFormed : symbols.WellFormed) (progress : ModelProgress)
    (follows : progress.session.Follows symbols last) :
    ∃ final, runAll modelStep progress expressions = (none, final) ∧
      final.model.definitions = progress.model.definitions ++ definitions := by
  induction reads generalizing progress with
  | nil => exact ⟨progress, rfl, (List.append_nil _).symm⟩
  | cons isCommand contributes reads inductionHypothesis =>
      have step := contributes.step wellFormed
      have grown := reads.grows (step.wellFormed wellFormed)
      obtain ⟨next, stepped, nextFollows, added⟩ :=
        modelStep_contributes follows grown.signaturesIn isCommand contributes
      obtain ⟨final, run, addedLater⟩ :=
        inductionHypothesis (step.wellFormed wellFormed) next nextFollows
      refine ⟨final, ?_, ?_⟩
      · rw [runAll, stepped]
        exact run
      · rw [addedLater, added, List.append_assoc]

theorem Foresees.follows (foresees : session.Foresees last)
    (fresh : session.definitions = []) (wellFormed : last.WellFormed) :
    session.Follows SymbolTable.empty last where
  extended :=
    ⟨⟨fun _ absent => (nomatch absent), foresees.unsorted.aliases⟩,
      fun _ _ absent => (nomatch absent),
      fun name builtin _ => by
        cases found : session.symbols.lookup? name with
        | none => rfl
        | some declaration =>
            obtain ⟨other, otherFound, _⟩ :=
              foresees.signatures name declaration found
            rw [wellFormed.isBuiltinName_eq_false otherFound] at builtin
            cases builtin⟩
  signatures := foresees.signatures
  fresh := fresh

/-! ## Models with the commands of a formula -/

/-- The session after a formula without commands. -/
def afterNothing : Session :=
  (start.readFormula []).snd

theorem afterNothing_eq : afterNothing = ⟨SymbolTable.empty, true, []⟩ := by
  have nothing : readExpressions [] = .ok [] := by
    rw [readExpressions, tokenize, Lexer.scan, Lexer.scanFrom]
    rfl
  rw [afterNothing, readFormula, nothing]
  rfl

/-- A model with these commands is accepted exactly if no function takes or
returns a declared sort. -/
theorem readCommands_reads
    (reads : Reads SymbolTable.empty expressions definitions last) :
    ((∀ definition ∈ definitions, definition.declaration.IsBuiltin) →
      ∃ declarations, (afterNothing.readCommands expressions).fst =
        .ok ⟨definitions, declarations⟩) ∧
    ((∃ definition ∈ definitions, ¬definition.declaration.IsBuiltin) →
      ∃ name place, (afterNothing.readCommands expressions).fst =
        .error (.undeclaredSort name place)) := by
  rw [afterNothing_eq]
  have foresees : Foresees ⟨SymbolTable.empty, true, []⟩ last :=
    ⟨⟨rfl, rfl⟩, fun _ _ absent => (nomatch absent)⟩
  obtain ⟨accepted, refused⟩ :=
    registerAll_reads reads wellFormed_empty rfl foresees
  unfold readCommands
  constructor
  · intro builtin
    obtain ⟨next, nextForesees, fresh, run⟩ := accepted builtin
    obtain ⟨final, modelRun, added⟩ :=
      runAll_modelStep_reads reads wellFormed_empty
        ⟨next, ⟨[], []⟩⟩
        (nextForesees.follows fresh
          ((reads.grows wellFormed_empty).wellFormed wellFormed_empty))
    rw [run]
    dsimp only
    rw [modelRun]
    obtain ⟨_, ⟨_, declarations⟩⟩ := final
    obtain rfl := added
    exact ⟨declarations, rfl⟩
  · intro declared
    obtain ⟨name, place, next, run⟩ := refused declared
    exact ⟨name, place, by rw [run]⟩

/-- The output has the tokens of the commands, enclosed or not, with whatever
white space and comments around them. -/
def Encloses (output : Text) (enclosure : SolverOutput.Enclosure)
    (commands : List SExpr) : Prop :=
  (tokenize output).toOption.map (List.map Token.lexeme) =
    some (SExpr.lexemesOfAll (enclosure.enclose commands))

instance (output : Text) (enclosure : SolverOutput.Enclosure)
    (commands : List SExpr) :
    Decidable (Encloses output enclosure commands) :=
  inferInstanceAs (Decidable (_ = _))

theorem not_opensWithAnswer_enclosed {commands : List SExpr}
    (all : ∀ command ∈ commands, command.isModelCommand = true)
    (enclosure : SolverOutput.Enclosure) :
    SolverOutput.opensWithAnswer
      (SExpr.lexemesOfAll (enclosure.enclose commands)) = false := by
  cases commands with
  | nil => cases enclosure <;> decide +kernel
  | cons first others =>
      exact SolverOutput.not_opensWithAnswer_enclose
        (List.cons_ne_nil _ _) all enclosure

/-- The output holds these commands, wherever they stand in it. -/
def Carries (output : Text) (commands : List SExpr) : Prop :=
  ∃ held, HoldsCommands output held ∧
    held.map SExpr.bare = commands.map SExpr.bare

/-- An output that opens with commands, enclosed or not, holds them. -/
theorem Encloses.carries {output : Text} {enclosure : SolverOutput.Enclosure}
    {commands : List SExpr} (encloses : Encloses output enclosure commands)
    (all : ∀ command ∈ commands, command.isModelCommand = true) :
    Carries output commands := by
  obtain ⟨tokens, tokenized, lexemes⟩ := Option.map_eq_some_iff.mp encloses
  obtain ⟨outlines, reduced⟩ :=
    Lexer.outlines_of_tokenize (toOption_eq_some_iff.mp tokenized)
  have renders := SolverOutput.renders_modelText outlines
  rw [reduced, lexemes, SolverOutput.remaining_of_not_opensWithAnswer
    (not_opensWithAnswer_enclosed all enclosure)] at renders
  obtain ⟨text, expressions, isText, read, same⟩ :=
    SolverOutput.exists_of_renders renders
  have isCommand : ∀ command ∈ commands, command.isCommand = true :=
    fun command member =>
    SExpr.isCommand_of_isModelCommand (all command member)
  refine ⟨_, ⟨text, expressions, isText, read, rfl⟩, ?_⟩
  rw [← unwrapModel_bare, same, unwrapModel_bare,
    SolverOutput.unwrapModel_enclose isCommand]

/-- However the commands are enclosed, reading the output is reading them. -/
theorem readModel_of_carries {output : Text} {commands : List SExpr}
    (ready : session.formulaRead = true) (carries : Carries output commands) :
    AlikeResults (session.readModel output)
      (session.readCommands commands) := by
  obtain ⟨held, ⟨text, expressions, isText, read, rfl⟩, same⟩ := carries
  have whole :
      session.readModel output = session.readCommands
        (unwrapModel expressions) := by
    rw [readModel, if_pos ready, isText]
    dsimp only
    rw [read]
    rfl
  rw [whole]
  exact readCommands_of_sameBare session same

/-- An output that opens with its commands is read by these commands alone. -/
theorem readModel_encloses {output : Text} {enclosure : SolverOutput.Enclosure}
    {commands : List SExpr} (ready : session.formulaRead = true)
    (all : ∀ command ∈ commands, command.isModelCommand = true)
    (encloses : Encloses output enclosure commands) :
    Alike (session.readCommands commands).fst (session.readModel output).fst :=
  (readModel_of_carries ready (encloses.carries all)).outcome.symm

theorem exists_of_encloses {text : Text} {commands : List SExpr}
    (encloses : Encloses text .nothing commands) :
    ∃ expressions, readExpressions text = .ok expressions ∧
      expressions.map SExpr.bare = commands.map SExpr.bare := by
  obtain ⟨tokens, tokenized, lexemes⟩ := Option.map_eq_some_iff.mp encloses
  have grouped := Reader.groupLexemes?_lexemesOfAll commands
  rw [← show tokens.map Token.lexeme = SExpr.lexemesOfAll commands from lexemes,
    Reader.groupLexemes?_of_tokens] at grouped
  obtain ⟨expressions, read, same⟩ := Option.map_eq_some_iff.mp grouped
  exact ⟨expressions, by rw [readExpressions, toOption_eq_some_iff.mp tokenized,
    ok_bind, toOption_eq_some_iff.mp read], same⟩

theorem isModelCommand_of_bare {expressions commands : List SExpr}
    (same : expressions.map SExpr.bare = commands.map SExpr.bare)
    (all : ∀ command ∈ commands, command.isModelCommand = true) :
    ∀ expression ∈ expressions, expression.isModelCommand = true := by
  have bare (expression : SExpr) :
      expression.bare.isModelCommand = expression.isModelCommand := by
    rw [SExpr.isModelCommand, SExpr.headSymbol?_bare, SExpr.isModelCommand]
  intro expression member
  have inside : expression.bare ∈ commands.map SExpr.bare :=
    same ▸ List.mem_map_of_mem member
  obtain ⟨command, listed, sameBare⟩ := List.mem_map.mp inside
  rw [← bare, ← sameBare, bare]
  exact all command listed

/-- A model with the commands of a formula has the definitions of the formula,
if no function takes or returns a sort that the commands declare. Otherwise it
is refused, for a symbol that is not declared. -/
theorem readModel_commandsOfFormula {text output : Text} {commands : List SExpr}
    {formula : Formula} (enclosure : SolverOutput.Enclosure)
    (all : ∀ command ∈ commands, command.isModelCommand = true)
    (holds : Encloses text .nothing commands)
    (accepted : (start.readFormula text).fst = .ok formula)
    (encloses : Encloses output enclosure commands) :
    ((∀ definition ∈ formula.definitions, definition.declaration.IsBuiltin) →
      ∃ declarations, (afterNothing.readModel output).fst =
        .ok ⟨formula.definitions, declarations⟩) ∧
    ((∃ definition ∈ formula.definitions, ¬definition.declaration.IsBuiltin) →
      ∃ fault, (afterNothing.readModel output).fst = .error fault ∧
        fault.kind = .undeclared) := by
  obtain ⟨expressions, isRead, same⟩ := exists_of_encloses holds
  obtain ⟨final, run, isFormula⟩ : ∃ final,
      runAll formulaStep ⟨start, ⟨[], []⟩⟩ expressions = (none, final) ∧
        final.formula = formula := by
    rw [readFormula, isRead] at accepted
    dsimp only at accepted
    split at accepted
    · cases accepted
    · next final run => exact ⟨final, run, Except.ok.inj accepted⟩
  obtain ⟨definitions, reads, added⟩ :=
    reads_of_runAll (isModelCommand_of_bare same all) run
  obtain rfl : formula.definitions = definitions := isFormula ▸ added
  have ready : afterNothing.formulaRead = true := by rw [afterNothing_eq]
  have alike : Alike (afterNothing.readCommands expressions).fst
      (afterNothing.readModel output).fst :=
    (readCommands_of_sameBare afterNothing same).outcome.trans
      (readModel_encloses ready all encloses)
  obtain ⟨answered, refused⟩ := readCommands_reads reads
  refine ⟨fun builtin => ?_, fun declared => ?_⟩
  · obtain ⟨declarations, answer⟩ := answered builtin
    rw [answer] at alike
    exact ⟨declarations, Alike.eq_ok alike⟩
  · obtain ⟨name, place, refusal⟩ := refused declared
    rw [refusal] at alike
    exact Alike.exists_error alike

/-! ## A function of a declared sort -/

def sortCommand : SExpr :=
  .list [.atom (.symbol "declare-sort" false) .start,
    .atom (.symbol "S" false) .start, .atom (.numeral "0") .start] .start

/-- The definition of a constant function from a sort to truth values. -/
def constantFunction (sort : Text) : SExpr :=
  .list [.atom (.symbol "define-fun" false) .start,
    .atom (.symbol "f" false) .start,
    .list [.list [.atom (.symbol "x" false) .start,
      .atom (.symbol sort false) .start] .start] .start,
    .atom (.symbol "Bool" false) .start,
    .atom (.symbol "true" false) .start] .start

def everywhereTrue (sort : SmtSort) : Definition :=
  ⟨⟨"f", [sort], .bool, .defined⟩, [("x", sort)], .literal (.bool true)⟩

/-- A function of a declared sort is defined in a formula, and not in a model
with the same commands. A function of integers is defined in both. -/
theorem functionOfDeclaredSort_refused :
    (∀ command ∈ [sortCommand, constantFunction "S"],
      command.isModelCommand = true) ∧
    (∀ command ∈ [sortCommand, constantFunction "Int"],
      command.isModelCommand = true) ∧
    Encloses "(declare-sort S 0)(define-fun f ((x S)) Bool true)" .nothing
      [sortCommand, constantFunction "S"] ∧
    Encloses "(declare-sort S 0)(define-fun f ((x Int)) Bool true)" .nothing
      [sortCommand, constantFunction "Int"] ∧
    Encloses "((declare-sort S 0) ; one\n(define-fun f ((x Int)) Bool true))"
      .parentheses [sortCommand, constantFunction "Int"] ∧
    (start.readFormula
        "(declare-sort S 0)(define-fun f ((x S)) Bool true)").fst =
      .ok ⟨[], [everywhereTrue (.simple "S")]⟩ ∧
    (start.readFormula
        "(declare-sort S 0)(define-fun f ((x Int)) Bool true)").fst =
      .ok ⟨[], [everywhereTrue .int]⟩ ∧
    (∃ fault,
      (afterNothing.readModel
          "(declare-sort S 0)(define-fun f ((x S)) Bool true)").fst =
        .error fault ∧ fault.kind = .undeclared) ∧
    ∃ declarations,
      (afterNothing.readModel
        "((declare-sort S 0) ; one\n(define-fun f ((x Int)) Bool true))").fst =
        .ok ⟨[everywhereTrue .int], declarations⟩ := by
  have declaredCommands :
      ∀ command ∈ [sortCommand, constantFunction "S"], command.isModelCommand =
        true := by
    decide +kernel
  have builtinCommands :
      ∀ command ∈ [sortCommand, constantFunction "Int"],
        command.isModelCommand = true := by
    decide +kernel
  have declaredHolds :
      Encloses "(declare-sort S 0)(define-fun f ((x S)) Bool true)" .nothing
      [sortCommand, constantFunction "S"] := by
    decide +kernel
  have builtinHolds :
      Encloses "(declare-sort S 0)(define-fun f ((x Int)) Bool true)" .nothing
      [sortCommand, constantFunction "Int"] := by
    decide +kernel
  have builtinEncloses : Encloses
      "((declare-sort S 0) ; one\n(define-fun f ((x Int)) Bool true))"
        .parentheses
      [sortCommand, constantFunction "Int"] := by
    decide +kernel
  have declaredAccepted :
      (start.readFormula
        "(declare-sort S 0)(define-fun f ((x S)) Bool true)").fst =
        .ok ⟨[], [everywhereTrue (.simple "S")]⟩ :=
    toOption_eq_some_iff.mp (by decide +kernel)
  have builtinAccepted :
      (start.readFormula
        "(declare-sort S 0)(define-fun f ((x Int)) Bool true)").fst =
        .ok ⟨[], [everywhereTrue .int]⟩ :=
    toOption_eq_some_iff.mp (by decide +kernel)
  have declared : ¬(everywhereTrue (.simple "S")).declaration.IsBuiltin := by
    intro builtin
    have ground : (SmtSort.simple "S").Ground [] :=
      builtin _ (by decide +kernel)
    rcases SmtSort.ground_simple_iff.mp ground with basic | absurdity
    · exact absurd basic (by decide)
    · cases absurdity
  have builtin : (everywhereTrue .int).declaration.IsBuiltin := by
    have each : ∀ sort ∈ [SmtSort.bool, SmtSort.int], sort.Ground [] := by
      rw [List.forall_mem_cons, List.forall_mem_singleton]
      exact ⟨.basic (by decide), .basic (by decide)⟩
    exact each
  exact ⟨declaredCommands, builtinCommands, declaredHolds, builtinHolds,
    builtinEncloses, declaredAccepted, builtinAccepted,
    (readModel_commandsOfFormula .nothing declaredCommands declaredHolds
      declaredAccepted declaredHolds).2 ⟨_, List.mem_singleton_self _,
      declared⟩,
    (readModel_commandsOfFormula .parentheses builtinCommands builtinHolds
      builtinAccepted builtinEncloses).1
        (List.forall_mem_singleton.mpr builtin)⟩

end Session

end ModelAudit
