import Mathlib.Data.List.Perm.Basic
import ModelAudit.Proofs.RereadDefinitions

/-!
# The order of definitions in a model

Functions of a model may be defined in any order, if each is defined once and
all declarations come before. A pass of its own declares the functions first, so
every body is read over a table with the same signatures, whatever stands before
it.
-/

namespace ModelAudit

open Outcome SymbolTable

namespace SymbolTable

variable {symbols other : SymbolTable}

theorem ExtendedBy.of_signatures (sortsIn : symbols.SortsIn other)
    (forth : symbols.SignaturesIn other) (back : other.SignaturesIn symbols) :
    symbols.ExtendedBy other where
  toSortsIn := sortsIn
  signatures := forth
  unreserved name _ absent := by
    cases found : other.lookup? name with
    | none => rfl
    | some declaration =>
        obtain ⟨known, knownFound, _⟩ := back name declaration found
        rw [absent] at knownFound
        cases knownFound

theorem SignaturesIn.of_lookup?
    (same : ∀ name, symbols.lookup? name = other.lookup? name) :
    symbols.SignaturesIn other :=
  fun name declaration found => ⟨declaration, same name ▸ found, rfl, rfl⟩

end SymbolTable

namespace Session

variable {session registered later : Session}
  {declarations definitions permuted : List SExpr} {entries : List Entry}
  {model : Model}

/-! ## Declarations before definitions -/

/-- A declaration of a symbol is a command that neither defines a function nor
declares a sort. -/
theorem exists_of_isDeclaration {expression : SExpr}
    (declares : expression.isDeclaration = true) :
    ∃ command, Command.ofExpression expression = .ok command ∧
      command.head ≠ ("define-fun" : Text) ∧
      command.head ≠ ("declare-sort" : Text) := by
  have other (head : Text) (headed : expression.headSymbol? = some head)
      (differs : head ≠ ("define-fun" : Text) ∧
        head ≠ ("declare-sort" : Text)) :
      ∃ command, Command.ofExpression expression = .ok command ∧
        command.head ≠ ("define-fun" : Text) ∧
        command.head ≠ ("declare-sort" : Text) := by
    cases expression with
    | atom _ _ => cases headed
    | list items position =>
        refine ⟨⟨head, items, .list items position⟩, ?_, differs⟩
        rw [Command.ofExpression, headed]
  rcases Bool.or_eq_true_iff.mp declares with function | constant
  · exact other _ (of_decide_eq_true function) (by decide)
  · exact other _ (of_decide_eq_true constant) (by decide)

/-- The first pass skips declarations. -/
theorem runAll_registerStep_of_isDeclaration (session : Session)
    (declaring : ∀ expression ∈ declarations, expression.isDeclaration = true) :
    runAll registerStep session declarations = (none, session) := by
  induction declarations with
  | nil => rfl
  | cons expression expressions inductionHypothesis =>
      rw [List.forall_mem_cons] at declaring
      obtain ⟨command, isCommand, notDefine, _⟩ :=
        exists_of_isDeclaration declaring.1
      have skipped : registerStep session expression = .ok session :=
        registerStep_eq_ok_iff.mpr ⟨command, isCommand, .inr ⟨notDefine, rfl⟩⟩
      rw [runAll, skipped]
      exact inductionHypothesis declaring.2

/-- The entries of declarations are declarations. -/
theorem ReadsEntries.declared
    (reads : session.ReadsEntries declarations entries)
    (declaring : ∀ expression ∈ declarations, expression.isDeclaration = true) :
    ∃ declared : List Declaration, entries = declared.map .declaration := by
  induction reads with
  | nil => exact ⟨[], rfl⟩
  | cons here _ inductionHypothesis =>
      rw [List.forall_mem_cons] at declaring
      obtain ⟨declared, rfl⟩ := inductionHypothesis declaring.2
      obtain ⟨command, isCommand, notDefine, notDeclareSort⟩ :=
        exists_of_isDeclaration declaring.1
      cases here with
      | declaration _ _ _ _ _ => exact ⟨_ :: declared, rfl⟩
      | sort otherCommand head _ =>
          obtain rfl := Except.ok.inj (isCommand.symm.trans otherCommand)
          exact absurd head notDeclareSort
      | definition reads _ =>
          obtain ⟨other, _, otherCommand, head, _⟩ := reads
          obtain rfl := Except.ok.inj (isCommand.symm.trans otherCommand)
          exact absurd head notDefine

/-! ## What is read of them -/

variable {declared : List Declaration} {defined : List Definition}
  {last : SymbolTable}

def afterSignatures (session : Session) (defined : List Definition) : Session :=
  { session with
    symbols := session.symbols.declareAll (defined.map Definition.declaration) }

/-- The session after the declarations of the model as well. -/
def afterDeclarations (session : Session) (declared : List Declaration)
    (defined : List Definition) : Session :=
  { session with
    symbols := (session.afterSignatures defined).symbols.declareAll declared }

/-- The session after the whole model. -/
def afterDefinitions (session : Session) (declared : List Declaration)
    (defined : List Definition) : Session :=
  (session.afterDeclarations declared defined).afterSignatures defined

/-- The declarations and the definitions are read as these, and all of them fit
a last table. The order of the definitions is left open by all that is said of
them. -/
structure Fits (session : Session) (last : SymbolTable)
    (declarations definitions : List SExpr) (declared : List Declaration)
    (defined : List Definition) : Prop where
  sortsIn : last.SortsIn session.symbols
  signatures : session.symbols.SignaturesIn last
  reads : (session.afterSignatures defined).ReadsEntries declarations
      (declared.map .declaration)
  entered : (session.afterDeclarations declared defined).symbols.SignaturesIn
      last
  known : last.SignaturesIn (session.afterDeclarations declared defined).symbols
  rereads : List.Forall₂ (SExpr.Rereads last) definitions defined
  allowed : ∀ definition ∈ defined, ∀ earlier,
    session.definitions.find? definition.name = some earlier →
    earlier = definition

theorem names_of_rereads
    (rereads : List.Forall₂ (SExpr.Rereads last) definitions defined) :
    definitions.filterMap SExpr.definedFunction? =
      defined.map Definition.name := by
  induction rereads with
  | nil => rfl
  | cons here _ inductionHypothesis =>
      rw [List.filterMap_cons_some here.reads.definedFunction?,
        inductionHypothesis]
      rfl

/-- A model of declarations and definitions is read as what fits. -/
theorem Fits.readCommands
    (fits : session.Fits last declarations definitions declared defined)
    (declares : ∀ expression ∈ declarations, expression.isDeclaration = true) :
    session.readCommands (declarations ++ definitions) =
      (.ok ⟨defined.filter fun definition =>
        !session.definitions.has definition.name, declared⟩,
        session.afterDefinitions declared defined) := by
  have sortsIn :
      last.SortsIn (session.afterDeclarations declared defined).symbols :=
    (fits.sortsIn.to_declareAll _).to_declareAll declared
  have registering : runAll registerStep session (declarations ++ definitions) =
      (none, session.afterSignatures defined) :=
    runAll_append_eq_none_iff.mpr
      ⟨session, runAll_registerStep_of_isDeclaration session declares,
      runAll_registerStep_of_rereads fits.rereads fits.sortsIn fits.signatures⟩
  have reads :
      (session.afterSignatures defined).ReadsEntries
        (declarations ++ definitions)
      (declared.map .declaration ++ defined.map .definition) := by
    refine readsEntries_append_iff.mpr ⟨_, _, rfl, fits.reads, ?_⟩
    rw [foldl_enter, foldl_enter_declarations]
    exact readsEntries_of_rereads fits.rereads
      (.of_signatures sortsIn fits.known fits.entered) fits.entered fits.allowed
  refine readCommands_eq_ok_iff.mpr ⟨_, _, registering, reads, ?_, ?_⟩
  · simp [modelOf, afterSignatures, List.filterMap_append, List.filterMap_map,
      Function.comp_def, Entry.definition?, Entry.declaration?]
  · rw [foldl_enter, List.foldl_append, foldl_enter_declarations,
      foldl_enter_definitions]
    rfl

/-- What the two passes over a model of declarations and definitions find. -/
theorem parts_of_readCommands
    (declares : ∀ expression ∈ declarations, expression.isDeclaration = true)
    (defines : ∀ expression ∈ definitions, expression.isDefinition = true)
    (read : session.readCommands (declarations ++ definitions) =
      (.ok model, later)) :
    ∃ symbols declared defined,
      runAll registerStep session definitions =
        (none, { session with symbols }) ∧
      session.symbols.ExtendedBy symbols ∧
      later.symbols.SortsIn session.symbols ∧
      ({ session with symbols } : Session).ReadsEntries declarations
        (declared.map .declaration) ∧
      later.symbols = (symbols.declareAll declared).declareAll
        (defined.map Definition.declaration) ∧
      (symbols.declareAll declared).ExtendedBy later.symbols ∧
      List.Forall₂ (SExpr.Rereads later.symbols) definitions defined ∧
      ∀ definition ∈ defined, ∀ earlier,
        session.definitions.find? definition.name = some earlier →
        earlier = definition := by
  obtain ⟨registered, entries, registering, reads, rfl, rfl⟩ :=
    readCommands_eq_ok_iff.mp read
  obtain ⟨front, back, rfl, readsFront, readsBack⟩ :=
    readsEntries_append_iff.mp reads
  obtain ⟨reached, skipped, registering⟩ :=
    runAll_append_eq_none_iff.mp registering
  obtain rfl : session = reached := congrArg Prod.snd
    ((runAll_registerStep_of_isDeclaration session declares).symm.trans skipped)
  obtain ⟨grown, signatures, rfl⟩ := runAll_registerStep_eq_ok registering
  obtain ⟨declared, rfl⟩ := readsFront.declared declares
  rw [foldl_enter] at readsBack
  obtain ⟨defined, rfl, rereads, allowed⟩ := readsBack.rereads defines (.refl _)
  have extended := readsBack.extendedBy
  simp only [foldl_enter, List.foldl_append, foldl_enter_declarations,
    foldl_enter_definitions]
    at extended rereads ⊢
  have sortsIn :=
    (((SortsIn.refl session.symbols).declareAll signatures).declareAll declared
      |>.declareAll (defined.map Definition.declaration))
  exact ⟨_, declared, defined, registering, grown, sortsIn, readsFront, rfl,
    extended, rereads, allowed⟩

/-- Whatever is read of a model of declarations and definitions fits the table
at the end. -/
theorem exists_fits
    (declares : ∀ expression ∈ declarations, expression.isDeclaration = true)
    (defines : ∀ expression ∈ definitions, expression.isDefinition = true)
    (once : DefinesOnce definitions)
    (read : session.readCommands (declarations ++ definitions) =
      (.ok model, later)) :
    ∃ declared defined,
      session.Fits later.symbols declarations definitions declared defined := by
  obtain ⟨symbols, declared, defined, registering, grown, sortsIn, reads, table,
    extended, rereads, allowed⟩ := parts_of_readCommands declares defines read
  have entered := reads.extendedBy.signatures
  rw [foldl_enter_declarations] at entered
  have signatures := grown.signatures.trans (entered.trans extended.signatures)
  -- The functions that the first pass declares are those that the second pass
  -- defines.
  obtain rfl :
      session.symbols.declareAll (defined.map Definition.declaration) =
        symbols :=
    congrArg (fun run => run.snd.symbols)
      ((runAll_registerStep_of_rereads rereads sortsIn signatures).symm.trans
        registering)
  refine ⟨declared, defined, sortsIn, signatures, reads, extended.signatures,
    ?_, rereads, allowed⟩
  rw [table]
  refine (SignaturesIn.refl _).declareAll fun declaration member => ?_
  refine entered _ declaration (lookup?_declareAll_of_mem ?_ member)
  rw [List.map_map]
  exact names_of_rereads rereads ▸ (definesOnce_iff definitions).mp once

theorem lookup?_afterSignatures (session : Session) {others : List Definition}
    (rereads : List.Forall₂ (SExpr.Rereads last) definitions defined)
    (once : DefinesOnce definitions) (permutes : others.Perm defined)
    (name : Text) :
    (session.afterSignatures defined).symbols.lookup? name =
      (session.afterSignatures others).symbols.lookup? name := by
  refine lookup?_declareAll_of_perm (permutes.symm.map _) ?_ name
  rw [List.map_map]
  exact names_of_rereads rereads ▸ (definesOnce_iff definitions).mp once

/-- The definitions of what fits may be permuted. -/
theorem Fits.permute
    (fits : session.Fits last declarations definitions declared defined)
    (once : DefinesOnce definitions) (permutes : permuted.Perm definitions) :
    ∃ others, others.Perm defined ∧
      session.Fits last declarations permuted declared others := by
  obtain ⟨others, rereads, permutesDefined⟩ :=
    List.perm_comp_forall₂ permutes fits.rereads
  have sameSigned :=
    lookup?_afterSignatures session fits.rereads once permutesDefined
  have sameDeclared := lookup?_declareAll_congr sameSigned declared
  have extended : (session.afterSignatures defined).symbols.ExtendedBy
      (session.afterSignatures others).symbols := by
    exact .of_signatures
      (((SortsIn.refl session.symbols).declareAll _).to_declareAll _)
      (.of_lookup? sameSigned)
        (.of_lookup? fun name => (sameSigned name).symm)
  refine ⟨others, permutesDefined, fits.sortsIn, fits.signatures, ?_, ?_, ?_,
    rereads, ?_⟩
  · refine fits.reads.extend extended
      (fits.signatures.declareAll (hasSignature_of_rereads rereads)) ?_
    rw [foldl_enter_declarations]
    exact fits.entered
  · exact (SignaturesIn.of_lookup? fun name => (sameDeclared name).symm).trans
      fits.entered
  · exact fits.known.trans (.of_lookup? sameDeclared)
  · exact fun definition member =>
      fits.allowed definition (permutesDefined.mem_iff.mp member)

/-! ## Models up to order -/

/-- The models have the same definitions, one for each name, and the same
declarations in the same order. The sessions know every symbol alike. -/
structure AgreeUpToOrder (model other : Model) (later otherLater : Session) :
    Prop where
  definitions : model.definitions.Perm other.definitions
  definition :
      ∀ name, (model.definitions.find? fun definition =>
        definition.name = name) =
    other.definitions.find? fun definition => definition.name = name
  declarations : model.declarations = other.declarations
  symbols : ∀ name, later.symbols.lookup? name = otherLater.symbols.lookup? name

theorem find?_eq_some_iff_of_nodup (nodup : (defined.map Definition.name).Nodup)
    {name : Text} {definition : Definition} :
    (defined.find? fun other => other.name = name) = some definition ↔
      definition ∈ defined ∧ definition.name = name := by
  constructor
  · intro found
    exact ⟨List.mem_of_find?_eq_some found,
      by simpa using List.find?_some found⟩
  · rintro ⟨member, rfl⟩
    have isSome :
      (defined.find? fun other => other.name = definition.name).isSome = true :=
      List.find?_isSome.mpr ⟨definition, member, decide_eq_true rfl⟩
    obtain ⟨other, found⟩ := Option.isSome_iff_exists.mp isSome
    have same : other.name = definition.name := by
      simpa using List.find?_some found
    rw [found, List.inj_on_of_nodup_map nodup
      (List.mem_of_find?_eq_some found) member same]

theorem find?_of_perm {others : List Definition}
    (permutes : defined.Perm others)
    (nodup : (defined.map Definition.name).Nodup) (name : Text) :
    (defined.find? fun definition => definition.name = name) =
      others.find? fun definition => definition.name = name := by
  refine Option.ext fun definition => ?_
  rw [find?_eq_some_iff_of_nodup nodup,
    find?_eq_some_iff_of_nodup ((permutes.map _).nodup_iff.mp nodup),
    permutes.mem_iff]

/-- A model with permuted definitions is read as well, up to the order. -/
theorem exists_readCommands_of_perm
    (declares : ∀ expression ∈ declarations, expression.isDeclaration = true)
    (defines : ∀ expression ∈ definitions, expression.isDefinition = true)
    (once : DefinesOnce definitions) (permutes : permuted.Perm definitions)
    (read : session.readCommands (declarations ++ definitions) =
      (.ok model, later)) :
    ∃ other otherLater, session.readCommands (declarations ++ permuted) =
        (.ok other, otherLater) ∧
      AgreeUpToOrder model other later otherLater := by
  obtain ⟨declared, defined, fits⟩ := exists_fits declares defines once read
  obtain ⟨others, permutesDefined, fitsOthers⟩ := fits.permute once permutes
  obtain ⟨isModel, rfl⟩ :=
    Prod.mk.inj (read.symm.trans (fits.readCommands declares))
  obtain rfl := Except.ok.inj isModel
  have kept := permutesDefined.symm.filter fun definition =>
    !session.definitions.has definition.name
  have names : (defined.map Definition.name).Nodup :=
    names_of_rereads fits.rereads ▸ (definesOnce_iff definitions).mp once
  refine ⟨_, _, fitsOthers.readCommands declares, kept, find?_of_perm kept ?_,
    rfl, fun name => ?_⟩
  · exact names.sublist (List.filter_sublist.map _)
  · have sameDeclared := lookup?_declareAll_congr
      (lookup?_afterSignatures session fits.rereads once permutesDefined)
      declared
    calc (session.afterDefinitions declared defined).symbols.lookup? name
        = ((session.afterDeclarations declared others).afterSignatures
          defined).symbols.lookup?
            name := lookup?_declareAll_congr sameDeclared _ name
      _ = (session.afterDefinitions declared others).symbols.lookup? name :=
          lookup?_afterSignatures _ fits.rereads once permutesDefined name

/-- The order in which a model defines its functions makes no difference, as
long as each is defined once and the declarations come first. -/
theorem readModel_permuted {output otherOutput : Text}
    (ready : session.formulaRead = true)
    (declares : ∀ expression ∈ declarations, expression.isDeclaration = true)
    (defines : ∀ expression ∈ definitions, expression.isDefinition = true)
    (once : DefinesOnce definitions) (permutes : permuted.Perm definitions)
    (carries : Carries output (declarations ++ definitions))
    (otherCarries : Carries otherOutput (declarations ++ permuted)) :
    ((∃ model, (session.readModel output).fst = .ok model) ↔
        ∃ model, (session.readModel otherOutput).fst = .ok model) ∧
      ∀ model later other otherLater, session.readModel output =
          (.ok model, later) →
        session.readModel otherOutput = (.ok other, otherLater) →
        AgreeUpToOrder model other later otherLater := by
  have otherDefines : ∀ expression ∈ permuted, expression.isDefinition = true :=
    fun expression member => defines expression (permutes.mem_iff.mp member)
  have otherOnce : DefinesOnce permuted := by
    rw [definesOnce_iff] at once ⊢
    exact (permutes.filterMap _).nodup_iff.mpr once
  have results {text : Text} {model : Model}
      (read : (session.readModel text).fst = .ok model) :
      session.readModel text = (.ok model, (session.readModel text).snd) :=
    Prod.ext read rfl
  refine ⟨⟨?_, ?_⟩, fun model later other otherLater read otherRead => ?_⟩
  · rintro ⟨model, read⟩
    obtain ⟨other, _, otherRead, _⟩ :=
      exists_readCommands_of_perm declares defines once permutes
        ((readModel_eq_ok_iff ready carries).mp (results read))
    exact ⟨other, congrArg Prod.fst
      ((readModel_eq_ok_iff ready otherCarries).mpr otherRead)⟩
  · rintro ⟨other, otherRead⟩
    obtain ⟨model, _, read, _⟩ :=
      exists_readCommands_of_perm declares otherDefines otherOnce
        permutes.symm
        ((readModel_eq_ok_iff ready otherCarries).mp (results otherRead))
    exact ⟨model, congrArg Prod.fst
      ((readModel_eq_ok_iff ready carries).mpr read)⟩
  · obtain ⟨found, foundLater, foundRead, agree⟩ :=
      exists_readCommands_of_perm declares defines
        once permutes ((readModel_eq_ok_iff ready carries).mp read)
    have same :=
      foundRead.symm.trans
        ((readModel_eq_ok_iff ready otherCarries).mp otherRead)
    obtain ⟨isModel, rfl⟩ := Prod.mk.inj same
    obtain rfl := Except.ok.inj isModel
    exact agree

def integerDeclaration : SExpr :=
  .list [.atom (.symbol "declare-fun" false) .start,
    .atom (.symbol "c" false) .start, .list [] .start,
    .atom (.symbol "Int" false) .start] .start

def callingDefinition : SExpr :=
  .list [.atom (.symbol "define-fun" false) .start,
    .atom (.symbol "f" false) .start, .list [] .start,
    .atom (.symbol "Int" false) .start,
    .list [.atom (.symbol "g" false) .start, .atom (.symbol "c" false) .start]
      .start] .start

def calledDefinition : SExpr :=
  .list [.atom (.symbol "define-fun" false) .start,
    .atom (.symbol "g" false) .start,
    .list [.list [.atom (.symbol "x" false) .start,
      .atom (.symbol "Int" false) .start] .start] .start,
    .atom (.symbol "Int" false) .start, .atom (.symbol "x" false) .start] .start

/-- A function is called before it is defined, and after. -/
theorem callingDefinition_permuted :
    ∃ model later other otherLater,
      afterNothing.readModel
        "((declare-fun c () Int)(define-fun f () Int (g c))(define-fun g ((x Int)) Int x))" =
          (.ok model, later) ∧
      afterNothing.readModel
        "((declare-fun c () Int)(define-fun g ((x Int)) Int x)(define-fun f () Int (g c)))" =
          (.ok other, otherLater) ∧
      model.definitions.length = 2 ∧ model.declarations.length = 1 ∧
      AgreeUpToOrder model other later otherLater := by
  have encloses : Encloses
      "((declare-fun c () Int)(define-fun f () Int (g c))(define-fun g ((x Int)) Int x))"
      .parentheses
        ([integerDeclaration] ++ [callingDefinition, calledDefinition]) := by
    decide +kernel
  have otherEncloses : Encloses
      "((declare-fun c () Int)(define-fun g ((x Int)) Int x)(define-fun f () Int (g c)))"
      .parentheses
        ([integerDeclaration] ++ [calledDefinition, callingDefinition]) := by
    decide +kernel
  have counted : ((afterNothing.readModel
      "((declare-fun c () Int)(define-fun f () Int (g c))(define-fun g ((x Int)) Int x))").fst
      |>.toOption.map fun model =>
        (model.definitions.length, model.declarations.length)) =
        some (2, 1) := by
    decide +kernel
  obtain ⟨model, accepted, lengths⟩ := Option.map_eq_some_iff.mp counted
  obtain ⟨two, one⟩ := Prod.mk.inj lengths
  have once : DefinesOnce [callingDefinition, calledDefinition] :=
    (definesOnce_iff _).mpr (by decide)
  have ready : afterNothing.formulaRead = true := by rw [afterNothing_eq]
  obtain ⟨sameOutcome, agree⟩ :=
    readModel_permuted ready (by decide) (by decide) once
      (.swap callingDefinition calledDefinition [])
      (encloses.carries (by decide))
      (otherEncloses.carries (by decide))
  obtain ⟨other, otherAccepted⟩ :=
    sameOutcome.mp ⟨model, toOption_eq_some_iff.mp accepted⟩
  have read : afterNothing.readModel
      "((declare-fun c () Int)(define-fun f () Int (g c))(define-fun g ((x Int)) Int x))" =
        (.ok model, _) :=
    Prod.ext (toOption_eq_some_iff.mp accepted) rfl
  have otherRead : afterNothing.readModel
      "((declare-fun c () Int)(define-fun g ((x Int)) Int x)(define-fun f () Int (g c)))" =
        (.ok other, _) :=
    Prod.ext otherAccepted rfl
  exact ⟨model, _, other, _, read, otherRead, two, one,
    agree _ _ _ _ read otherRead⟩

end Session

end ModelAudit
