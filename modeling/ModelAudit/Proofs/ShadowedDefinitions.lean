import ModelAudit.Proofs.AddedDefinitions
import ModelAudit.Proofs.ShadowedElements

/-!
# Shadowed definitions

A model may define a name several times, and the last definition counts. It may
stand at the place of the first one as well, without the others: the symbols are
the same in the same order, and so are the definitions in effect. Only the kinds
of symbols may differ, which no theory mentions.
-/

namespace ModelAudit

open Outcome SymbolTable Shadowing

/-! ## Tables up to the kinds of symbols -/

/-- The declaration of a symbol that is declared, whatever kind it is of. -/
def Declaration.asDeclared (declaration : Declaration) : Declaration :=
  { declaration with kind := .declared }

namespace SymbolTable

variable {symbols other : SymbolTable} {name : Text}
  {declarations : List Declaration}

/-- The tables differ in the kinds of symbols at most. -/
structure AgreesUpToKinds (symbols other : SymbolTable) : Prop where
  sorts : other.sorts = symbols.sorts
  names : other.declarations.names = symbols.declarations.names
  declarations : other.declarations.values.map Declaration.asDeclared =
    symbols.declarations.values.map Declaration.asDeclared

/-- Tables with the same names and signatures differ in kinds at most. -/
theorem agreesUpToKinds_of_signaturesIn (sorts : other.sorts = symbols.sorts)
    (names : other.declarations.names = symbols.declarations.names)
    (signatures : other.SignaturesIn symbols) (wellFormed : symbols.WellFormed)
    (otherWellFormed : other.WellFormed)
    (nodup : symbols.declarations.names.Nodup) :
    symbols.AgreesUpToKinds other where
  sorts := sorts
  names := names
  declarations := by
    have looked (name : Text) :
        (other.declarations.find? name).map Declaration.asDeclared =
        (symbols.declarations.find? name).map Declaration.asDeclared := by
      cases found : other.declarations.find? name with
      | none =>
          have absent := Table.find?_eq_none_iff.mp found
          rw [Table.find?_eq_none_iff.mpr (names ▸ absent)]
      | some declaration =>
          obtain ⟨known, knownFound, arguments, result⟩ :=
            signatures name declaration found
          have sameName := (wellFormed.names name known knownFound).trans
            (otherWellFormed.names name declaration found).symm
          rw [show symbols.declarations.find? name = some known from knownFound,
            Option.map_some, Option.map_some, Declaration.asDeclared,
            Declaration.asDeclared, sameName, arguments, result]
    refine List.map_injective_iff.mpr (fun _ _ => Option.some.inj) ?_
    rw [List.map_map, List.map_map]
    calc other.declarations.values.map (fun declaration =>
      some declaration.asDeclared)
        = other.declarations.names.map fun name =>
            (other.declarations.find? name).map Declaration.asDeclared :=
          Table.map_values_of_nodup (names ▸ nodup) _
      _ = symbols.declarations.names.map fun name =>
            (symbols.declarations.find? name).map Declaration.asDeclared := by
          simp only [names, looked]
      _ = symbols.declarations.values.map
        (fun declaration => some declaration.asDeclared) :=
          (Table.map_values_of_nodup nodup _).symm

theorem declareAll_eq_insertAll (symbols : SymbolTable)
    (declarations : List Declaration) :
    symbols.declareAll declarations = { symbols with
      declarations := symbols.declarations.insertAll
        (declarations.map fun declaration => (declaration.name, declaration))
        } := by
  induction declarations generalizing symbols with
  | nil => rfl
  | cons declaration declarations inductionHypothesis =>
      exact inductionHypothesis (symbols.declare declaration)

theorem mem_names_declareAll :
    name ∈ (symbols.declareAll declarations).declarations.names ↔
      name ∈ symbols.declarations.names ∨
      name ∈ declarations.map Declaration.name := by
  induction declarations generalizing symbols with
  | nil => exact (or_iff_left List.not_mem_nil).symm
  | cons declaration declarations inductionHypothesis =>
      have here : name ∈ (symbols.declare declaration).declarations.names ↔
          name = declaration.name ∨ name ∈ symbols.declarations.names :=
        Table.mem_names_insert
      calc name ∈ ((symbols.declare declaration).declareAll
        declarations).declarations.names
          ↔ name ∈ (symbols.declare declaration).declarations.names ∨
              name ∈ declarations.map Declaration.name := inductionHypothesis
        _ ↔ name ∈ symbols.declarations.names ∨
              name ∈ (declaration :: declarations).map Declaration.name := by
          rw [here, List.map_cons, List.mem_cons, or_left_comm, or_assoc]

end SymbolTable

namespace Obligation

variable {symbols other : SymbolTable} {pair otherPair : Session.Pair}

theorem mapM_fixedSymbol_asDeclared (words : Translation.Vocabulary)
    (declarations : List Declaration) :
    (declarations.map Declaration.asDeclared).mapM (fixedSymbol words) =
      declarations.mapM (fixedSymbol words) := by
  rw [List.mapM_map]
  rfl

theorem usedDeclarations_asDeclared (symbols : SymbolTable)
    (reached : List Text) (kept : List Definition) :
    (usedDeclarations symbols reached kept).map Declaration.asDeclared =
      let used :=
  (symbols.declarations.values.map Declaration.asDeclared).filter
        fun declaration =>
          reached.contains declaration.name && !isBuiltinName declaration.name
      (used.filter fun declaration =>
        !(kept.map Definition.name).contains declaration.name) ++
        used.filter fun declaration =>
          (kept.map Definition.name).contains declaration.name := by
  simp only [usedDeclarations, List.map_append, List.filter_map]
  rfl

/-- The obligation of a pair says nothing of the kinds of symbols, and of the
model nothing but the definitions in effect and the declarations. -/
theorem ofPair_congr (operators : OperatorTable)
    (formula : otherPair.formula = pair.formula)
    (inEffect : definitionsInEffect otherPair.formula otherPair.model =
      definitionsInEffect pair.formula pair.model)
    (declarations : otherPair.model.declarations = pair.model.declarations)
    (agrees : pair.symbols.AgreesUpToKinds otherPair.symbols) :
    ofPair operators otherPair = ofPair operators pair := by
  obtain ⟨_, model, symbols⟩ := pair
  obtain ⟨_, otherModel, otherSymbols⟩ := otherPair
  obtain rfl := formula
  dsimp only at inEffect declarations agrees
  have words :
      vocabulary operators otherSymbols = vocabulary operators symbols := by
    rw [vocabulary, vocabulary, userSorts, userSorts, agrees.sorts]
  have scope :
      Translation.rootScope otherSymbols = Translation.rootScope symbols := by
    rw [Translation.rootScope, Translation.rootScope, agrees.names]
  have fixed (words : Translation.Vocabulary) (reached : List Text)
      (kept : List Definition) :
      (usedDeclarations otherSymbols reached kept).mapM (fixedSymbol words) =
        (usedDeclarations symbols reached kept).mapM (fixedSymbol words) := by
    rw [← mapM_fixedSymbol_asDeclared,
      ← mapM_fixedSymbol_asDeclared words (usedDeclarations _ _ _),
      usedDeclarations_asDeclared, usedDeclarations_asDeclared,
      agrees.declarations]
  simp only [ofPair, reached, inEffect, words, scope, fixed, declarations]

end Obligation

/-! ## Entries without the shadowed ones -/

namespace Entry

/-- The sort that the entry declares, with the number of its arguments. -/
def sortPair? : Entry → Option (Text × Nat)
  | .sort name => some (name, 0)
  | .declaration _ | .definition _ => none

/-- What definitions do not say is said by the entries without the shadowed
ones. -/
theorem filterMap_unshadowed {Image : Type} {image : Entry → Option Image}
    (silent : ∀ definition, image (.definition definition) = none)
    (entries : List Entry) :
    (unshadowed definedName? entries).filterMap image =
      entries.filterMap image := by
  refine Shadowing.filterMap_unshadowed (fun entry named => ?_) entries
  cases entry with
  | sort _ | declaration _ => cases named
  | definition definition => exact silent definition

end Entry

namespace SymbolTable

variable {symbols other : SymbolTable} {entries : List Entry}

theorem sorts_foldl_enter (symbols : SymbolTable) (entries : List Entry) :
    (entries.foldl enter symbols).sorts =
      symbols.sorts.insertAll (entries.filterMap Entry.sortPair?) := by
  induction entries generalizing symbols with
  | nil => rfl
  | cons entry entries inductionHypothesis =>
      rw [List.foldl_cons, inductionHypothesis]
      cases entry <;> rfl

/-- Definitions of names that have their places leave the names as they are. -/
theorem names_foldl_enter
    (same : symbols.declarations.names = other.declarations.names)
    (placed : ∀ name ∈ entries.filterMap Entry.definedName?,
      name ∈ symbols.declarations.names) :
    (entries.foldl enter symbols).declarations.names =
      (other.declareAll
        (entries.filterMap Entry.declaration?)).declarations.names := by
  induction entries generalizing symbols other with
  | nil => exact same
  | cons entry entries inductionHypothesis =>
      cases entry with
      | sort sort => exact inductionHypothesis same placed
      | declaration declaration =>
          have sameNames : (symbols.declare declaration).declarations.names =
              (other.declare declaration).declarations.names := by
            rw [declare, declare, Table.names_insert, Table.names_insert, same]
          exact inductionHypothesis sameNames fun name member =>
            Table.mem_names_insert.mpr (.inr (placed name member))
      | definition definition =>
          obtain ⟨here, later⟩ := List.forall_mem_cons.mp placed
          have kept :
              (symbols.declare definition.declaration).declarations.names =
              symbols.declarations.names :=
            (Table.names_insert _ _ _).trans (if_pos here)
          exact inductionHypothesis (kept.trans same) (kept.symm ▸ later)

theorem declareAll_unshadowed (symbols : SymbolTable) (entries : List Entry) :
    symbols.declareAll
        ((unshadowed Entry.definedName? entries).filterMap Entry.function?) =
      symbols.declareAll (entries.filterMap Entry.function?) := by
  have keyed (entry : Entry) :
      ((entry.function?.map fun declaration => (declaration.name,
        declaration)).map Prod.fst) =
        entry.definedName?.filter fun _ => true := by
    cases entry <;> rfl
  rw [declareAll_eq_insertAll, declareAll_eq_insertAll, List.map_filterMap,
    List.map_filterMap, insertAll_unshadowed keyed]

end SymbolTable

namespace Session

variable {session later otherLater : Session} {commands : List SExpr}
  {entries : List Entry} {model other : Model}

/-- After the first pass all functions have their places, and only declarations
add names. -/
theorem names_registered (symbols : SymbolTable) (entries : List Entry) :
    (entries.foldl SymbolTable.enter
        (symbols.declareAll
          (entries.filterMap Entry.function?))).declarations.names =
      ((symbols.declareAll (entries.filterMap Entry.function?)).declareAll
        (entries.filterMap Entry.declaration?)).declarations.names := by
  refine names_foldl_enter rfl fun name member =>
    mem_names_declareAll.mpr (.inr ?_)
  rw [List.map_filterMap]
  have same : (fun entry : Entry => entry.function?.map Declaration.name) =
      Entry.definedName? := by
    funext entry
    cases entry <;> rfl
  rwa [same]

/-- Whatever is defined before, the same definitions are in effect. -/
theorem effectiveDefinitions_unshadowed (session : Session)
    (before : List Definition) (entries : List Entry) :
    effectiveDefinitions
        (before ++ (session.modelOf
          (unshadowed Entry.definedName? entries)).definitions) =
      effectiveDefinitions
        (before ++ (session.modelOf entries).definitions) := by
  have keyed (entry : Entry) :
      (((entry.definition?.filter fun definition =>
        !session.definitions.has definition.name).map
        fun definition => (definition.name, definition)).map Prod.fst) =
        entry.definedName?.filter fun name =>
          !session.definitions.has name := by
    cases entry with
    | sort _ | declaration _ => rfl
    | definition definition =>
        cases has : session.definitions.has definition.name <;>
          simp [Entry.definition?, Entry.definedName?, Option.filter_some, has]
  simp only [effectiveDefinitions, modelOf, List.map_append,
    Table.ofPairs_append, List.filter_filterMap, List.map_filterMap]
  rw [insertAll_unshadowed keyed]

/-- The model without shadowed definitions agrees with the model in everything
but these and the kinds of symbols. -/
structure Unshadows (model other : Model) (symbols otherSymbols : SymbolTable) :
    Prop where
  inEffect : ∀ before, effectiveDefinitions (before ++ other.definitions) =
    effectiveDefinitions (before ++ model.definitions)
  declarations : other.declarations = model.declarations
  sorts : otherSymbols.sorts = symbols.sorts
  names : otherSymbols.declarations.names = symbols.declarations.names
  signatures : otherSymbols.SignaturesIn symbols

/-- Commands without shadowed definitions are read as the same model up to these
definitions. -/
theorem readCommands_unshadowed
    (read : session.readCommands commands = (.ok model, later))
    (otherRead : session.readCommands
        (unshadowed SExpr.definedFunction? commands) =
      (.ok other, otherLater)) :
    Unshadows model other later.symbols otherLater.symbols := by
  obtain ⟨registered, entries, registering, reads, rfl, rfl⟩ :=
    readCommands_eq_ok_iff.mp read
  obtain ⟨otherRegistered, others, otherRegistering, othersRead, rfl, rfl⟩ :=
    readCommands_eq_ok_iff.mp otherRead
  obtain ⟨grown, _, rfl⟩ := runAll_registerStep_eq_ok registering
  have known := reads.knows (.refl _)
  have othersKnown :=
    forall₂_unshadowed (fun _ _ known => known.reads.definedFunction?) known
  have sortsIn := (grown.trans reads.extendedBy).toSortsIn
  -- Both first passes lead to one table.
  have sameRegistered := runAll_registerStep_of_knows registering sortsIn known
  have sameTable := declareAll_unshadowed session.symbols entries
  obtain rfl :=
    runAll_registerStep_of_knows otherRegistering sortsIn othersKnown
  rw [sameRegistered] at reads known othersKnown ⊢
  rw [sameTable] at othersRead ⊢
  obtain ⟨rfl, extended⟩ := othersRead.eq_of_knows reads.extendedBy othersKnown
  have declarations :
      (unshadowed Entry.definedName? entries).filterMap Entry.declaration? =
      entries.filterMap Entry.declaration? :=
    Entry.filterMap_unshadowed (fun _ => rfl) entries
  have sorts :
      (unshadowed Entry.definedName? entries).filterMap Entry.sortPair? =
      entries.filterMap Entry.sortPair? :=
    Entry.filterMap_unshadowed (fun _ => rfl) entries
  rw [foldl_enter, foldl_enter]
  refine ⟨fun before => effectiveDefinitions_unshadowed session before entries,
    declarations, ?_, ?_, extended.signatures⟩
  · rw [sorts_foldl_enter, sorts_foldl_enter, sorts]
  · have names :=
      names_registered session.symbols (unshadowed Entry.definedName? entries)
    rw [declareAll_unshadowed, declarations] at names
    exact names.trans (names_registered session.symbols entries).symm

/-! ## Pairs -/

variable {formulaText output otherOutput : Text} {pair otherPair : Pair}

/-- Definitions of a model that later ones shadow leave no trace in the theory:
instead of the first definition of each name the model may hold the last one,
and none after it. -/
theorem theory_of_unshadowed (carries : Carries output commands)
    (otherCarries : Carries otherOutput
      (unshadowed SExpr.definedFunction? commands))
    (read : readPair formulaText output = .ok pair)
    (otherRead : readPair formulaText otherOutput = .ok otherPair) :
    effectiveDefinitions otherPair.model.definitions =
        effectiveDefinitions pair.model.definitions ∧
      Obligation.definitionsInEffect otherPair.formula otherPair.model =
        Obligation.definitionsInEffect pair.formula pair.model ∧
      ∀ operators config,
        (Obligation.ofPair operators otherPair).map
            (fun obligation => obligation.theory config) =
          (Obligation.ofPair operators pair).map fun obligation =>
            obligation.theory config := by
  obtain ⟨session, later, formulaRead, modelRead, symbols⟩ :=
    exists_of_readPair read
  obtain ⟨_, otherLater, again, otherModelRead, otherSymbols⟩ :=
    exists_of_readPair otherRead
  obtain ⟨sameFormula, rfl⟩ := Prod.mk.inj (formulaRead.symm.trans again)
  have ready := formulaRead_of_readFormula formulaRead
  have unshadows := readCommands_unshadowed
    ((readModel_eq_ok_iff ready carries).mp modelRead)
    ((readModel_eq_ok_iff ready otherCarries).mp otherModelRead)
  have settled := readPair_settled read
  have agrees : pair.symbols.AgreesUpToKinds otherPair.symbols :=
    agreesUpToKinds_of_signaturesIn (symbols ▸ otherSymbols ▸ unshadows.sorts)
      (symbols ▸ otherSymbols ▸ unshadows.names)
      (symbols ▸ otherSymbols ▸ unshadows.signatures)
      settled.wellFormed (readPair_settled otherRead).wellFormed
      (settled.reached.nodup_names List.nodup_nil)
  have formula : otherPair.formula = pair.formula :=
    (Except.ok.inj sameFormula).symm
  have inEffect :
      Obligation.definitionsInEffect otherPair.formula otherPair.model =
      Obligation.definitionsInEffect pair.formula pair.model := by
    rw [formula]
    exact unshadows.inEffect pair.formula.definitions
  refine ⟨unshadows.inEffect [], inEffect, fun operators config => ?_⟩
  rw [Obligation.ofPair_congr operators formula inEffect
    unshadows.declarations agrees]

def layeredFormula : Text :=
  "(declare-const c Int)(define-fun h () Int 0)(assert (= c h))"

/-- A model that defines a constant three times, with a declaration and with the
formula's own definition between the definitions, twice. -/
def layeredModel : Text :=
  "(define-fun c () Int 1)(define-fun h () Int 0)(define-fun c () Int h)" ++
    "(declare-const c Int)(define-fun h () Int 0)(define-fun c () Int 3)"

/-- The last definition of each name, at the place of the first one. -/
def flattenedModel : Text :=
  "(define-fun c () Int 3)(define-fun h () Int 0)(declare-const c Int)"

def definingCommand (name : Text) (value : Atom) : SExpr :=
  .list [.atom (.symbol "define-fun" false) .start,
    .atom (.symbol name false) .start, .list [] .start,
    .atom (.symbol "Int" false) .start, .atom value .start] .start

def declaringCommand : SExpr :=
  .list [.atom (.symbol "declare-const" false) .start,
    .atom (.symbol "c" false) .start, .atom (.symbol "Int" false) .start] .start

def layeredCommands : List SExpr :=
  [definingCommand "c" (.numeral "1"), definingCommand "h" (.numeral "0"),
    definingCommand "c" (.symbol "h" false), declaringCommand,
    definingCommand "h" (.numeral "0"), definingCommand "c" (.numeral "3")]

example : unshadowed SExpr.definedFunction? layeredCommands =
    [definingCommand "c" (.numeral "3"), definingCommand "h" (.numeral "0"),
      declaringCommand] := by
  rfl

/-- Two of three definitions leave no trace in the theory, though the constant
counts as declared afterwards and not as defined. -/
theorem layeredModel_flattened :
    ∃ pair otherPair, readPair layeredFormula layeredModel = .ok pair ∧
      readPair layeredFormula flattenedModel = .ok otherPair ∧
      pair.model.definitions.length = 3 ∧
      otherPair.model.definitions.length = 1 ∧
      pair.symbols ≠ otherPair.symbols ∧
      (Obligation.ofPair .default otherPair).map
          (fun obligation => obligation.theory .default) =
        (Obligation.ofPair .default pair).map fun obligation =>
          obligation.theory .default := by
  have encloses : Encloses layeredModel .nothing layeredCommands := by
    decide +kernel
  have othersEnclose : Encloses flattenedModel .nothing
      (unshadowed SExpr.definedFunction? layeredCommands) := by
    decide +kernel
  have tested :
      ((readPair layeredFormula layeredModel).toOption.bind fun pair =>
        (readPair layeredFormula flattenedModel).toOption.map fun otherPair =>
          decide (pair.model.definitions.length = 3) &&
            decide (otherPair.model.definitions.length = 1) &&
            decide (pair.symbols ≠ otherPair.symbols)) = some true := by
    decide +kernel
  obtain ⟨pair, read, tested⟩ := Option.bind_eq_some_iff.mp tested
  obtain ⟨otherPair, otherRead, tested⟩ := Option.map_eq_some_iff.mp tested
  simp only [Bool.and_eq_true, decide_eq_true_eq] at tested
  obtain ⟨⟨three, one⟩, symbols⟩ := tested
  have read := toOption_eq_some_iff.mp read
  have otherRead := toOption_eq_some_iff.mp otherRead
  obtain ⟨_, _, same⟩ :=
    theory_of_unshadowed (encloses.carries (by decide +kernel))
      (othersEnclose.carries (by decide +kernel)) read otherRead
  exact ⟨pair, otherPair, read, otherRead, three, one, symbols, same _ _⟩

end Session

end ModelAudit
