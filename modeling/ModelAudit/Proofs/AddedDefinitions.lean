import ModelAudit.Proofs.JoinedTexts
import ModelAudit.Proofs.KnownEntries
import ModelAudit.Proofs.UnreachedDefinitions

/-!
# Models with one definition more

A definition at the end of a model, of a name that nothing else declares, is
read after everything else has been read as it is without it. So the pair gains
that definition and its symbol, and the theory is the same, whatever the
definition says.
-/

namespace ModelAudit

open Outcome SymbolTable

namespace SymbolTable

variable {symbols : SymbolTable} {name : Text} {entry : Entry}
  {entries : List Entry}

/-! ## Tables without a symbol -/

theorem without_eq_self (absent : symbols.lookup? name = none) :
    symbols.without name = symbols := by
  rw [without, Table.erase_eq_self absent]

theorem without_declare_same {declaration : Declaration}
    (named : declaration.name = name) :
    (symbols.declare declaration).without name = symbols.without name := by
  rw [without, without, declare, Table.erase_insert, if_pos named]

/-- It makes no difference whether a symbol is left out before or after another
one is declared. -/
theorem without_declare_other {declaration : Declaration}
    (apart : declaration.name ≠ name) :
    (symbols.declare declaration).without name =
      (symbols.without name).declare declaration := by
  rw [without, without, declare, Table.erase_insert, if_neg apart]
  rfl

theorem without_enter (absent : (symbols.enter entry).lookup? name = none)
    (other : SymbolTable) :
    (other.enter entry).without name = (other.without name).enter entry := by
  cases entry with
  | sort _ => rfl
  | declaration declaration =>
    exact without_declare_other (lookup?_of_declare absent).1
  | definition definition =>
    exact without_declare_other (lookup?_of_declare absent).1

theorem lookup?_of_foldl_enter
    (absent : (entries.foldl enter symbols).lookup? name = none) :
    symbols.lookup? name = none := by
  induction entries generalizing symbols with
  | nil => exact absent
  | cons entry entries inductionHypothesis =>
      have absent := inductionHypothesis absent
      cases entry with
      | sort _ => exact absent
      | declaration declaration => exact (lookup?_of_declare absent).2
      | definition definition => exact (lookup?_of_declare absent).2

/-- Entries with other symbols may be entered before or after a symbol is
removed. -/
theorem without_foldl_enter
    (absent : (entries.foldl enter symbols).lookup? name = none)
    (other : SymbolTable) :
    (entries.foldl enter other).without name = entries.foldl enter
      (other.without name) := by
  induction entries generalizing symbols other with
  | nil => rfl
  | cons entry entries inductionHypothesis =>
      have here : (symbols.enter entry).lookup? name = none :=
        lookup?_of_foldl_enter absent
      rw [List.foldl_cons, inductionHypothesis absent, without_enter here]
      rfl

end SymbolTable

namespace Session

variable {session registered later extendedLater : Session}
  {commands : List SExpr} {expression : SExpr} {entries others : List Entry}
  {model extendedModel : Model} {name : Text}

/-! ## Reading -/

theorem modelOf_append (session : Session) (entries others : List Entry) :
    session.modelOf (entries ++ others) =
      ⟨(session.modelOf entries).definitions ++
          (session.modelOf others).definitions,
        (session.modelOf entries).declarations ++
          (session.modelOf others).declarations⟩ := by
  simp [modelOf, List.filterMap_append]

/-- A command that defines a function is read as a definition of that name. -/
theorem ReadsEntry.defined {entry : Entry}
    (reads : session.ReadsEntry expression entry)
    (defines : expression.definedFunction? = some name) :
    ∃ definition, entry = .definition definition ∧ definition.name = name := by
  rw [reads.definedFunction?] at defines
  obtain ⟨definition, isDefinition, named⟩ := Option.map_eq_some_iff.mp defines
  cases entry with
  | sort _ | declaration _ => cases isDefinition
  | definition other => exact ⟨other, rfl, Option.some.inj isDefinition ▸ named⟩

/-- With the function declared before, the commands are read as without it, and
the definition at the end is read last. -/
theorem ReadsEntries.added {declaration : Declaration} {all : List Entry}
    (reads : session.ReadsEntries commands entries)
    (readsAll : ({ session with
      symbols := session.symbols.declare declaration } : Session)
      |>.ReadsEntries (commands ++ [expression]) all)
    (defines : expression.definedFunction? = some declaration.name)
    (unreserved : isBuiltinName declaration.name = false)
    (absent : (entries.foldl SymbolTable.enter session.symbols).lookup?
      declaration.name = none)
    (unrecorded : session.definitions.has declaration.name = false) :
    ∃ added : Definition, added.name = declaration.name ∧
      session.modelOf all = ⟨(session.modelOf entries).definitions ++ [added],
        (session.modelOf entries).declarations⟩ ∧
      (all.foldl SymbolTable.enter
        (session.symbols.declare declaration)).without
          declaration.name =
            entries.foldl SymbolTable.enter session.symbols := by
  have unknown := lookup?_of_foldl_enter absent
  have extended :
      session.symbols.ExtendedBy (session.symbols.declare declaration) :=
    .of_declare unreserved fun earlier found => nomatch unknown.symm.trans found
  have atEnd : (entries.foldl SymbolTable.enter session.symbols).ExtendedBy
      ((entries.foldl SymbolTable.enter session.symbols).declare declaration) :=
    .of_declare unreserved fun earlier found => nomatch absent.symm.trans found
  have again := reads.extend extended
    ((reads.extendedBy.trans atEnd).signatures.declare_of_hasSignature
      (hasSignature_declare _ declaration)) atEnd.signatures
  obtain ⟨front, back, rfl, readsFront, readsBack⟩ :=
    readsEntries_append_iff.mp readsAll
  obtain rfl := readsFront.unique again
  cases readsBack with
  | cons readsLast nothing =>
    cases nothing
    obtain ⟨added, rfl, named⟩ := readsLast.defined defines
    refine ⟨added, named, ?_, ?_⟩
    · have only : session.modelOf [.definition added] = ⟨[added], []⟩ := by
        simp [modelOf, Entry.definition?, Entry.declaration?, named, unrecorded]
      rw [modelOf_append, only, List.append_nil]
    · rw [List.foldl_append]
      calc (SymbolTable.declare _ added.declaration).without declaration.name
          = (front.foldl SymbolTable.enter
            (session.symbols.declare declaration)).without
              declaration.name := without_declare_same named
        _ = front.foldl SymbolTable.enter session.symbols := by
            rw [without_foldl_enter absent, without_declare_same rfl,
              without_eq_self unknown]

/-- A definition of a new name at the end leaves everything before it as it
is. -/
theorem readCommands_added
    (read : session.readCommands commands = (.ok model, later))
    (extendedRead : session.readCommands (commands ++ [expression]) =
      (.ok extendedModel, extendedLater))
    (defines : expression.definedFunction? = some name)
    (absent : later.symbols.lookup? name = none)
    (unrecorded : session.definitions.has name = false) :
    ∃ added : Definition, added.name = name ∧
      extendedModel = ⟨model.definitions ++ [added], model.declarations⟩ ∧
      extendedLater.symbols.without name = later.symbols := by
  obtain ⟨registered, entries, registering, reads, rfl, rfl⟩ :=
    readCommands_eq_ok_iff.mp read
  obtain ⟨last, all, registeringAll, readsAll, rfl, rfl⟩ :=
    readCommands_eq_ok_iff.mp extendedRead
  obtain ⟨reached, before, registeringLast⟩ :=
    runAll_append_eq_none_iff.mp registeringAll
  obtain rfl : registered = reached :=
    congrArg Prod.snd (registering.symm.trans before)
  obtain ⟨after, stepped, nothingLeft⟩ :=
    runAll_cons_eq_none_iff.mp registeringLast
  obtain rfl : after = last := congrArg Prod.snd nothingLeft
  obtain ⟨none, _⟩ | ⟨_, _, _, declaration, declares, named, rfl⟩ :=
    registerStep_eq_ok stepped
  · cases none.symm.trans defines
  · obtain rfl := Option.some.inj (named.symm.trans defines)
    obtain ⟨_, declarations, rfl⟩ := runAll_registerStep_eq_ok registering
    rw [foldl_enter] at absent
    obtain ⟨added, sameName, sameModel, sameSymbols⟩ :=
      reads.added readsAll defines declares.unreserved absent unrecorded
    refine ⟨added, sameName, sameModel, ?_⟩
    rw [foldl_enter, foldl_enter]
    exact sameSymbols

/-! ## Pairs -/

variable {formulaText output extendedOutput : Text} {pair extended : Pair}

/-- The formula of a pair is read in a new session, and the model in the session
after it. -/
theorem exists_of_readPair (read : readPair formulaText output = .ok pair) :
    ∃ session later, start.readFormula formulaText =
        (.ok pair.formula, session) ∧
      session.readModel output = (.ok pair.model, later) ∧
      pair.symbols = later.symbols := by
  unfold readPair at read
  split at read
  · cases read
  · next formula session formulaRead =>
    split at read
    · cases read
    · next model later modelRead =>
      obtain rfl := Except.ok.inj read
      exact ⟨session, later, formulaRead, modelRead, rfl⟩

/-- The pair with the extended model has one definition more, whose name is
new. -/
theorem readPair_adds (read : readPair formulaText output = .ok pair)
    (extendedRead : readPair formulaText extendedOutput = .ok extended)
    (carries : Carries output commands)
    (extendedCarries : Carries extendedOutput (commands ++ [expression]))
    (defines : expression.definedFunction? = some name)
    (absent : name ∉ pair.symbols.declarations.names) :
    ∃ added : Definition, added.name = name ∧ pair.Adds added extended := by
  obtain ⟨session, later, formulaRead, modelRead, symbols⟩ :=
    exists_of_readPair read
  obtain ⟨_, extendedLater, again, extendedModelRead, extendedSymbols⟩ :=
    exists_of_readPair extendedRead
  obtain ⟨sameFormula, rfl⟩ := Prod.mk.inj (formulaRead.symm.trans again)
  have ready := formulaRead_of_readFormula formulaRead
  have unknown : later.symbols.lookup? name = none := by
    rw [← symbols]
    exact Table.find?_eq_none_iff.mpr absent
  have unrecorded : session.definitions.has name = false := by
    have undefined : session.definitions.find? name = none := by
      rw [(readFormula_settled formulaRead).recorded]
      refine find?_definitionTable_eq_none.mpr fun listed => ?_
      obtain ⟨definition, member, rfl⟩ := List.mem_map.mp listed
      have settled :=
        (readPair_settled read).formula.definitions definition member
      rw [symbols] at settled
      exact settled.declared.lookup?_ne_none unknown
    rw [Table.has, undefined, Option.isSome_none]
  obtain ⟨added, named, sameModel, sameSymbols⟩ := readCommands_added
    ((readModel_eq_ok_iff ready carries).mp modelRead)
    ((readModel_eq_ok_iff ready extendedCarries).mp extendedModelRead) defines
      unknown unrecorded
  refine ⟨added, named, (Except.ok.inj sameFormula).symm, ?_, ?_, ?_⟩
  · rw [sameModel]
  · rw [sameModel]
  · rw [named, symbols, extendedSymbols, sameSymbols]

/-- A definition that is appended to a model has no influence on the theory, if
its name is new to the pair and no binder or parameter of an assertion or of a
kept definition has it. -/
theorem theory_of_appended (read : readPair formulaText output = .ok pair)
    (extendedRead : readPair formulaText extendedOutput = .ok extended)
    (carries : Carries output commands)
    (extendedCarries : Carries extendedOutput (commands ++ [expression]))
    (defines : expression.definedFunction? = some name)
    (absent : name ∉ pair.symbols.declarations.names)
    (unbound : ∀ assertion ∈ pair.formula.assertions,
      name ∉ assertion.boundNames)
    (unboundInKept : ∀ definition ∈ Obligation.kept pair.formula pair.model,
      name ∉ definition.boundNames) (operators : OperatorTable)
    (config : Config) :
    (Obligation.ofPair operators extended).map
        (fun obligation => obligation.theory config) =
      (Obligation.ofPair operators pair).map fun obligation =>
        obligation.theory config := by
  obtain ⟨added, rfl, adds⟩ :=
    readPair_adds read extendedRead carries extendedCarries defines absent
  rw [Obligation.ofPair_of_adds adds (readPair_settled read)
    (readPair_settled extendedRead) unbound unboundInKept]

def quantifiedText : Text :=
  "(declare-const a Int)(assert (forall ((x Int)) (= (+ x a) (+ a x))))"

def constantText : Text :=
  "(define-fun a () Int 1)"

/-- The definition of a function that nothing mentions, with a parameter named
like a binder of the assertion. -/
def appendedText : Text :=
  "(define-fun b ((x Int)) Int (+ x a))"

/-- On a line of its own the definition adds a symbol, and the theory is the
same. -/
theorem appendedText_unreached :
    ∃ pair extended, readPair quantifiedText constantText = .ok pair ∧
      readPair quantifiedText
          (constantText ++ CodePoint.ofChar '\n' :: appendedText) =
        .ok extended ∧
      ("b" : Text) ∉ pair.symbols.declarations.names ∧
      ("b" : Text) ∈ extended.symbols.declarations.names ∧
      (Obligation.ofPair .default extended).map
          (fun obligation => obligation.theory .default) =
        (Obligation.ofPair .default pair).map fun obligation =>
          obligation.theory .default := by
  have commandsTested :
      (readExpressions constantText).toOption.map (fun commands =>
        decide (∀ command ∈ commands, command.isModelCommand = true)) =
          some true := by
    decide +kernel
  have appendedTested :
      (readExpressions appendedText).toOption.map (fun expressions =>
        expressions.map fun expression =>
          (decide (expression.isModelCommand = true),
            expression.definedFunction?)) =
        some [(true, some ("b" : Text))] := by
    decide +kernel
  have pairTested :
      (readPair quantifiedText constantText).toOption.map (fun pair =>
        decide (("b" : Text) ∉ pair.symbols.declarations.names) &&
          decide (∀ assertion ∈ pair.formula.assertions,
            ("b" : Text) ∉ assertion.boundNames) &&
          decide
            (∀ definition ∈ pair.formula.definitions ++ pair.model.definitions,
            ("b" : Text) ∉ definition.boundNames)) = some true := by
    decide +kernel
  have extendedTested : (readPair quantifiedText
      (constantText ++ CodePoint.ofChar '\n' :: appendedText)).toOption.map
        (fun extended =>
          decide (("b" : Text) ∈ extended.symbols.declarations.names)) =
            some true := by
    decide +kernel
  obtain ⟨commands, isText, areCommands⟩ :=
    Option.map_eq_some_iff.mp commandsTested
  obtain ⟨appended, isAppended, single⟩ :=
    Option.map_eq_some_iff.mp appendedTested
  obtain ⟨expression, rfl, parts⟩ := List.map_eq_singleton_iff.mp single
  obtain ⟨isCommand, defines⟩ := Prod.mk.inj parts
  obtain ⟨pair, read, tested⟩ := Option.map_eq_some_iff.mp pairTested
  obtain ⟨extended, extendedRead, declared⟩ :=
    Option.map_eq_some_iff.mp extendedTested
  simp only [Bool.and_eq_true, decide_eq_true_eq]
    at tested areCommands isCommand declared
  obtain ⟨⟨absent, unbound⟩, unboundInDefinitions⟩ := tested
  have read := toOption_eq_some_iff.mp read
  have extendedRead := toOption_eq_some_iff.mp extendedRead
  have encloses := encloses_of_read (toOption_eq_some_iff.mp isText)
  have joined :=
    encloses.join (encloses_of_read (toOption_eq_some_iff.mp isAppended))
  refine ⟨pair, extended, read, extendedRead, absent, declared, ?_⟩
  refine theory_of_appended read extendedRead (encloses.carries areCommands)
    (joined.carries (List.forall_mem_append.mpr
      ⟨areCommands, List.forall_mem_singleton.mpr isCommand⟩)) defines absent
        unbound ?_ _ _
  intro definition kept
  exact unboundInDefinitions definition
    (definition_of_find? (Obligation.mem_kept.mp kept).1).1

end Session

end ModelAudit
