import ModelAudit.Proofs.RereadDefinitions

/-!
# Entries that a table has already

The table at the end of a run has all entries of the run, and over it every
command is read as its entry again. A run over a smaller table finds the same
entries, since what is read over a table is read alike over a larger one. So the
commands alone decide what is found, not their order.
-/

namespace ModelAudit

open Outcome SymbolTable

namespace Command

variable {symbols larger later otherLater : SymbolTable} {command : Command}
  {declaration other : Declaration}

theorem DeclaresSymbol.unique {nameExpression : SExpr}
    {arguments : List SmtSort} {result : SmtSort} {kind : DeclarationKind}
    (declares : DeclaresSymbol symbols nameExpression arguments result kind
      declaration later)
    (again : DeclaresSymbol larger nameExpression arguments result kind other
      otherLater) :
    declaration = other := by
  have sameName := Option.some.inj (declares.named.symm.trans again.named)
  obtain ⟨_, _, _, _⟩ := declaration
  obtain ⟨_, _, _, _⟩ := other
  obtain rfl := sameName
  obtain rfl := declares.arguments.trans again.arguments.symm
  obtain rfl := declares.result.trans again.result.symm
  obtain rfl := declares.kind.trans again.kind.symm
  rfl

/-- A declaration that is read over a table and over a larger one is the
same. -/
theorem declaration?_unique (sortsIn : symbols.SortsIn larger)
    (declared : command.declaration? symbols = some (.ok (declaration, later)))
    (again : command.declaration? larger = some (.ok (other, otherLater))) :
    declaration = other := by
  obtain ⟨_, declares, elsewhere⟩ := exists_declares declared
  rw [elsewhere larger sortsIn] at again
  exact declares.unique (declareSymbol_eq_ok_iff.mp (Option.some.inj again))

/-- The first pass over a model declares a function as the second one does. -/
theorem registerFunction_unique {definition : Definition}
    (sortsIn : symbols.SortsIn larger)
    (registered : command.registerFunction symbols = .ok later)
    (defined : command.defineFunction larger = .ok (definition, otherLater)) :
    later = symbols.declare definition.declaration := by
  obtain ⟨header, declaration, read, declares⟩ :=
    registerFunction_eq_ok_iff.mp registered
  obtain ⟨other, parts⟩ := exists_parts defined
  obtain rfl :=
    Except.ok.inj
      ((functionHeader_yields sortsIn command _ read).symm.trans parts.read)
  rw [declares.table, declares.unique parts.declares]

/-- A definition that is read over a table and over a larger one is the same. -/
theorem defineFunction_unique {definition another : Definition}
    (extended : symbols.ExtendedBy larger)
    (defined : command.defineFunction symbols = .ok (definition, later))
    (again : command.defineFunction larger = .ok (another, otherLater)) :
    definition = another := by
  obtain ⟨header, parts⟩ := exists_parts defined
  obtain ⟨otherHeader, otherParts⟩ := exists_parts again
  obtain rfl := Except.ok.inj
    ((functionHeader_yields extended.toSortsIn command _ parts.read).symm.trans
      otherParts.read)
  have sameBody := Except.ok.inj
    ((readTerm_yields extended _ _ _ parts.body).symm.trans otherParts.body)
  have sameDeclaration := parts.declares.unique otherParts.declares
  have sameParams := parts.params.trans otherParts.params.symm
  obtain ⟨_, _, _⟩ := definition
  obtain ⟨_, _, _⟩ := another
  obtain rfl := sameDeclaration
  obtain rfl := sameParams
  obtain rfl := sameBody
  rfl

end Command

/-- A table has an entry that a smaller table has. -/
theorem SymbolTable.enter_extendedBy {symbols last : SymbolTable}
    {entry : Entry} (extended : (symbols.enter entry).ExtendedBy last) :
    (last.enter entry).ExtendedBy last := by
  have symbol (declaration : Declaration)
      (extended : (symbols.declare declaration).ExtendedBy last) :
      (last.declare declaration).ExtendedBy last :=
    { sorts := fun _ known => known
      aliases := rfl
      signatures := (SignaturesIn.refl last).declare_of_hasSignature
        (extended.signatures _ declaration
          (by rw [lookup?_declare, if_pos rfl]))
      unreserved := fun _ _ absent => (lookup?_of_declare absent).2 }
  cases entry with
  | sort name =>
      refine ⟨⟨fun other known => ?_, rfl⟩, .refl last,
        fun _ _ absent => absent⟩
      change (last.sorts.insert name 0).find? other = some 0 at known
      rw [Table.find?_insert] at known
      split at known
      · next same =>
        refine extended.sorts other ?_
        change (symbols.sorts.insert name 0).find? other = some 0
        rw [Table.find?_insert, if_pos same]
      · exact known
  | declaration declaration => exact symbol declaration extended
  | definition definition => exact symbol definition.declaration extended

/-- The function that the entry defines, as it is declared. -/
def Entry.function? (entry : Entry) : Option Declaration :=
  entry.definition?.map Definition.declaration

namespace Session

variable {session next registered : Session} {larger last : SymbolTable}
  {expression : SExpr} {expressions : List SExpr} {entry other : Entry}
  {entries others : List Entry}

/-- Entries that are read over a table and over a larger one are the same. -/
theorem ReadsEntry.unique (reads : session.ReadsEntry expression entry)
    (extended : session.symbols.ExtendedBy larger)
    (again : ({ session with symbols := larger } : Session).ReadsEntry
      expression other) :
    entry = other := by
  have sameName := reads.definedFunction?.symm.trans again.definedFunction?
  cases reads with
  | sort isCommand head declared =>
      cases again with
      | sort isCommandAgain _ declaredAgain =>
          obtain rfl := Except.ok.inj (isCommand.symm.trans isCommandAgain)
          have sameTable :=
            Except.ok.inj ((declared .empty).symm.trans (declaredAgain .empty))
          have sameEntry :=
            (List.cons.inj (congrArg SymbolTable.sorts sameTable)).1
          rw [(Prod.mk.inj sameEntry).1]
      | declaration isCommandAgain _ notDeclareSort _ _ =>
          obtain rfl := Except.ok.inj (isCommand.symm.trans isCommandAgain)
          exact absurd head notDeclareSort
      | definition _ _ => cases sameName
  | declaration isCommand _ notDeclareSort declared _ =>
      cases again with
      | sort isCommandAgain head _ =>
          obtain rfl := Except.ok.inj (isCommand.symm.trans isCommandAgain)
          exact absurd head notDeclareSort
      | declaration isCommandAgain _ _ declaredAgain _ =>
          obtain rfl := Except.ok.inj (isCommand.symm.trans isCommandAgain)
          rw [Command.declaration?_unique extended.toSortsIn declared
            declaredAgain]
      | definition _ _ => cases sameName
  | definition reads _ =>
      cases again with
      | sort _ _ _ => cases sameName
      | declaration _ _ _ _ _ => cases sameName
      | definition readsAgain _ =>
          obtain ⟨_, _, isCommand, _, defined⟩ := reads
          obtain ⟨_, _, isCommandAgain, _, definedAgain⟩ := readsAgain
          obtain rfl := Except.ok.inj (isCommand.symm.trans isCommandAgain)
          rw [Command.defineFunction_unique extended defined definedAgain]

/-- Commands are read as one list of entries only. -/
theorem ReadsEntries.unique (reads : session.ReadsEntries expressions entries)
    (again : session.ReadsEntries expressions others) : entries = others := by
  induction reads generalizing others with
  | nil =>
      cases again
      rfl
  | cons here _ inductionHypothesis =>
      cases again with
      | cons hereAgain laterAgain =>
          obtain rfl := here.unique (.refl _) hereAgain
          rw [inductionHypothesis laterAgain]

/-- The session reads the command as an entry that its table has. -/
structure Knows (session : Session) (expression : SExpr) (entry : Entry) :
    Prop where
  reads : session.ReadsEntry expression entry
  entered : (session.symbols.enter entry).ExtendedBy session.symbols

/-- Over the table at the end, or over a larger one, all entries of a run are
known. -/
theorem ReadsEntries.knows (reads : session.ReadsEntries expressions entries)
    (extended : (entries.foldl SymbolTable.enter session.symbols).ExtendedBy
      last) :
    List.Forall₂ ({ session with symbols := last } : Session).Knows expressions
      entries := by
  induction reads with
  | nil => exact .nil
  | cons here later inductionHypothesis =>
      have entered := later.extendedBy.trans extended
      exact .cons ⟨here.extend (here.extendedBy.trans entered)
        (.refl last) entered.signatures,
        enter_extendedBy entered⟩ (inductionHypothesis extended)

/-- A run over a smaller table finds the known entries, and its table at the end
is no larger. -/
theorem ReadsEntries.eq_of_knows
    (reads : session.ReadsEntries expressions entries)
    (extended : session.symbols.ExtendedBy last)
    (known : List.Forall₂ ({ session with symbols := last } : Session).Knows
      expressions others) :
    entries = others ∧
    (others.foldl SymbolTable.enter session.symbols).ExtendedBy last := by
  induction reads generalizing others with
  | nil =>
      cases known
      exact ⟨rfl, extended⟩
  | @cons session _ _ entry _ here _ inductionHypothesis =>
      cases known with
      | cons knownHere knownLater =>
          obtain rfl := here.unique extended knownHere.reads
          have enteredExtended :
              (session.symbols.enter entry).ExtendedBy last :=
            (extended.enter entry).trans knownHere.entered
          obtain ⟨rfl, extendedLater⟩ :=
            inductionHypothesis enteredExtended knownLater
          exact ⟨rfl, extendedLater⟩

/-! ## The first pass -/

/-- A function that is already known is declared once more without effect. -/
theorem registerStep_of_knows
    (stepped : registerStep session expression = .ok next)
    (sortsIn : session.symbols.SortsIn last)
    (known : ({ session with symbols := last } : Session).Knows expression
      entry) :
    next = { session with
      symbols := session.symbols.declareAll entry.function?.toList } := by
  have sameName := known.reads.definedFunction?
  obtain ⟨command, isCommand,
      ⟨head, symbols, registered, rfl⟩ | ⟨other, rfl⟩⟩ :=
    registerStep_eq_ok_iff.mp stepped
  · cases known.reads with
    | sort isCommandAgain otherHead _ =>
        obtain rfl := Except.ok.inj (isCommand.symm.trans isCommandAgain)
        exact absurd (head.symm.trans otherHead) (by decide)
    | declaration isCommandAgain notDefine _ _ _ =>
        obtain rfl := Except.ok.inj (isCommand.symm.trans isCommandAgain)
        exact absurd head notDefine
    | definition reads _ =>
        obtain ⟨_, _, isCommandAgain, _, defined⟩ := reads
        obtain rfl := Except.ok.inj (isCommand.symm.trans isCommandAgain)
        rw [Command.registerFunction_unique sortsIn registered defined]
        rfl
  · obtain ⟨_, _, headed⟩ := Command.headSymbol?_of_ofExpression isCommand
    rw [SExpr.definedFunction?, SExpr.nameAfter?_of_other headed other]
      at sameName
    rw [Entry.function?, Option.map_eq_none_iff.mp sameName.symm]
    rfl

/-- The first pass declares the functions of the known entries. -/
theorem runAll_registerStep_of_knows
    (run : runAll registerStep session expressions = (none, registered))
    (sortsIn : session.symbols.SortsIn last)
    (known : List.Forall₂ ({ session with symbols := last } : Session).Knows
      expressions entries) :
    registered = { session with
      symbols :=
  session.symbols.declareAll (entries.filterMap Entry.function?) } := by
  induction expressions generalizing session entries with
  | nil =>
      cases known
      exact (Prod.mk.inj run).2.symm
  | cons expression expressions inductionHypothesis =>
      cases known with
      | @cons _ entry _ entries here later =>
          obtain ⟨next, stepped, run⟩ := runAll_cons_eq_none_iff.mp run
          obtain rfl := registerStep_of_knows stepped sortsIn here
          rw [inductionHypothesis run (sortsIn.declareAll _) later]
          cases defines : entry.function? with
          | none => rw [List.filterMap_cons_none defines]; rfl
          | some declaration => rw [List.filterMap_cons_some defines]; rfl

end Session

end ModelAudit
