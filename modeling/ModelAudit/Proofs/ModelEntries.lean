import ModelAudit.Proofs.DeclarationOrder
import ModelAudit.Proofs.RepeatedDefinitions

/-!
# The entries of a model

A command of a model that is read adds one entry: a sort, a declaration or a
definition. The entry is read alike over a larger table of symbols, so a run
over a larger table adds the same entries as long as all that is declared fits
one last table.
-/

namespace ModelAudit

open Outcome SymbolTable

namespace SymbolTable

variable {symbols larger last : SymbolTable}

theorem ExtendedBy.of_declareSort (symbols : SymbolTable) (name : Text) :
    symbols.ExtendedBy (symbols.declareSort name 0) where
  sorts other known := by
    rw [SymbolTable.declareSort, Table.find?_insert]
    split
    · rfl
    · exact known
  aliases := rfl
  signatures := .refl symbols
  unreserved _ _ absent := absent

theorem lookup?_of_declare {name : Text} {declaration : Declaration}
    (absent : (symbols.declare declaration).lookup? name = none) :
    declaration.name ≠ name ∧ symbols.lookup? name = none := by
  rw [lookup?_declare] at absent
  split at absent
  · cases absent
  · next apart => exact ⟨apart, absent⟩

/-- A new symbol with a name of its own extends a table, and so does one that is
known with the same signature. -/
theorem ExtendedBy.of_declare {declaration : Declaration}
    (unreserved : isBuiltinName declaration.name = false)
    (same : ∀ earlier, symbols.lookup? declaration.name = some earlier →
      earlier.sameSignature declaration = true) :
    symbols.ExtendedBy (symbols.declare declaration) where
  sorts _ known := known
  aliases := rfl
  signatures name earlier found := by
    rw [lookup?_declare]
    split
    · next sameName =>
      obtain ⟨arguments, result⟩ :=
        sameSignature_iff.mp (same earlier (sameName ▸ found))
      exact ⟨declaration, rfl, arguments.symm, result.symm⟩
    · exact ⟨earlier, found, rfl, rfl⟩
  unreserved name builtin absent := by
    rw [lookup?_declare, if_neg, absent]
    rintro rfl
    rw [builtin] at unreserved
    cases unreserved

end SymbolTable

theorem Command.DeclaresSymbol.extendedBy {symbols later : SymbolTable}
    {nameExpression : SExpr} {arguments : List SmtSort} {result : SmtSort}
    {kind : DeclarationKind}
    {declaration : Declaration}
    (declares : DeclaresSymbol symbols nameExpression arguments result kind
      declaration later) :
    symbols.ExtendedBy later :=
  declares.table ▸ .of_declare declares.unreserved declares.same

/-- The name of a function stands where a command defines it. -/
theorem Command.definedFunction?_of_functionHeader {symbols : SymbolTable}
    {expression : SExpr} {command : Command} {header : FunctionHeader}
    (isCommand : ofExpression expression = .ok command)
    (head : command.head = ("define-fun" : Text))
    (read : functionHeader symbols command = .ok header) :
    expression.definedFunction? = header.nameExpression.symbol? := by
  obtain ⟨position, shape, headed⟩ := headSymbol?_of_ofExpression isCommand
  obtain ⟨first, _, _, items⟩ := items_of_functionHeader read
  rw [shape, items] at headed ⊢
  change first.symbol? = some command.head at headed
  exact SExpr.nameAfter?_of_head (headed.trans (congrArg some head))

/-! ## Declarations one after the other -/

/-- The table with the declarations, entered in order. -/
def SymbolTable.declareAll (symbols : SymbolTable)
    (declarations : List Declaration) : SymbolTable :=
  declarations.foldl SymbolTable.declare symbols

namespace SymbolTable

variable {symbols other last : SymbolTable}
  {declarations others : List Declaration} {name : Text}

theorem sorts_declareAll (symbols : SymbolTable)
    (declarations : List Declaration) :
    (symbols.declareAll declarations).sorts = symbols.sorts := by
  induction declarations generalizing symbols with
  | nil => rfl
  | cons declaration declarations inductionHypothesis =>
      exact inductionHypothesis (symbols.declare declaration)

theorem aliases_declareAll (symbols : SymbolTable)
    (declarations : List Declaration) :
    (symbols.declareAll declarations).aliases = symbols.aliases := by
  induction declarations generalizing symbols with
  | nil => rfl
  | cons declaration declarations inductionHypothesis =>
      exact inductionHypothesis (symbols.declare declaration)

theorem SortsIn.declareAll (sortsIn : symbols.SortsIn last)
    (declarations : List Declaration) :
    (symbols.declareAll declarations).SortsIn last where
  sorts name known := by
    rw [sorts_declareAll] at known
    exact sortsIn.sorts name known
  aliases := by rw [aliases_declareAll, sortsIn.aliases]

theorem SortsIn.to_declareAll (sortsIn : last.SortsIn symbols)
    (declarations : List Declaration) :
    last.SortsIn (symbols.declareAll declarations) where
  sorts name known := by
    rw [sorts_declareAll]
    exact sortsIn.sorts name known
  aliases := by rw [aliases_declareAll, sortsIn.aliases]

theorem lookup?_declareAll_of_notMem
    (absent : name ∉ declarations.map Declaration.name) :
    (symbols.declareAll declarations).lookup? name = symbols.lookup? name := by
  induction declarations generalizing symbols with
  | nil => rfl
  | cons declaration declarations inductionHypothesis =>
      rw [List.map_cons, List.mem_cons, not_or] at absent
      refine (inductionHypothesis absent.2).trans ?_
      rw [lookup?_declare, if_neg (Ne.symm absent.1)]

theorem lookup?_declareAll_of_mem {declaration : Declaration}
    (nodup : (declarations.map Declaration.name).Nodup)
    (member : declaration ∈ declarations) :
    (symbols.declareAll declarations).lookup? declaration.name =
      some declaration := by
  induction declarations generalizing symbols with
  | nil => cases member
  | cons first declarations inductionHypothesis =>
      rw [List.map_cons, List.nodup_cons] at nodup
      rcases List.mem_cons.mp member with rfl | later
      · refine (lookup?_declareAll_of_notMem nodup.1).trans ?_
        rw [lookup?_declare, if_pos rfl]
      · exact inductionHypothesis nodup.2 later

theorem lookup?_declareAll_congr
    (same : ∀ name, symbols.lookup? name = other.lookup? name)
    (declarations : List Declaration) (name : Text) :
    (symbols.declareAll declarations).lookup? name =
      (other.declareAll declarations).lookup? name := by
  induction declarations generalizing symbols other with
  | nil => exact same name
  | cons declaration declarations inductionHypothesis =>
      refine inductionHypothesis fun name => ?_
      rw [lookup?_declare, lookup?_declare, same]

/-- Declarations with names of their own are entered in any order. -/
theorem lookup?_declareAll_of_perm (permutes : declarations.Perm others)
    (nodup : (declarations.map Declaration.name).Nodup) (name : Text) :
    (symbols.declareAll declarations).lookup? name =
      (symbols.declareAll others).lookup? name := by
  by_cases listed : name ∈ declarations.map Declaration.name
  · obtain ⟨declaration, member, rfl⟩ := List.mem_map.mp listed
    rw [lookup?_declareAll_of_mem nodup member,
      lookup?_declareAll_of_mem ((permutes.map _).nodup_iff.mp nodup)
        (permutes.mem_iff.mp member)]
  · rw [lookup?_declareAll_of_notMem listed,
      lookup?_declareAll_of_notMem fun member =>
        listed ((permutes.map _).mem_iff.mpr member)]

theorem SignaturesIn.declare_of_hasSignature {declaration : Declaration}
    (signatures : symbols.SignaturesIn last)
    (declared : last.HasSignature declaration.name declaration.arguments
      declaration.result) :
    (symbols.declare declaration).SignaturesIn last := by
  intro name other found
  rw [lookup?_declare] at found
  split at found
  · next sameName =>
    obtain rfl := Option.some.inj found
    exact sameName ▸ declared
  · exact signatures name other found

theorem SignaturesIn.declareAll (signatures : symbols.SignaturesIn last)
    (declared : ∀ declaration ∈ declarations,
      last.HasSignature declaration.name declaration.arguments
        declaration.result) :
    (symbols.declareAll declarations).SignaturesIn last := by
  induction declarations generalizing symbols with
  | nil => exact signatures
  | cons declaration declarations inductionHypothesis =>
      rw [List.forall_mem_cons] at declared
      exact inductionHypothesis (signatures.declare_of_hasSignature declared.1)
        declared.2

end SymbolTable

/-! ## Entries -/

/-- What a command of a model adds. -/
inductive Entry
  | sort (name : Text)
  | declaration (declaration : Declaration)
  | definition (definition : Definition)

def Entry.definition? : Entry → Option Definition
  | .definition defined => some defined
  | .sort _ | .declaration _ => none

def Entry.declaration? : Entry → Option Declaration
  | .declaration declared => some declared
  | .sort _ | .definition _ => none

def SymbolTable.enter (symbols : SymbolTable) : Entry → SymbolTable
  | .sort name => symbols.declareSort name 0
  | .declaration declaration => symbols.declare declaration
  | .definition definition => symbols.declare definition.declaration

theorem foldl_enter_declarations (symbols : SymbolTable)
    (declared : List Declaration) :
    (declared.map Entry.declaration).foldl SymbolTable.enter symbols =
      symbols.declareAll declared :=
  List.foldl_map

theorem foldl_enter_definitions (symbols : SymbolTable)
    (defined : List Definition) :
    (defined.map Entry.definition).foldl SymbolTable.enter symbols =
      symbols.declareAll (defined.map Definition.declaration) := by
  rw [SymbolTable.declareAll, List.foldl_map, List.foldl_map]
  rfl

theorem SymbolTable.ExtendedBy.enter {symbols larger : SymbolTable}
    (extended : symbols.ExtendedBy larger) (entry : Entry) :
    (symbols.enter entry).ExtendedBy (larger.enter entry) := by
  cases entry with
  | sort name => exact extended.declareSort name
  | declaration declaration => exact extended.declare declaration
  | definition definition => exact extended.declare definition.declaration

theorem SymbolTable.SignaturesIn.enter {symbols larger last : SymbolTable}
    {entry : Entry} (signatures : larger.SignaturesIn last)
    (same : (symbols.enter entry).SignaturesIn last) :
    (larger.enter entry).SignaturesIn last := by
  cases entry with
  | sort name => exact signatures
  | declaration declaration => exact signatures.declare same
  | definition definition => exact signatures.declare same

namespace Session

variable {session : Session} {expression : SExpr}
  {expressions before after : List SExpr} {entry : Entry} {entries : List Entry}
  {larger last : SymbolTable}

def enter (session : Session) (entry : Entry) : Session :=
  { session with symbols := session.symbols.enter entry }

/-- The progress with the entry, which counts as the model's unless the formula
has it. -/
def ModelProgress.enter (progress : ModelProgress) (entry : Entry) :
    ModelProgress where
  session := progress.session.enter entry
  model :=
    match entry with
    | .sort _ => progress.model
    | .declaration declaration =>
      { progress.model with
        declarations := progress.model.declarations ++ [declaration] }
    | .definition definition =>
      { progress.model with definitions := progress.model.definitions ++
          if progress.session.definitions.has definition.name then []
            else [definition] }

/-- The session reads a command of a model as the entry. -/
inductive ReadsEntry (session : Session) (expression : SExpr) : Entry → Prop
  | sort {command : Command} {name : Text} :
      Command.ofExpression expression = .ok command →
      command.head = ("declare-sort" : Text) →
      (∀ symbols, command.declareSort symbols =
        .ok (symbols.declareSort name 0)) →
      ReadsEntry session expression (.sort name)
  | declaration {command : Command} {declaration : Declaration} :
      Command.ofExpression expression = .ok command →
      command.head ≠ ("define-fun" : Text) →
      command.head ≠ ("declare-sort" : Text) →
      command.declaration? session.symbols =
        some (.ok (declaration, session.symbols.declare declaration)) →
      session.requireUndefined command = .ok () →
      ReadsEntry session expression (.declaration declaration)
  | definition {definition : Definition} :
      expression.ReadsAs session.symbols definition →
      (∀ earlier, session.definitions.find? definition.name = some earlier →
        earlier = definition) →
      ReadsEntry session expression (.definition definition)

/-- A step of a model reads one entry and enters it. -/
theorem exists_readsEntry_of_modelStep {progress next : ModelProgress}
    (stepped : modelStep progress expression = .ok next) :
    ∃ entry, progress.session.ReadsEntry expression entry ∧
      next = progress.enter entry := by
  obtain ⟨command, isCommand, effect⟩ := exists_modelEffect stepped
  cases effect with
  | @defined definition _ head read same =>
      obtain ⟨header, parts⟩ := Command.exists_parts read
      obtain ⟨_, _, _, items⟩ := Command.items_of_functionHeader parts.read
      obtain rfl := parts.declares.table
      exact ⟨.definition definition,
        .definition ⟨command, _, isCommand, head, read⟩
        ((requireSameDefinition_eq_ok_iff items).mp same), rfl⟩
  | sortDeclared head read =>
      obtain ⟨name, _, rfl, always⟩ := Command.declareSort_eq_ok read
      exact ⟨.sort name, .sort isCommand head always, rfl⟩
  | @declared declaration _ read undefined =>
      obtain ⟨_, _, _, parts⟩ := Command.exists_declarationParts read
      obtain rfl := parts.declares.table
      exact ⟨.declaration declaration,
        .declaration isCommand
          (Command.head_ne_of_declaration? read (by decide))
          (Command.head_ne_of_declaration? read (by decide)) read undefined,
          rfl⟩

theorem ReadsEntry.modelStep {progress : ModelProgress}
    (reads : progress.session.ReadsEntry expression entry) :
    modelStep progress expression = .ok (progress.enter entry) := by
  cases reads with
  | sort isCommand head declared =>
      exact (ModelEffect.sortDeclared head (declared _)).modelStep isCommand
  | declaration isCommand _ _ declared undefined =>
      exact (ModelEffect.declared declared undefined).modelStep isCommand
  | definition reads same =>
      obtain ⟨command, later, isCommand, head, defined⟩ := reads
      obtain ⟨header, parts⟩ := Command.exists_parts defined
      obtain ⟨_, _, _, items⟩ := Command.items_of_functionHeader parts.read
      obtain rfl := parts.declares.table
      exact (ModelEffect.defined head defined
        ((requireSameDefinition_eq_ok_iff items).mpr same)).modelStep isCommand

theorem ReadsEntry.extendedBy (reads : session.ReadsEntry expression entry) :
    session.symbols.ExtendedBy (session.symbols.enter entry) := by
  cases reads with
  | sort _ _ _ => exact .of_declareSort _ _
  | declaration _ _ _ declared _ =>
      obtain ⟨_, declares, _⟩ := Command.exists_declares declared
      exact declares.extendedBy
  | definition reads _ =>
      obtain ⟨command, later, _, _, defined⟩ := reads
      obtain ⟨header, parts⟩ := Command.exists_parts defined
      exact .of_declare parts.declares.unreserved parts.declares.same

/-- An entry is read alike over a larger table, if its symbol has one signature
in a last table. -/
theorem ReadsEntry.extend (reads : session.ReadsEntry expression entry)
    (extended : session.symbols.ExtendedBy larger)
    (signatures : larger.SignaturesIn last)
    (same : (session.symbols.enter entry).SignaturesIn last) :
    ({ session with symbols := larger } : Session).ReadsEntry expression
      entry := by
  cases reads with
  | sort isCommand head declared => exact .sort isCommand head declared
  | declaration isCommand notDefine notDeclareSort declared undefined =>
      obtain ⟨_, again⟩ :=
        Command.declaration?_eq_ok extended signatures same declared
      exact .declaration isCommand notDefine notDeclareSort again undefined
  | definition reads allowed =>
      obtain ⟨command, later, isCommand, head, defined⟩ := reads
      obtain ⟨header, parts⟩ := Command.exists_parts defined
      obtain rfl := parts.declares.table
      obtain ⟨_, again⟩ :=
        Command.defineFunction_eq_ok extended signatures same defined
      exact .definition ⟨command, _, isCommand, head, again⟩ allowed

/-! ## Runs -/

/-- The session reads the commands of a model as the entries, each after those
before it. -/
inductive ReadsEntries : Session → List SExpr → List Entry → Prop
  | nil {session : Session} : ReadsEntries session [] []
  | cons {session : Session} {expression : SExpr} {expressions : List SExpr}
      {entry : Entry} {entries : List Entry} :
      session.ReadsEntry expression entry →
      (session.enter entry).ReadsEntries expressions entries →
      ReadsEntries session (expression :: expressions) (entry :: entries)

/-- Commands of a model are accepted exactly if they are read as entries, which
are then entered. -/
theorem runAll_modelStep_eq_none_iff {progress final : ModelProgress} :
    runAll modelStep progress expressions = (none, final) ↔
      ∃ entries, progress.session.ReadsEntries expressions entries ∧
        final = entries.foldl ModelProgress.enter progress := by
  induction expressions generalizing progress with
  | nil =>
      constructor
      · intro run
        obtain ⟨-, rfl⟩ := Prod.mk.inj run
        exact ⟨[], .nil, rfl⟩
      · rintro ⟨entries, reads, rfl⟩
        cases reads
        rfl
  | cons expression expressions inductionHypothesis =>
      rw [runAll_cons_eq_none_iff]
      constructor
      · rintro ⟨next, stepped, run⟩
        obtain ⟨entry, reads, rfl⟩ := exists_readsEntry_of_modelStep stepped
        obtain ⟨entries, readsLater, rfl⟩ := inductionHypothesis.mp run
        exact ⟨entry :: entries, .cons reads readsLater, rfl⟩
      · rintro ⟨entries, reads, rfl⟩
        cases reads with
        | cons reads readsLater =>
            exact ⟨_, reads.modelStep,
              inductionHypothesis.mpr ⟨_, readsLater, rfl⟩⟩

/-- Commands in a row are read as entries part by part. -/
theorem readsEntries_append_iff :
    session.ReadsEntries (before ++ after) entries ↔
      ∃ front back, entries = front ++ back ∧
        session.ReadsEntries before front ∧
        (front.foldl enter session).ReadsEntries after back := by
  induction before generalizing session entries with
  | nil =>
      constructor
      · intro reads
        exact ⟨[], entries, rfl, .nil, reads⟩
      · rintro ⟨front, back, rfl, reads, readsLater⟩
        cases reads
        exact readsLater
  | cons expression before inductionHypothesis =>
      constructor
      · intro reads
        cases reads with
        | @cons _ _ _ entry entries reads readsLater =>
            obtain ⟨front, back, rfl, readsFront, readsBack⟩ :=
              inductionHypothesis.mp readsLater
            exact ⟨entry :: front, back, rfl, .cons reads readsFront, readsBack⟩
      · rintro ⟨front, back, rfl, readsFront, readsBack⟩
        cases readsFront with
        | cons reads readsLater =>
            exact .cons reads
              (inductionHypothesis.mpr ⟨_, back, rfl, readsLater, readsBack⟩)

theorem foldl_enter (session : Session) (entries : List Entry) :
    entries.foldl enter session =
      { session with
        symbols := entries.foldl SymbolTable.enter session.symbols } := by
  induction entries generalizing session with
  | nil => rfl
  | cons entry entries inductionHypothesis =>
    exact inductionHypothesis (session.enter entry)

theorem ReadsEntries.extendedBy
    (reads : session.ReadsEntries expressions entries) :
    session.symbols.ExtendedBy
      (entries.foldl SymbolTable.enter session.symbols) := by
  induction reads with
  | nil => exact .refl _
  | cons reads _ inductionHypothesis =>
    exact reads.extendedBy.trans inductionHypothesis

/-- A run over a larger table reads the same entries. -/
theorem ReadsEntries.extend (reads : session.ReadsEntries expressions entries)
    (extended : session.symbols.ExtendedBy larger)
    (signatures : larger.SignaturesIn last)
    (same : (entries.foldl SymbolTable.enter session.symbols).SignaturesIn
      last) :
    ({ session with symbols := larger } : Session).ReadsEntries expressions
      entries := by
  induction reads generalizing larger with
  | nil => exact .nil
  | @cons session _ _ entry entries reads readsLater inductionHypothesis =>
      have here := readsLater.extendedBy.signatures.trans same
      exact .cons (reads.extend extended signatures here)
        (inductionHypothesis (extended.enter entry)
          (signatures.enter here) same)

/-- The model has what the entries declare, and of what they define all that the
formula has not. -/
theorem foldl_enter_progress (progress : ModelProgress) (entries : List Entry) :
    entries.foldl ModelProgress.enter progress =
      ⟨entries.foldl enter progress.session,
        progress.model.definitions ++
            (entries.filterMap Entry.definition?).filter
          fun definition => !progress.session.definitions.has definition.name,
        progress.model.declarations ++ entries.filterMap
          Entry.declaration?⟩ := by
  induction entries generalizing progress with
  | nil => simp
  | cons entry entries inductionHypothesis =>
      rw [List.foldl_cons, inductionHypothesis]
      cases entry with
      | sort _ | declaration _ =>
          simp [ModelProgress.enter, enter, Entry.definition?,
            Entry.declaration?, List.filterMap_cons]
      | definition definition =>
          cases has : progress.session.definitions.has definition.name <;>
            simp [ModelProgress.enter, enter, Entry.definition?,
              Entry.declaration?, List.filterMap_cons, has]

/-! ## The first pass -/

/-- Before the entries are read, a command that defines a function declares it,
and no other command does anything. -/
theorem registerStep_eq_ok {next : Session}
    (stepped : registerStep session expression = .ok next) :
    (expression.definedFunction? = none ∧ next = session) ∨
      ∃ nameExpression arguments result declaration,
        Command.DeclaresSymbol session.symbols nameExpression arguments result
          .defined declaration next.symbols ∧
        expression.definedFunction? = some declaration.name ∧
        next = { session with
          symbols := session.symbols.declare declaration } := by
  obtain ⟨command, isCommand,
      ⟨head, symbols, registered, rfl⟩ | ⟨other, rfl⟩⟩ :=
    registerStep_eq_ok_iff.mp stepped
  · obtain ⟨header, declaration, read, declares⟩ :=
      Command.registerFunction_eq_ok_iff.mp registered
    refine .inr ⟨_, _, _, declaration, declares, ?_, by rw [declares.table]⟩
    rw [Command.definedFunction?_of_functionHeader isCommand head read,
      declares.named]
  · obtain ⟨_, _, headed⟩ := Command.headSymbol?_of_ofExpression isCommand
    exact .inl ⟨SExpr.nameAfter?_of_other headed other, rfl⟩

/-- The pass over functions adds declarations and changes nothing else. -/
theorem runAll_registerStep_eq_ok {final : Session}
    (run : runAll registerStep session expressions = (none, final)) :
    session.symbols.ExtendedBy final.symbols ∧
      ∃ declarations, final =
        { session with
          symbols := session.symbols.declareAll declarations } := by
  induction expressions generalizing session with
  | nil =>
      obtain ⟨-, rfl⟩ := Prod.mk.inj run
      exact ⟨.refl _, [], rfl⟩
  | cons expression expressions inductionHypothesis =>
      obtain ⟨next, stepped, runLater⟩ := runAll_cons_eq_none_iff.mp run
      obtain ⟨extended, declarations, rfl⟩ := inductionHypothesis runLater
      rcases registerStep_eq_ok stepped with
        ⟨_, rfl⟩ | ⟨_, _, _, declaration, declares, _, rfl⟩
      · exact ⟨extended, declarations, rfl⟩
      · exact ⟨declares.extendedBy.trans extended,
          declaration :: declarations, rfl⟩

/-! ## Models -/

/-- The model that entries make up, in a session that may know definitions of a
formula. -/
def modelOf (session : Session) (entries : List Entry) : Model where
  definitions := (entries.filterMap Entry.definition?).filter
    fun definition => !session.definitions.has definition.name
  declarations := entries.filterMap Entry.declaration?

/-- A model is accepted exactly if its functions can be declared and all
commands then be read as entries. -/
theorem readCommands_eq_ok_iff {commands : List SExpr} {model : Model}
    {later : Session} :
    session.readCommands commands = (.ok model, later) ↔
      ∃ registered entries, runAll registerStep session commands =
          (none, registered) ∧
        registered.ReadsEntries commands entries ∧
        model = registered.modelOf entries ∧
        later = entries.foldl enter registered := by
  rw [readCommands]
  rcases registering : runAll registerStep session commands
    with ⟨fault, registered⟩
  cases fault with
  | some fault =>
      constructor
      · rintro ⟨⟩
      · rintro ⟨_, _, ⟨⟩, _⟩
  | none =>
      dsimp only
      rcases run : runAll modelStep ⟨registered, ⟨[], []⟩⟩ commands
        with ⟨fault, final⟩
      constructor
      · intro read
        cases fault with
        | some fault => cases read
        | none =>
            obtain ⟨entries, reads, rfl⟩ := runAll_modelStep_eq_none_iff.mp run
            obtain ⟨isModel, rfl⟩ := Prod.mk.inj read
            obtain rfl := Except.ok.inj isModel
            rw [foldl_enter_progress]
            exact ⟨registered, entries, rfl, reads, rfl, rfl⟩
      · rintro ⟨_, entries, same, reads, rfl, rfl⟩
        obtain ⟨-, rfl⟩ := Prod.mk.inj same
        have read : runAll modelStep ⟨registered, ⟨[], []⟩⟩ commands =
            (none, entries.foldl ModelProgress.enter ⟨registered, ⟨[], []⟩⟩) :=
          runAll_modelStep_eq_none_iff.mpr ⟨entries, reads, rfl⟩
        obtain ⟨rfl, rfl⟩ := Prod.mk.inj (run.symm.trans read)
        rw [foldl_enter_progress]
        rfl

/-- An output that carries commands is accepted exactly if the commands are. -/
theorem readModel_eq_ok_iff {output : Text} {commands : List SExpr}
    {model : Model} {later : Session} (ready : session.formulaRead = true)
    (carries : Carries output commands) :
    session.readModel output = (.ok model, later) ↔
      session.readCommands commands = (.ok model, later) := by
  obtain ⟨outcome, sameSession⟩ := readModel_of_carries ready carries
  constructor
  · intro read
    rw [read] at outcome sameSession
    exact Prod.ext outcome.eq_ok sameSession.symm
  · intro read
    rw [read] at outcome sameSession
    exact Prod.ext outcome.symm.eq_ok sameSession

end Session

end ModelAudit
