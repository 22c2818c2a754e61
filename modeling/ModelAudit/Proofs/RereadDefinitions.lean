import ModelAudit.Proofs.ModelEntries

/-!
# Definitions that are read again

A definition that a command wrote over a table is written by the same command
over every later table. If a last table has the signatures of several functions,
a model may define them in any order and over every table between: both passes
of the model succeed, and they add these definitions.
-/

namespace ModelAudit

open Outcome SymbolTable

namespace SExpr

def isDefinition (expression : SExpr) : Bool :=
  expression.headSymbol? = some ("define-fun" : Text)

/-- The expression declares a function or a constant, which it does not
define. -/
def isDeclaration (expression : SExpr) : Bool :=
  expression.headSymbol? = some ("declare-fun" : Text) ||
    expression.headSymbol? = some ("declare-const" : Text)

end SExpr

variable {symbols last : SymbolTable} {expression : SExpr}
  {expressions : List SExpr} {definition : Definition}
  {definitions : List Definition}

/-- Over the last table the expression reads as the definition, which is
declared there. -/
structure SExpr.Rereads (last : SymbolTable) (expression : SExpr)
    (definition : Definition) :
    Prop where
  reads : expression.ReadsAs last definition
  declared : last.HasSignature definition.name definition.declaration.arguments
    definition.declaration.result

theorem SExpr.ReadsAs.definedFunction?
    (reads : expression.ReadsAs symbols definition) :
    expression.definedFunction? = some definition.name := by
  obtain ⟨command, later, isCommand, head, defined⟩ := reads
  obtain ⟨header, parts⟩ := Command.exists_parts defined
  rw [Command.definedFunction?_of_functionHeader isCommand head parts.read,
    parts.declares.named]
  rfl

/-- What is read over a table is read again over every table that has come from
it. -/
theorem SExpr.ReadsAs.rereads (reads : expression.ReadsAs symbols definition)
    (extended : (symbols.declare definition.declaration).ExtendedBy last) :
    expression.Rereads last definition := by
  obtain ⟨command, later, isCommand, head, defined⟩ := reads
  obtain ⟨header, parts⟩ := Command.exists_parts defined
  obtain rfl := parts.declares.table
  obtain ⟨_, again⟩ :=
    Command.defineFunction_eq_ok (parts.declares.extendedBy.trans extended)
      (.refl last) extended.signatures defined
  refine ⟨⟨command, _, isCommand, head, again⟩, ?_⟩
  exact extended.signatures _ definition.declaration
    (by rw [lookup?_declare]; exact if_pos rfl)

/-- The name that the entry defines, if it is a definition. -/
def Entry.definedName? (entry : Entry) : Option Text :=
  entry.definition?.map Definition.name

namespace Session

variable {session : Session}

/-- The name that a command defines is the one that its entry defines. -/
theorem ReadsEntry.definedFunction? {entry : Entry}
    (reads : session.ReadsEntry expression entry) :
    expression.definedFunction? = entry.definedName? := by
  cases reads with
  | sort isCommand head _ =>
      obtain ⟨_, _, headed⟩ := Command.headSymbol?_of_ofExpression isCommand
      exact SExpr.nameAfter?_of_other headed (by rw [head]; decide)
  | declaration isCommand notDefine _ _ _ =>
      obtain ⟨_, _, headed⟩ := Command.headSymbol?_of_ofExpression isCommand
      exact SExpr.nameAfter?_of_other headed notDefine
  | definition reads _ => exact reads.definedFunction?

theorem hasSignature_of_rereads
    (rereads : List.Forall₂ (SExpr.Rereads last) expressions definitions) :
    ∀ declaration ∈ definitions.map Definition.declaration,
      last.HasSignature declaration.name declaration.arguments
        declaration.result :=
  List.forall_mem_map.mpr
    (forall_mem_of_forall₂ rereads fun _ _ _ here => here.declared)

/-- A definition that is known already is declared again without effect. -/
theorem registerStep_of_rereads (rereads : expression.Rereads last definition)
    (sortsIn : last.SortsIn session.symbols)
    (signatures : session.symbols.SignaturesIn last) :
    registerStep session expression =
      .ok { session with
        symbols := session.symbols.declare definition.declaration } := by
  obtain ⟨⟨command, later, isCommand, head, defined⟩, declared⟩ := rereads
  obtain ⟨header, parts⟩ := Command.exists_parts defined
  obtain rfl := parts.declares.table
  have same := (SignaturesIn.refl last).declare_of_hasSignature declared
  have registered : command.registerFunction session.symbols =
      .ok (session.symbols.declare definition.declaration) := by
    rw [Command.registerFunction,
      Command.functionHeader_yields sortsIn command _ parts.read, ok_bind,
      parts.declares.elsewhere signatures same]
    rfl
  exact registerStep_eq_ok_iff.mpr ⟨command, isCommand,
    .inl ⟨head, _, registered, rfl⟩⟩

theorem readsEntry_of_rereads (rereads : expression.Rereads last definition)
    (extended : last.ExtendedBy session.symbols)
    (signatures : session.symbols.SignaturesIn last)
    (allowed : ∀ earlier, session.definitions.find? definition.name =
        some earlier →
      earlier = definition) :
    session.ReadsEntry expression (.definition definition) := by
  obtain ⟨⟨command, later, isCommand, head, defined⟩, declared⟩ := rereads
  obtain ⟨header, parts⟩ := Command.exists_parts defined
  obtain rfl := parts.declares.table
  have same := (SignaturesIn.refl last).declare_of_hasSignature declared
  obtain ⟨_, again⟩ :=
    Command.defineFunction_eq_ok extended signatures same defined
  exact .definition ⟨command, _, isCommand, head, again⟩ allowed

theorem runAll_registerStep_of_rereads
    (rereads : List.Forall₂ (SExpr.Rereads last) expressions definitions)
    (sortsIn : last.SortsIn session.symbols)
    (signatures : session.symbols.SignaturesIn last) :
    runAll registerStep session expressions =
      (none, { session with
        symbols :=
  session.symbols.declareAll (definitions.map Definition.declaration) }) := by
  induction rereads generalizing session with
  | nil => rfl
  | cons here _ inductionHypothesis =>
      rw [runAll, registerStep_of_rereads here sortsIn signatures]
      exact inductionHypothesis ⟨sortsIn.sorts, sortsIn.aliases⟩
        (signatures.declare_of_hasSignature here.declared)

/-- Commands that were read before are read as the same definitions. -/
theorem readsEntries_of_rereads
    (rereads : List.Forall₂ (SExpr.Rereads last) expressions definitions)
    (extended : last.ExtendedBy session.symbols)
    (signatures : session.symbols.SignaturesIn last)
    (allowed : ∀ definition ∈ definitions, ∀ earlier,
      session.definitions.find? definition.name = some earlier →
      earlier = definition) :
    session.ReadsEntries expressions (definitions.map .definition) := by
  induction rereads generalizing session with
  | nil => exact .nil
  | @cons expression definition expressions definitions here _
      inductionHypothesis =>
      rw [List.forall_mem_cons] at allowed
      have reads := readsEntry_of_rereads here extended signatures allowed.1
      exact .cons reads (inductionHypothesis (extended.trans reads.extendedBy)
        (signatures.declare_of_hasSignature here.declared) allowed.2)

/-- The definitions of a run, read again over a table that has come from it. -/
theorem ReadsEntries.rereads {entries : List Entry}
    (reads : session.ReadsEntries expressions entries)
    (defining : ∀ expression ∈ expressions, expression.isDefinition = true)
    (extended : (entries.foldl SymbolTable.enter session.symbols).ExtendedBy
      last) :
    ∃ definitions : List Definition, entries = definitions.map .definition ∧
      List.Forall₂ (SExpr.Rereads last) expressions definitions ∧
      ∀ definition ∈ definitions, ∀ earlier,
        session.definitions.find? definition.name = some earlier →
        earlier = definition := by
  induction reads with
  | nil => exact ⟨[], rfl, .nil, fun _ member => absurd member List.not_mem_nil⟩
  | @cons session expression expressions entry entries here later
      inductionHypothesis =>
      rw [List.forall_mem_cons] at defining
      obtain ⟨definitions, rfl, rereads, allowed⟩ :=
        inductionHypothesis defining.2 extended
      cases here with
      | @definition definition reads allowedHere =>
          exact ⟨definition :: definitions, rfl,
            .cons (reads.rereads (later.extendedBy.trans extended)) rereads,
            List.forall_mem_cons.mpr ⟨allowedHere, allowed⟩⟩
      | sort isCommand head _ =>
          obtain ⟨_, _, headed⟩ := Command.headSymbol?_of_ofExpression isCommand
          rw [of_decide_eq_true defining.1, head] at headed
          exact absurd headed (by decide)
      | declaration isCommand notDefine _ _ _ =>
          obtain ⟨_, _, headed⟩ := Command.headSymbol?_of_ofExpression isCommand
          rw [of_decide_eq_true defining.1] at headed
          exact absurd (Option.some.inj headed).symm notDefine

end Session

end ModelAudit
