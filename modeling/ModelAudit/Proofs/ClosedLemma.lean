import ModelAudit.Proofs.ScopedTranslation
import ModelAudit.Proofs.UniverseAssumption

/-!
# Lemmas are closed

A lemma fixes every symbol that occurs free in one of its propositions, each one
once and with the type of its declaration. Isabelle would generalize over other
names, and the statement would be a different one.
-/

namespace ModelAudit

open Relation

/-- The lemma fixes the identifier of a declared symbol, with the type of the
declaration. -/
def Lemma.Fixes (statement : Lemma) (symbols : SymbolTable)
    (identifier : Text) : Prop :=
  ∃ declaration arguments result,
    symbols.lookup? declaration.name = some declaration ∧
    identifier = Identifier.escape declaration.name ∧
    (declaration.arguments.mapM fun sort => sort.toHol symbols.userSorts) =
      .ok arguments ∧
    declaration.result.toHol symbols.userSorts = .ok result ∧
    (identifier, HolType.curriedText arguments result) ∈ statement.fixes

/-- The assertions mention the name, directly or through definitions. -/
def Session.Pair.DependsOn (pair : Session.Pair) (name : Text) : Prop :=
  ∃ assertion ∈ pair.formula.assertions, ∃ first ∈ assertion.freeNames,
    ReflTransGen
      (Leads Definition.freeNames (Obligation.table pair.formula pair.model))
      first name

namespace Obligation

open Translation

/-- The symbols that the assertions depend on, in the order of the symbol table:
those without a kept definition and those with one. -/
structure Arranged (pair : Session.Pair) (assumed equated : List Text) :
    Prop where
  assumedOrder : assumed.Sublist pair.symbols.declarations.names
  equatedOrder : equated.Sublist pair.symbols.declarations.names
  mem_assumed : ∀ name, name ∈ assumed ↔
    (name ∈ pair.symbols.declarations.names ∧ pair.DependsOn name) ∧
      name ∉ (kept pair.formula pair.model).map Definition.name
  mem_equated : ∀ name, name ∈ equated ↔
    (name ∈ pair.symbols.declarations.names ∧ pair.DependsOn name) ∧
      name ∈ (kept pair.formula pair.model).map Definition.name
  unreserved : ∀ name ∈ assumed ++ equated, isBuiltinName name = false

/-- The kept definitions are those in effect that the assertions depend on, one
of a name, and the equations are theirs. -/
structure Equates (pair : Session.Pair) (equations : List (Text × HolTerm)) :
    Prop where
  order : (kept pair.formula pair.model).Sublist
      (definitionsInEffect pair.formula pair.model)
  mem_kept : ∀ definition, definition ∈ kept pair.formula pair.model ↔
    definition ∈ definitionsInEffect pair.formula pair.model ∧
    pair.DependsOn definition.name
  nodup : ((kept pair.formula pair.model).map Definition.name).Nodup
  each : List.Forall₂
    (fun definition equation => equation.fst =
        Identifier.escape definition.name ∧
      definitionValue (vocabulary .default pair.symbols)
          (rootScope pair.symbols) definition =
        .ok equation.snd)
    (kept pair.formula pair.model) equations

/-- The propositions of a lemma are those of an obligation, and it fixes what
occurs free in them, in order and without repetition. -/
structure IsClosed (pair : Session.Pair) (obligation : Obligation)
    (statement : Lemma) :
    Prop where
  goalText : statement.goal = obligation.goal.text
  assumptionTexts : statement.assumptions.flatMap Prod.snd =
    obligation.equations.map equationText ++ obligation.distinct.map
      distinctText
  nodup : (statement.fixes.map Prod.fst).Nodup
  arranged : ∃ assumed equated, Arranged pair assumed equated ∧
    statement.fixes.map Prod.fst = (assumed ++ equated).map Identifier.escape
  goal : ∀ identifier ∈ obligation.goal.freeVariables,
      statement.Fixes pair.symbols identifier
  left : ∀ equation ∈ obligation.equations,
      statement.Fixes pair.symbols equation.fst
  right : ∀ equation ∈ obligation.equations,
      ∀ identifier ∈ equation.snd.freeVariables,
    statement.Fixes pair.symbols identifier
  distinct : ∀ identifiers ∈ obligation.distinct, ∀ identifier ∈ identifiers,
    statement.Fixes pair.symbols identifier
  goalBinders : ∀ identifier ∈ obligation.goal.boundVariables,
    identifier ∉ statement.fixes.map Prod.fst
  equationBinders : ∀ equation ∈ obligation.equations,
    ∀ identifier ∈ equation.snd.boundVariables,
      identifier ∉ statement.fixes.map Prod.fst
  equates : Equates pair obligation.equations

variable {operators : OperatorTable} {pair : Session.Pair}
  {obligation : Obligation} {config : Config} {identifier name : Text}

theorem mem_reached_iff_dependsOn :
    name ∈ reached pair.formula pair.model ↔ pair.DependsOn name :=
  mem_reached

/-! ## Propositions -/

theorem flatMap_filter_of_nonempty {test : Text × List Text → Bool}
    (nonempty : ∀ group, test group = !group.snd.isEmpty)
    (groups : List (Text × List Text)) :
    (groups.filter test).flatMap Prod.snd = groups.flatMap Prod.snd := by
  induction groups with
  | nil => rfl
  | cons group groups inductionHypothesis =>
      obtain ⟨label, propositions⟩ := group
      cases propositions with
      | nil => simpa [nonempty] using inductionHypothesis
      | cons first others => simpa [nonempty] using inductionHypothesis

/-- An empty group of assumptions holds no proposition, so leaving it out loses
none. -/
theorem flatMap_assumptions (obligation : Obligation) :
    obligation.assumptions.flatMap Prod.snd =
      obligation.equations.map equationText ++ obligation.distinct.map
        distinctText := by
  rw [assumptions, flatMap_filter_of_nonempty fun _ => rfl]
  simp

/-! ## Fixed names -/

/-- The names in use that have a kept definition, or those that have none. -/
def usedNames (pair : Session.Pair) (defined : Bool) : List Text :=
  pair.symbols.declarations.names.filter fun name =>
    (reached pair.formula pair.model).contains name &&
      ((kept pair.formula pair.model).map Definition.name).contains name ==
        defined

theorem mem_usedNames {defined : Bool} :
    name ∈ usedNames pair defined ↔
      (name ∈ pair.symbols.declarations.names ∧ pair.DependsOn name) ∧
        (decide (name ∈ (kept pair.formula pair.model).map Definition.name)) =
          defined := by
  rw [usedNames, List.mem_filter, Bool.and_eq_true, List.contains_iff_mem,
    and_assoc, mem_reached_iff_dependsOn, beq_iff_eq, List.contains_eq_mem]

theorem declared_of_mem_usedNames
    (member : name ∈ usedNames pair false ++ usedNames pair true) :
    name ∈ pair.symbols.declarations.names := by
  rcases List.mem_append.mp member with inside | inside
  · exact (mem_usedNames.mp inside).1.1
  · exact (mem_usedNames.mp inside).1.1

/-- A settled table lists every symbol under its name. -/
theorem map_name_values (settled : pair.Settled) :
    pair.symbols.declarations.values.map Declaration.name =
      pair.symbols.declarations.names := by
  have nodup := settled.reached.nodup_names List.nodup_nil
  rw [Table.values, Table.names, List.map_map]
  apply List.map_congr_left
  rintro ⟨name, declaration⟩ member
  exact settled.wellFormed.names name declaration
    ((Table.find?_eq_some_iff_of_nodup nodup).mpr member)

/-- No declared symbol has the name of an operator, so what is left out for its
name is nothing. -/
theorem isBuiltinName_of_mem_values (settled : pair.Settled)
    {declaration : Declaration}
    (member : declaration ∈ pair.symbols.declarations.values) :
    isBuiltinName declaration.name = false := by
  apply settled.wellFormed.unreserved
  rw [← map_name_values settled]
  exact List.mem_map_of_mem member

theorem mem_usedDeclarations {symbols : SymbolTable} {names : List Text}
    {definitions : List Definition} {declaration : Declaration} :
    declaration ∈ usedDeclarations symbols names definitions ↔
      declaration ∈ symbols.declarations.values ∧ declaration.name ∈ names ∧
        isBuiltinName declaration.name = false := by
  simp only [usedDeclarations, List.mem_append, List.mem_filter,
    Bool.and_eq_true, List.contains_eq_mem, decide_eq_true_eq,
    Bool.not_eq_true', decide_eq_false_iff_not]
  tauto

/-- The declarations in use are listed by name, those without a definition
first. -/
theorem map_name_usedDeclarations (settled : pair.Settled) :
    (usedDeclarations pair.symbols (reached pair.formula pair.model)
        (kept pair.formula pair.model)).map Declaration.name =
      usedNames pair false ++ usedNames pair true := by
  have part (defined : Bool) :
      ((pair.symbols.declarations.values.filter fun declaration =>
        ((kept pair.formula pair.model).map Definition.name).contains
          declaration.name == defined &&
          ((reached pair.formula pair.model).contains declaration.name &&
            !isBuiltinName declaration.name)).map Declaration.name) =
        usedNames pair defined := by
    rw [usedNames, ← map_name_values settled, List.filter_map]
    congr 1
    apply List.filter_congr
    intro declaration member
    rw [isBuiltinName_of_mem_values settled member, Function.comp_apply,
      Bool.not_false, Bool.and_true, Bool.and_comm]
  rw [usedDeclarations, List.map_append, List.filter_filter, List.filter_filter,
    ← part, ← part]
  simp only [beq_false, beq_true]

/-- The lemma fixes the identifiers of the names in use, in their order. -/
theorem map_fst_fixes (settled : pair.Settled)
    (assembled : Assembled operators pair obligation) :
    (obligation.theory config).statement.fixes.map Prod.fst =
      (usedNames pair false ++ usedNames pair true).map Identifier.escape := by
  have shapes : obligation.fixed.map Prod.fst =
      (usedDeclarations pair.symbols (reached pair.formula pair.model)
        (kept pair.formula pair.model)).map
          (Identifier.escape ∘ Declaration.name) := by
    refine Outcome.map_eq_of_mapM assembled.fixed
      fun declaration fixed computed => ?_
    obtain ⟨arguments, _, computed⟩ := Outcome.bind_eq_ok.mp computed
    obtain ⟨result, _, computed⟩ := Outcome.bind_eq_ok.mp computed
    obtain rfl := Except.ok.inj computed
    rfl
  rw [← map_name_usedDeclarations settled, List.map_map, ← shapes, theory,
    statement, List.map_map]
  rfl

theorem arranged_usedNames (settled : pair.Settled) :
    Arranged pair (usedNames pair false) (usedNames pair true) where
  assumedOrder := List.filter_sublist
  equatedOrder := List.filter_sublist
  mem_assumed name := by rw [mem_usedNames, decide_eq_false_iff_not]
  mem_equated name := by rw [mem_usedNames, decide_eq_true_iff]
  unreserved name member :=
    settled.wellFormed.unreserved name (declared_of_mem_usedNames member)

theorem nodup_usedNames (settled : pair.Settled) :
    (usedNames pair false ++ usedNames pair true).Nodup := by
  have nodup := settled.reached.nodup_names List.nodup_nil
  refine List.nodup_append.mpr ⟨nodup.filter _, nodup.filter _, ?_⟩
  rintro name assumed _ equated rfl
  have undefined := (mem_usedNames.mp assumed).2
  rw [(mem_usedNames.mp equated).2] at undefined
  cases undefined

/-- A declared symbol that the assertions depend on is fixed. -/
theorem fixes_escape (settled : pair.Settled)
    (assembled : Assembled operators pair obligation)
    (declared : pair.symbols.lookup? name ≠ none)
    (depends : pair.DependsOn name) :
    (obligation.theory config).statement.Fixes pair.symbols
      (Identifier.escape name) := by
  obtain ⟨declaration, found⟩ := Option.ne_none_iff_exists'.mp declared
  obtain rfl := settled.wellFormed.names name declaration found
  have listed : declaration ∈ pair.symbols.declarations.values :=
    List.mem_map_of_mem (Table.mem_of_find?_eq_some found)
  have used : declaration ∈ usedDeclarations pair.symbols
      (reached pair.formula pair.model) (kept pair.formula pair.model) :=
    mem_usedDeclarations.mpr ⟨listed, mem_reached_iff_dependsOn.mpr depends,
      isBuiltinName_of_mem_values settled listed⟩
  obtain ⟨fixed, member, computed⟩ :=
    Outcome.exists_mem_of_mapM assembled.fixed used
  obtain ⟨arguments, argumentTypes, computed⟩ := Outcome.bind_eq_ok.mp computed
  obtain ⟨result, resultType, computed⟩ := Outcome.bind_eq_ok.mp computed
  obtain rfl := Except.ok.inj computed
  exact ⟨declaration, arguments, result, found, rfl, argumentTypes, resultType,
    List.mem_map_of_mem member⟩

/-! ## Variables -/

theorem covered_rootScope (symbols : SymbolTable) :
    (rootScope symbols).Covered ([] : Scope) :=
  fun _ member => absurd member List.not_mem_nil

/-- What the translation of a part of the lemma refers to is fixed. -/
theorem fixes_of_refers (settled : pair.Settled)
    (assembled : Assembled operators pair obligation) {names : List Text}
    (depends : ∀ name ∈ names, pair.DependsOn name)
    (refers : Refers pair.symbols (rootScope pair.symbols)
      [] names identifier) :
    (obligation.theory config).statement.Fixes pair.symbols identifier := by
  obtain ⟨name, inside, rfl, bound | declared⟩ := refers
  · cases bound
  · exact fixes_escape settled assembled declared (depends name inside)

/-- What is new at the root is not fixed. -/
theorem not_mem_fixes (settled : pair.Settled)
    (assembled : Assembled operators pair obligation)
    (fresh : identifier ∉ (rootScope pair.symbols).taken) :
    identifier ∉ (obligation.theory config).statement.fixes.map Prod.fst := by
  intro fixed
  rw [map_fst_fixes settled assembled] at fixed
  obtain ⟨name, used, rfl⟩ := List.mem_map.mp fixed
  exact fresh (List.mem_append_left _
    (List.mem_map_of_mem (declared_of_mem_usedNames used)))

/-- The parts of the lemma are scoped at the root. -/
theorem scopedIn_goal (settled : pair.Settled)
    (assembled : Assembled operators pair obligation) :
    ∃ parts, obligation.goal = .conjoin parts ∧
      ∀ part ∈ parts, ∃ names, (∀ name ∈ names, pair.DependsOn name) ∧
        ScopedIn pair.symbols (rootScope pair.symbols) [] names part := by
  obtain ⟨parts, translated, shape⟩ := assembled.goal
  refine ⟨parts, shape, fun part member => ?_⟩
  obtain ⟨assertion, inside, computed⟩ :=
    Outcome.exists_of_mem_mapM translated member
  refine ⟨assertion.freeNames,
    fun name free => ⟨assertion, inside, name, free, .refl⟩, ?_⟩
  exact translatesScoped assertion _ _ part (covered_rootScope _)
    (settled.formula.assertions assertion inside) computed

/-- An equation refers to names that the assertions depend on, through the
definition that it states. -/
theorem scopedIn_equation (settled : pair.Settled)
    (assembled : Assembled operators pair obligation)
    {equation : Text × HolTerm}
    (member : equation ∈ obligation.equations) :
    ∃ names, (∀ name ∈ names, pair.DependsOn name) ∧
      ScopedIn pair.symbols (rootScope pair.symbols) [] names equation.snd := by
  obtain ⟨definition, inside, computed⟩ :=
    Outcome.exists_of_mem_mapM assembled.equations member
  obtain ⟨value, translated, shape⟩ := Outcome.bind_eq_ok.mp computed
  obtain rfl := Except.ok.inj shape
  obtain ⟨found, reached⟩ := mem_kept.mp inside
  refine ⟨definition.freeNames, fun name free => ?_, ?_⟩
  · exact mem_reached.mp (reached_step reached ⟨definition, found, free⟩)
  · have settledDefinition :=
      settled.definition definition (definition_of_find? found).1
    exact scopedIn_definitionValue (covered_rootScope _) settledDefinition.body
      translated

/-- There is one equation for each kept definition, between its name and its
translated body. -/
theorem equates_of_assembled (assembled : Assembled .default pair obligation) :
    Equates pair obligation.equations where
  order := List.filter_sublist
  mem_kept definition := by
    rw [kept, Reachability.keptDefinitions, List.mem_filter,
      List.contains_iff_mem, mem_reached_iff_dependsOn]
  nodup := by
    have nodup :
        ((definitionsInEffect pair.formula pair.model).map
          Definition.name).Nodup := by
      rw [definitionsInEffect, names_effectiveDefinitions]
      exact Table.nodup_names_ofPairs _
    exact nodup.sublist (List.filter_sublist.map Definition.name)
  each := by
    apply (Outcome.mapM_eq_ok.mp assembled.equations).imp
    intro definition equation computed
    obtain ⟨value, translated, shape⟩ := Outcome.bind_eq_ok.mp computed
    obtain rfl := Except.ok.inj shape
    exact ⟨rfl, translated⟩

/-- The lemma of every pair is closed: it fixes what occurs free in its
propositions, each symbol once and with its type, and nothing that it binds. -/
theorem statement_isClosed {formulaText modelOutput : Text}
    (read : Session.readPair formulaText modelOutput = .ok pair)
    (assembled : ofPair .default pair = .ok obligation) (config : Config) :
    IsClosed pair obligation (obligation.theory config).statement := by
  have settled := Session.readPair_settled read
  have parts := assembled_of_ofPair assembled
  obtain ⟨conjuncts, goalShape, scopedGoal⟩ := scopedIn_goal settled parts
  constructor
  case goalText => rfl
  case assumptionTexts => exact flatMap_assumptions obligation
  case nodup =>
    rw [map_fst_fixes settled parts]
    exact (nodup_usedNames settled).map Identifier.escape_injective
  case arranged =>
    exact ⟨_, _, arranged_usedNames settled, map_fst_fixes settled parts⟩
  case goal =>
    rw [goalShape]
    refine (HolTerm.compositional_freeVariables _).conjoin
      fun part member identifier free => ?_
    obtain ⟨names, depends, placed⟩ := scopedGoal part member
    exact fixes_of_refers settled parts depends (placed.free identifier free)
  case goalBinders =>
    rw [goalShape]
    refine (HolTerm.compositional_boundVariables _).conjoin
      fun part member identifier bound => ?_
    obtain ⟨names, _, placed⟩ := scopedGoal part member
    exact not_mem_fixes settled parts (placed.fresh identifier bound)
  case left =>
    intro equation member
    have inLeft := List.mem_map_of_mem (f := Prod.fst) member
    rw [parts.map_fst_equations] at inLeft
    obtain ⟨definition, inside, same⟩ := List.mem_map.mp inLeft
    obtain ⟨found, reached⟩ := mem_kept.mp inside
    have signature :=
      (settled.definition definition (definition_of_find? found).1).signature
    rw [← same]
    exact fixes_escape settled parts signature.lookup?_ne_none
      (mem_reached_iff_dependsOn.mp reached)
  case right =>
    intro equation member identifier free
    obtain ⟨names, depends, placed⟩ := scopedIn_equation settled parts member
    exact fixes_of_refers settled parts depends (placed.free identifier free)
  case equationBinders =>
    intro equation member identifier bound
    obtain ⟨names, _, placed⟩ := scopedIn_equation settled parts member
    exact not_mem_fixes settled parts (placed.fresh identifier bound)
  case distinct =>
    intro identifiers listed identifier inside
    obtain ⟨sort, rfl, _⟩ := parts.mem_distinct.mp listed
    obtain ⟨name, member, rfl⟩ := List.mem_map.mp inside
    have signature := signature_of_mem_listedNames settled member
    obtain ⟨constant, declared, _, rfl⟩ := mem_listedNames.mp member
    have depends := (List.mem_filter.mp (List.mem_filter.mp declared).1).2
    exact fixes_escape settled parts signature.lookup?_ne_none
      (mem_reached_iff_dependsOn.mp (List.contains_iff_mem.mp depends))
  case equates => exact equates_of_assembled parts

/-- The formula `forall c. c = d` under a declared `c`, and a model that defines
`d` as `c`. -/
def shadowedConstant : Session.Pair where
  formula :=
    ⟨[.quantified .universal [("c", .int)]
      (.application (.operator .equality) [] [.symbol "c" .int,
        .symbol "d" .int] .bool)], []⟩
  model := ⟨[⟨⟨"d", [], .int, .defined⟩, [], .symbol "c" .int⟩], []⟩
  symbols :=
    ⟨[("d", ⟨"d", [], .int, .defined⟩), ("c", ⟨"c", [], .int, .declared⟩)], [],
      []⟩

theorem reached_shadowedConstant :
    reached shadowedConstant.formula shadowedConstant.model =
      (["=", "c", "d"] : List Text) := by
  have first : shadowedConstant.formula.assertions.flatMap Term.freeNames =
      (["d", "="] : List Text) := by
    decide +kernel
  rw [reached, Reachability.reachedNames, first,
    Reachability.visit_of_found (by decide +kernel) rfl]
  change Reachability.visit [] (["d"] : List Text) (["c", "="] : List Text) = _
  rw [Reachability.visit_of_absent (by decide +kernel) rfl,
    Reachability.visit_of_absent (by decide +kernel) rfl, Reachability.visit]

/-- The binder gets a new name, and the constant that the equation refers to is
fixed before the defined one. -/
theorem shadowedConstant_isClosed :
    Session.readPair
          "(declare-const d Int)(declare-const c Int)(assert (forall ((c Int)) (= c d)))"
          "(define-fun d () Int c)" =
        .ok shadowedConstant ∧
      ∃ obligation, ofPair .default shadowedConstant = .ok obligation ∧
        (obligation.theory .default).statement.fixes =
          ([("c", "int"), ("d", "int")] : List (Text × Text)) ∧
        (obligation.theory .default).statement.goal =
          ("(\\<forall>(c'1::int). (c'1 = d))" : Text) ∧
        obligation.equations.map equationText = (["d = c"] : List Text) ∧
        IsClosed shadowedConstant obligation
          (obligation.theory .default).statement := by
  have read : Session.readPair
      "(declare-const d Int)(declare-const c Int)(assert (forall ((c Int)) (= c d)))"
      "(define-fun d () Int c)" = .ok shadowedConstant :=
    Outcome.toOption_eq_some_iff.mp (by decide +kernel)
  have texts :
      (ofPair .default shadowedConstant).toOption.map (fun obligation =>
        ((obligation.theory .default).statement.fixes,
          (obligation.theory .default).statement.goal,
          obligation.equations.map equationText)) =
      some (([("c", "int"), ("d", "int")] : List (Text × Text)),
        ("(\\<forall>(c'1::int). (c'1 = d))" : Text),
        (["d = c"] : List Text)) := by
    rw [ofPair, reached_shadowedConstant]
    decide +kernel
  obtain ⟨obligation, assembled, shapes⟩ := Option.map_eq_some_iff.mp texts
  obtain ⟨fixes, rest⟩ := Prod.mk.inj shapes
  obtain ⟨goal, equations⟩ := Prod.mk.inj rest
  have ofPair := Outcome.toOption_eq_some_iff.mp assembled
  exact ⟨read, obligation, ofPair, fixes, goal, equations,
    statement_isClosed read ofPair .default⟩

end Obligation

end ModelAudit
