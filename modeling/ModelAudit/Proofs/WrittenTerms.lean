import ModelAudit.Proofs.AnsweringSession
import ModelAudit.Proofs.Subterms

/-!
# Terms as they are written

Where reading an expression succeeds, it comes to every term that is written
inside it, and each of them becomes a part of the term that is read.
-/

namespace ModelAudit

open Relation

/-- The second expression stands directly inside the first one, in the place of
a term. -/
inductive SExpr.Writes : SExpr → SExpr → Prop
  | argument {head argument : SExpr} {arguments : List SExpr}
      {position : Position} :
      head.isApplied = true → argument ∈ arguments →
      Writes (.list (head :: arguments) position) argument
  | boundValue {mark nameExpression value body : SExpr} {bound : List SExpr}
      {bindingPosition listPosition position : Position} :
      mark.isSymbol "let" = true →
      .list [nameExpression, value] bindingPosition ∈ bound →
      Writes (.list [mark, .list bound listPosition, body] position) value
  | letBody {mark body : SExpr} {bound : List SExpr}
      {listPosition position : Position} :
      mark.isSymbol "let" = true →
      Writes (.list [mark, .list bound listPosition, body] position) body
  | quantifierBody {mark body : SExpr} {names : List SExpr} {name : Text}
      {quantifier : Quantifier} {listPosition position : Position} :
      mark.symbol? = some name → quantifier? name = some quantifier →
      Writes (.list [mark, .list names listPosition, body] position) body
  | annotated {mark annotated : SExpr} {attributes : List SExpr}
      {position : Position} :
      mark.isSymbol "!" = true →
      Writes (.list (mark :: annotated :: attributes) position) annotated

/-- The second expression stands inside the first one at any depth, in the place
of a term. -/
abbrev SExpr.Contains : SExpr → SExpr → Prop :=
  ReflTransGen SExpr.Writes

variable {symbols : SymbolTable} {scope : Scope}

/-! ## Applications -/

/-- What the name, with its indices and its stated sort, becomes when it is
applied. -/
inductive Applies (symbols : SymbolTable) (name : Text) (indices : List Nat)
    (stated : Option SmtSort) : List Term → Term → Prop
  | constantArray {value : Term} {sort : SmtSort} :
      name = Operator.constantArray.name → stated = some sort →
      Applies symbols name indices stated [value]
        (.application (.operator .constantArray) [] [value] sort)
  | function {arguments : List Term} {declaration : Declaration} :
      symbols.lookup? name = some declaration →
      Applies symbols name indices stated arguments
        (.application (.function name) indices arguments declaration.result)
  | operation {arguments : List Term} {operator : Operator}
      {rule : SignatureRule} {sort : SmtSort} :
      symbols.lookup? name = none → operator.name = name →
      operator.rule? = some rule →
      rule.resultSort operator (arguments.map Term.sort)
        (indices.map Int.ofNat) = .ok sort →
      Applies symbols name indices stated arguments
        (.application (.operator operator) indices arguments sort)

theorem Operator.name_of_ofPlainName? {name : Text} {operator : Operator}
    (known : ofPlainName? name = some operator) : operator.name = name := by
  obtain ⟨found, _⟩ := Option.filter_eq_some_iff.mp known
  simpa using List.find?_some found

/-- A name that is applied stands for a declared function or an operator. -/
theorem applies_of_applyName {name : Text} {indices : List Nat}
    {stated : Option SmtSort} {arguments : List Term} {expression : SExpr}
    {headPlace : Place} {term : Term}
    (applied : applyName symbols scope name indices stated arguments expression
        headPlace =
      .ok term) :
    Applies symbols name indices stated arguments term := by
  obtain ⟨_, ⟨_, value, sort, isConstant, isStated, rfl, _, rfl⟩ |
    ⟨head, sort, resolves, _, rfl⟩⟩ := applyName_eq_ok applied
  · exact .constantArray isConstant isStated
  · cases resolves with
    | function found _ => exact .function found
    | operator absent known ruled fits =>
        exact .operation absent (Operator.name_of_ofPlainName? known) ruled fits

theorem Applies.components {name : Text} {indices : List Nat}
    {stated : Option SmtSort} {arguments : List Term} {term : Term}
    (applies : Applies symbols name indices stated arguments term) :
    term.components = arguments := by
  cases applies with
  | constantArray _ _ | function _ | operation _ _ _ _ => rfl

/-- Whatever stands in the place of a function, a name is applied to the
arguments. -/
theorem exists_applies_of_applyList {items : List SExpr}
    {headExpression : SExpr} {arguments : List Term} {expression : SExpr}
    {term : Term}
    (applied : applyList symbols scope items headExpression arguments
      expression = .ok term) :
    ∃ name indices stated,
      Applies symbols name indices stated arguments term := by
  obtain ⟨name, indices, stated, _, applied⟩ := exists_givesName applied
  exact ⟨name, indices, stated, applies_of_applyName applied⟩

theorem components_of_applyHead {head expression : SExpr}
    {arguments : List Term} {term : Term}
    (applied : applyHead symbols scope head arguments expression = .ok term) :
    term.components = arguments := by
  cases head with
  | atom leaf position =>
      rw [applyHead] at applied
      exact (applies_of_applyName applied).components
  | list items position =>
      rw [applyHead] at applied
      obtain ⟨_, _, _, applies⟩ := exists_applies_of_applyList applied
      exact applies.components

/-! ## Parts that are read -/

theorem readTerms_eq_mapM (expressions : List SExpr) :
    readTerms symbols scope expressions = expressions.mapM
      (readTerm symbols scope) := by
  induction expressions with
  | nil =>
      rw [readTerms, List.mapM_nil]
      rfl
  | cons first others inductionHypothesis =>
    rw [readTerms, List.mapM_cons, inductionHypothesis]

/-- A binding is read after those before it and becomes one of the bindings. -/
theorem exists_of_readBindings {seen : List Text} {before after : List SExpr}
    {nameExpression value : SExpr} {position : Position}
    {bindings : List (Text × Term)}
    (read : readBindings symbols scope seen
      (before ++ .list [nameExpression, value] position :: after) =
        .ok bindings) :
    ∃ earlier name bound, readBindings symbols scope seen before = .ok earlier ∧
      nameExpression.symbol? = some name ∧ name ∉ earlier.map Prod.fst ∧
      name ∉ seen ∧
      readTerm symbols scope value = .ok bound ∧ (name, bound) ∈ bindings := by
  induction before generalizing seen bindings with
  | nil =>
      obtain ⟨_, _, _, name, bound, rest, same, rfl, parts⟩ :=
        exists_bindingParts read
      cases same
      exact ⟨[], name, bound, by rw [readBindings], parts.named,
        List.not_mem_nil, parts.unseen, parts.value, List.mem_cons_self⟩
  | cons first before inductionHypothesis =>
      obtain ⟨_, _, _, first, firstBound, rest, rfl, rfl, parts⟩ :=
        exists_bindingParts read
      obtain ⟨earlier, name, bound, earlierRead, named, unbound, unseen,
          boundRead, member⟩ :=
        inductionHypothesis parts.others
      obtain ⟨different, unseen⟩ := not_or.mp (mt List.mem_cons.mpr unseen)
      refine ⟨(first, firstBound) :: earlier, name, bound, ?_, named, ?_,
        unseen, boundRead, List.mem_cons_of_mem _ member⟩
      · rw [readBindings_cons parts.named parts.unseen, parts.value,
          earlierRead]
        rfl
      · exact List.not_mem_cons_of_ne_of_not_mem different unbound

/-- A direct part of an expression that is read is read as a direct part of its
term. -/
theorem Visits.exists_component {site part : Site}
    (visits : Visits symbols site part) {term : Term}
    (read : readTerm symbols site.scope site.expression = .ok term) :
    ∃ component ∈ term.components,
      readTerm symbols part.scope part.expression = .ok component := by
  cases visits with
  | argument applied _ =>
      rw [readTerm_of_isApplied applied] at read
      obtain ⟨terms, argumentsRead, read⟩ := Outcome.bind_eq_ok.mp read
      rw [components_of_applyHead read]
      rw [readTerms_eq_mapM] at argumentsRead
      exact Outcome.exists_mem_of_mapM argumentsRead
        (List.mem_append_right _ List.mem_cons_self)
  | boundValue isLet _ _ _ =>
      rw [readTerm_of_let isLet (by simp)] at read
      obtain ⟨bindings, boundRead, read⟩ := Outcome.bind_eq_ok.mp read
      obtain ⟨body, _, read⟩ := Outcome.bind_eq_ok.mp read
      obtain rfl := Except.ok.inj read
      obtain ⟨_, name, bound, _, _, _, _, valueRead, member⟩ :=
        exists_of_readBindings boundRead
      exact ⟨bound, List.mem_append_left _ (List.mem_map.mpr ⟨_, member, rfl⟩),
        valueRead⟩
  | letBody isLet nonempty boundRead =>
      rw [readTerm_of_let isLet nonempty, boundRead, Outcome.ok_bind] at read
      obtain ⟨body, bodyRead, read⟩ := Outcome.bind_eq_ok.mp read
      obtain rfl := Except.ok.inj read
      exact ⟨body, List.mem_append_right _ (List.mem_singleton_self body),
        bodyRead⟩
  | quantifierBody named isQuantifier nonempty namesRead =>
      rw [readTerm_of_quantifier named isQuantifier nonempty, namesRead,
        Outcome.ok_bind] at read
      obtain ⟨body, bodyRead, read⟩ := Outcome.bind_eq_ok.mp read
      split at read
      · obtain rfl := Except.ok.inj read
        exact ⟨body, List.mem_singleton_self body, bodyRead⟩
      · cases read
  | annotated isMark nonempty =>
      rw [readTerm_of_annotated isMark nonempty] at read
      obtain ⟨inner, innerRead, read⟩ := Outcome.bind_eq_ok.mp read
      obtain ⟨attributes, _, read⟩ := Outcome.bind_eq_ok.mp read
      obtain rfl := Except.ok.inj read
      exact ⟨inner, List.mem_singleton_self inner, innerRead⟩

/-- What reading comes to is read as a part of the term. -/
theorem ComesTo.exists_partOf {site part : Site}
    (comes : ComesTo symbols site part) {term : Term}
    (read : readTerm symbols site.scope site.expression = .ok term) :
    ∃ inner : Term, inner.PartOf term ∧
      readTerm symbols part.scope part.expression = .ok inner := by
  induction comes with
  | refl => exact ⟨term, .refl, read⟩
  | tail _ visits inductionHypothesis =>
      obtain ⟨inner, within, innerRead⟩ := inductionHypothesis
      obtain ⟨component, member, componentRead⟩ :=
        visits.exists_component innerRead
      exact ⟨component, .head member within, componentRead⟩

/-- Where a list with a mark is read, the list after the mark is not empty. -/
theorem bound_ne_nil {mark body : SExpr} {name : Text} {bound : List SExpr}
    {listPosition position : Position} {term : Term}
    (named : mark.symbol? = some name)
    (binds : name = "let" ∨ (quantifier? name).isSome = true)
    (read : readTerm symbols scope
        (.list [mark, .list bound listPosition, body] position) =
      .ok term) : bound ≠ [] := by
  obtain ⟨quoted, markPosition, rfl⟩ := SExpr.exists_of_symbol? named
  rintro rfl
  rw [readTerm.eq_def] at read
  dsimp only at read
  split at read
  · cases read
  next notLet =>
  obtain ⟨quantifier, isQuantifier⟩ :=
    Option.isSome_iff_exists.mp (binds.resolve_left notLet)
  rw [isQuantifier] at read
  cases read

theorem attributes_ne_nil {mark annotated : SExpr} {attributes : List SExpr}
    {position : Position} {term : Term} (isMark : mark.isSymbol "!" = true)
    (read : readTerm symbols scope
      (.list (mark :: annotated :: attributes) position) = .ok term) :
    attributes ≠ [] := by
  obtain ⟨quoted, markPosition, rfl⟩ :=
    SExpr.exists_of_symbol? (SExpr.symbol?_of_isSymbol isMark)
  rintro rfl
  rw [readTerm.eq_def] at read
  dsimp only at read
  rw [if_neg (by decide), show quantifier? "!" = none by decide] at read
  dsimp only at read
  rw [if_pos rfl] at read
  cases read

/-- Reading comes to everything that is written in an expression that is
read. -/
theorem SExpr.Writes.exists_visits {whole part : SExpr}
    (writes : whole.Writes part) {term : Term}
    (read : readTerm symbols scope whole = .ok term) :
    ∃ inner, Visits symbols ⟨scope, whole⟩ ⟨inner, part⟩ := by
  cases writes with
  | argument applied member =>
      obtain ⟨before, after, rfl⟩ := List.append_of_mem member
      rw [readTerm_of_isApplied applied, readTerms_eq_mapM, List.mapM_append]
        at read
      obtain ⟨terms, argumentsRead, _⟩ := Outcome.bind_eq_ok.mp read
      obtain ⟨earlier, earlierRead, _⟩ := Outcome.bind_eq_ok.mp argumentsRead
      rw [← readTerms_eq_mapM] at earlierRead
      exact ⟨scope, .argument applied earlierRead⟩
  | boundValue isLet member =>
      obtain ⟨before, after, rfl⟩ := List.append_of_mem member
      rw [readTerm_of_let isLet (by simp)] at read
      obtain ⟨bindings, boundRead, _⟩ := Outcome.bind_eq_ok.mp read
      obtain ⟨earlier, name, _, earlierRead, named, unbound, _⟩ :=
        exists_of_readBindings boundRead
      exact ⟨scope, .boundValue isLet earlierRead named unbound⟩
  | letBody isLet =>
      have nonempty :=
        bound_ne_nil (SExpr.symbol?_of_isSymbol isLet) (.inl rfl) read
      rw [readTerm_of_let isLet nonempty] at read
      obtain ⟨bindings, boundRead, _⟩ := Outcome.bind_eq_ok.mp read
      exact ⟨_, .letBody isLet nonempty boundRead⟩
  | quantifierBody named isQuantifier =>
      have nonempty :=
        bound_ne_nil named (.inr (by rw [isQuantifier]; rfl)) read
      rw [readTerm_of_quantifier named isQuantifier nonempty] at read
      obtain ⟨binders, namesRead, _⟩ := Outcome.bind_eq_ok.mp read
      exact ⟨_, .quantifierBody named isQuantifier nonempty namesRead⟩
  | annotated isMark =>
    exact ⟨scope, .annotated isMark (attributes_ne_nil isMark read)⟩

theorem SExpr.Contains.exists_comesTo {whole part : SExpr}
    (contains : whole.Contains part) {term : Term}
    (read : readTerm symbols scope whole = .ok term) :
    ∃ inner, ComesTo symbols ⟨scope, whole⟩ ⟨inner, part⟩ := by
  induction contains with
  | refl => exact ⟨scope, .refl⟩
  | tail _ writes inductionHypothesis =>
      obtain ⟨middle, comes⟩ := inductionHypothesis
      obtain ⟨_, _, middleRead⟩ := ComesTo.exists_partOf comes read
      obtain ⟨inner, visits⟩ := writes.exists_visits middleRead
      exact ⟨inner, comes.tail visits⟩

/-! ## Commands -/

/-- The command asserts the term or defines a function by it. -/
def SExpr.States (expression term : SExpr) : Prop :=
  ∃ command, Command.ofExpression expression = .ok command ∧
    (command.head = ("assert" : Text) ∧
      (∃ first, command.items = [first, term]) ∨
      command.head = ("define-fun" : Text) ∧
        ∃ first name params result,
          command.items = [first, name, params, result, term])

theorem SExpr.states_assertion {mark term : SExpr} {position : Position}
    (isAssertion : mark.isSymbol "assert" = true) :
    (SExpr.list [mark, term] position).States term := by
  refine ⟨⟨"assert", [mark, term], .list [mark, term] position⟩, ?_,
    .inl ⟨rfl, mark, rfl⟩⟩
  rw [Command.ofExpression]
  simp only [SExpr.headSymbol?, SExpr.symbol?_of_isSymbol isAssertion]

/-- The assertions of a formula and the bodies of its definitions. -/
def Formula.terms (formula : Formula) : List Term :=
  formula.assertions ++ formula.definitions.map Definition.body

namespace Command

variable {command : Command}

theorem HoldsTerm.exists_read_of_readAssertion {site : Site} {term : Term}
    (holds : command.HoldsTerm symbols site)
    (isAssertion : command.head = ("assert" : Text))
    (read : command.readAssertion symbols = .ok term) :
    readTerm symbols site.scope site.expression = .ok term := by
  cases holds with
  | assertion _ items =>
      obtain ⟨_, _, sameItems, termRead, _⟩ := readAssertion_eq_ok read
      rw [items] at sameItems
      simp only [List.cons.injEq, and_true] at sameItems
      obtain ⟨_, rfl⟩ := sameItems
      exact termRead
  | body isDefinition _ =>
      rw [isDefinition] at isAssertion
      exact absurd isAssertion (by decide)

theorem HoldsTerm.exists_read_of_defineFunction {site : Site}
    {definition : Definition} {later : SymbolTable}
    (holds : command.HoldsTerm symbols site)
    (isDefinition : command.head = ("define-fun" : Text))
    (defined : command.defineFunction symbols = .ok (definition, later)) :
    readTerm symbols site.scope site.expression = .ok definition.body := by
  cases holds with
  | assertion isAssertion _ =>
      rw [isDefinition] at isAssertion
      exact absurd isAssertion (by decide)
  | body _ headerRead =>
      obtain ⟨header, parts⟩ := exists_parts defined
      obtain rfl := Except.ok.inj (headerRead.symm.trans parts.read)
      exact parts.body

/-- A definition that is read holds the term that it states. -/
theorem holdsTerm_of_defineFunction {definition : Definition}
    {later : SymbolTable} {first name params result term : SExpr}
    (isDefinition : command.head = ("define-fun" : Text))
    (items : command.items = [first, name, params, result, term])
    (defined : command.defineFunction symbols = .ok (definition, later)) :
    ∃ inner, command.HoldsTerm symbols ⟨inner, term⟩ := by
  obtain ⟨header, parts⟩ := exists_parts defined
  obtain ⟨_, _, _, headerItems⟩ := items_of_functionHeader parts.read
  rw [items] at headerItems
  simp only [List.cons.injEq, and_true] at headerItems
  obtain ⟨_, _, _, _, rfl⟩ := headerItems
  exact ⟨_, .body isDefinition parts.read⟩

end Command

namespace Session

variable {session : Session} {expression : SExpr} {command : Command}

theorem readAssertion_of_formulaStep {progress next : FormulaProgress}
    (isCommand : Command.ofExpression expression = .ok command)
    (isAssertion : command.head = ("assert" : Text))
    (stepped : formulaStep progress expression = .ok next) :
    ∃ term, command.readAssertion progress.session.symbols = .ok term ∧
      next.formula.assertions = progress.formula.assertions ++ [term] := by
  obtain ⟨_, isCommandAgain, effect⟩ := exists_formulaEffect stepped
  obtain rfl := Except.ok.inj (isCommand.symm.trans isCommandAgain)
  obtain ⟨term, read, rfl⟩ := effect.of_assertion isAssertion
  exact ⟨term, read, rfl⟩

theorem defineFunction_of_formulaStep {progress next : FormulaProgress}
    (isCommand : Command.ofExpression expression = .ok command)
    (isDefinition : command.head = ("define-fun" : Text))
    (stepped : formulaStep progress expression = .ok next) :
    ∃ definition later,
      command.defineFunction progress.session.symbols =
          .ok (definition, later) ∧
        next.formula.definitions =
          progress.formula.definitions ++ [definition] := by
  obtain ⟨_, isCommandAgain, effect⟩ := exists_formulaEffect stepped
  obtain rfl := Except.ok.inj (isCommand.symm.trans isCommandAgain)
  obtain ⟨definition, later, read, rfl⟩ := effect.of_definition isDefinition
  exact ⟨definition, later, read, rfl⟩

/-- The definitions that are in effect when a model has been read so far. -/
def ModelProgress.bodies (progress : ModelProgress) : List Term :=
  (progress.session.definitions.values ++ progress.model.definitions).map
    Definition.body

/-- The body of a definition that is accepted is among those in effect. -/
theorem defineFunction_of_modelStep {progress next : ModelProgress}
    (isCommand : Command.ofExpression expression = .ok command)
    (isDefinition : command.head = ("define-fun" : Text))
    (stepped : modelStep progress expression = .ok next) :
    ∃ definition later,
      command.defineFunction progress.session.symbols =
          .ok (definition, later) ∧
        definition.body ∈ next.bodies := by
  obtain ⟨_, isCommandAgain, effect⟩ := exists_modelEffect stepped
  obtain rfl := Except.ok.inj (isCommand.symm.trans isCommandAgain)
  obtain ⟨definition, later, defined, same, rfl⟩ :=
    effect.of_definition isDefinition
  refine ⟨definition, later, defined,
    List.mem_map_of_mem (List.mem_append.mpr ?_)⟩
  obtain ⟨header, parts⟩ := Command.exists_parts defined
  obtain ⟨_, _, _, items⟩ := Command.items_of_functionHeader parts.read
  have unchanged := (requireSameDefinition_eq_ok_iff items).mp same
  cases earlier : progress.session.definitions.find? definition.name with
  | none => simp [Table.has, earlier]
  | some other =>
      obtain rfl := unchanged other earlier
      exact .inl (List.mem_map.mpr ⟨_, Table.mem_of_find?_eq_some earlier, rfl⟩)

/-- A command of a formula that is read holds the terms that it states. -/
theorem holdsTerm_of_formulaStep {progress next : FormulaProgress}
    {term : SExpr} (stepped : formulaStep progress expression = .ok next)
    (states : expression.States term) :
    ∃ command inner, Command.ofExpression expression = .ok command ∧
      command.HoldsTerm progress.session.symbols ⟨inner, term⟩ := by
  obtain ⟨command, isCommand, ⟨isAssertion, first, items⟩ |
    ⟨isDefinition, first, name, params, result, items⟩⟩ := states
  · exact ⟨command, [], isCommand, .assertion isAssertion items⟩
  · obtain ⟨_, _, defined, _⟩ :=
      defineFunction_of_formulaStep isCommand isDefinition stepped
    obtain ⟨inner, holds⟩ :=
      Command.holdsTerm_of_defineFunction isDefinition items defined
    exact ⟨command, inner, isCommand, holds⟩

theorem not_assertion_of_modelStep {progress next : ModelProgress}
    (isCommand : Command.ofExpression expression = .ok command)
    (stepped : modelStep progress expression = .ok next) :
    command.head ≠ ("assert" : Text) := by
  intro isAssertion
  obtain ⟨_, isCommandAgain, effect⟩ := exists_modelEffect stepped
  obtain rfl := Except.ok.inj (isCommand.symm.trans isCommandAgain)
  cases effect with
  | defined head _ _ | sortDeclared head _ =>
    exact absurd (isAssertion.symm.trans head) (by decide)
  | declared read _ =>
      exact Command.head_ne_of_declaration? read (by decide) isAssertion

/-- A command of a model that is read defines a function if it states a term. -/
theorem holdsTerm_of_modelStep {progress next : ModelProgress} {term : SExpr}
    (stepped : modelStep progress expression = .ok next)
    (states : expression.States term) :
    ∃ command inner, Command.ofExpression expression = .ok command ∧
      command.head = ("define-fun" : Text) ∧
      command.HoldsTerm progress.session.symbols ⟨inner, term⟩ := by
  obtain ⟨command, isCommand, ⟨isAssertion, _⟩ |
    ⟨isDefinition, first, name, params, result, items⟩⟩ := states
  · exact absurd isAssertion (not_assertion_of_modelStep isCommand stepped)
  · obtain ⟨_, _, defined, _⟩ :=
      defineFunction_of_modelStep isCommand isDefinition stepped
    obtain ⟨inner, holds⟩ :=
      Command.holdsTerm_of_defineFunction isDefinition items defined
    exact ⟨command, inner, isCommand, isDefinition, holds⟩

theorem exists_read_of_modelStep {progress next : ModelProgress} {site : Site}
    (isCommand : Command.ofExpression expression = .ok command)
    (isDefinition : command.head = ("define-fun" : Text))
    (holds : command.HoldsTerm progress.session.symbols site)
    (stepped : modelStep progress expression = .ok next) :
    ∃ term ∈ next.bodies,
      readTerm progress.session.symbols site.scope site.expression =
        .ok term := by
  obtain ⟨definition, _, defined, kept⟩ :=
    defineFunction_of_modelStep isCommand isDefinition stepped
  exact ⟨definition.body, kept,
    holds.exists_read_of_defineFunction isDefinition defined⟩

/-- The term that a command holds is read and becomes a term of the formula. -/
theorem exists_read_of_formulaStep {progress next : FormulaProgress}
    {site : Site} (isCommand : Command.ofExpression expression = .ok command)
    (holds : command.HoldsTerm progress.session.symbols site)
    (stepped : formulaStep progress expression = .ok next) :
    ∃ term ∈ next.formula.terms,
      readTerm progress.session.symbols site.scope site.expression =
        .ok term := by
  have shape := holds
  cases shape with
  | assertion isAssertion _ =>
      obtain ⟨term, read, added⟩ :=
        readAssertion_of_formulaStep isCommand isAssertion stepped
      refine ⟨term, List.mem_append_left _ ?_,
        holds.exists_read_of_readAssertion isAssertion read⟩
      rw [added]
      exact List.mem_append_right _ (List.mem_singleton_self term)
  | body isDefinition _ =>
      obtain ⟨definition, _, defined, added⟩ :=
        defineFunction_of_formulaStep isCommand isDefinition stepped
      refine ⟨definition.body, List.mem_append_right _ (List.mem_map_of_mem ?_),
        holds.exists_read_of_defineFunction isDefinition defined⟩
      rw [added]
      exact List.mem_append_right _ (List.mem_singleton_self definition)

/-- Reading on takes no term out of a formula. -/
theorem terms_subset_of_formulaStep {progress next : FormulaProgress}
    (wellFormed : progress.session.symbols.WellFormed)
    (stepped : formulaStep progress expression = .ok next) :
    progress.formula.terms ⊆ next.formula.terms := by
  obtain ⟨_, _, step⟩ := formulaStep_cases wellFormed stepped
  intro term member
  cases step with
  | ignore | introduce _ _ => exact member
  | assert _ _ _ _ _ | define _ _ _ =>
      simp only [Formula.terms, List.mem_append, List.map_append] at member ⊢
      tauto

/-- Reading on takes no body out of effect. -/
theorem bodies_subset_of_modelStep {progress next : ModelProgress}
    (wellFormed : progress.session.symbols.WellFormed)
    (stepped : modelStep progress expression = .ok next) :
    progress.bodies ⊆ next.bodies := by
  obtain ⟨_, _, step⟩ := modelStep_cases wellFormed stepped
  intro term member
  cases step with
  | «repeat» _ _ _ _ | introduce _ _ | declare _ _ _ _ => exact member
  | define _ _ _ _ =>
      simp only [ModelProgress.bodies, List.map_append, List.mem_append]
        at member ⊢
      tauto

/-! ## Texts -/

/-- The text is accepted and yields these terms: the assertions of a formula and
the bodies of its definitions, or the bodies of the definitions in a model. A
model may repeat definitions of the formulas before it. -/
inductive Yields (session : Session) : Input → List Term → Prop
  | formula {text : Text} {formula : Formula} {later : Session} :
      session.readFormula text = (.ok formula, later) →
      Yields session (.formula text) formula.terms
  | model {output : Text} {model : Model} {later : Session} :
      session.readModel output = (.ok model, later) →
      Yields session (.model output)
        ((later.definitions.values ++ model.definitions).map Definition.body)

/-- The expression stands in the text in the place of a term. -/
def Input.Contains (input : Input) (expression : SExpr) : Prop :=
  ∃ commands, input.HoldsCommands commands ∧
    ∃ command ∈ commands, ∃ term, command.States term ∧ term.Contains expression

variable {input : Input} {terms : List Term}

/-- A run without fault comes to each of its commands. What all steps keep, the
end of the run has from there. -/
theorem runAll_reaches {State Part : Type}
    {step : State → SExpr → Except Fault State} (table : State → SymbolTable)
    (parts : State → List Part)
    (grows : ∀ {state expression next}, (table state).WellFormed →
      step state expression = .ok next →
      GrownBy [expression] (table state) (table next))
    (kept : ∀ {state expression next}, (table state).WellFormed →
      step state expression = .ok next → parts state ⊆ parts next)
    {state final : State} {before after : List SExpr}
    (wellFormed : (table state).WellFormed)
    (run : runAll step state (before ++ expression :: after) = (none, final)) :
    ∃ reached next, runAll step state before = (none, reached) ∧
      (table reached).WellFormed ∧
      step reached expression = .ok next ∧ parts next ⊆ parts final := by
  obtain ⟨reached, front, rest⟩ := runAll_append_eq_none_iff.mp run
  obtain ⟨next, stepped, last⟩ := runAll_cons_eq_none_iff.mp rest
  have grown := runAll_grownBy grows wellFormed before
  rw [front] at grown
  have here := grown.grown.wellFormed wellFormed
  have there := (grows here stepped).grown.wellFormed here
  have ends : (runAll step next after).snd = final := by rw [last]
  have keeps : (table final).WellFormed ∧ parts next ⊆ parts final := by
    rw [← ends]
    apply runAll_induction fun later => (table later).WellFormed ∧
      parts next ⊆ parts later
    · rintro later command _ following ⟨laterWellFormed, subset⟩ laterStepped
      exact ⟨(grows laterWellFormed laterStepped).grown.wellFormed
        laterWellFormed,
        List.Subset.trans subset (kept laterWellFormed laterStepped)⟩
    · exact ⟨there, List.Subset.refl _⟩
  exact ⟨reached, next, front, here, stepped, keeps.2⟩

/-- Reading a formula comes to each of its commands, and the formula has the
terms from there. -/
theorem formulaStep_of_readFormula {text : Text} {formula : Formula}
    {later : Session} {before after : List SExpr}
    (wellFormed : session.symbols.WellFormed)
    (isRead : readExpressions text = .ok (before ++ expression :: after))
    (read : session.readFormula text = (.ok formula, later)) :
    ∃ reached next, runAll formulaStep ⟨session, ⟨[], []⟩⟩ before =
        (none, reached) ∧
      reached.session.symbols.WellFormed ∧
      formulaStep reached expression = .ok next ∧
      next.formula.terms ⊆ formula.terms := by
  obtain ⟨commands, final, again, run, rfl⟩ := run_of_readFormula read
  obtain rfl := Except.ok.inj (again.symm.trans isRead)
  exact runAll_reaches
    (fun progress : FormulaProgress => progress.session.symbols)
    (fun progress => progress.formula.terms) formulaStep_grownBy
      terms_subset_of_formulaStep
    wellFormed run

/-- Reading a model comes to each of its commands, after all its functions have
been registered, and the definitions in effect from there stay. -/
theorem modelStep_of_readModel {output : Text} {model : Model} {later : Session}
    {before after : List SExpr} (wellFormed : session.symbols.WellFormed)
    (holds : HoldsCommands output (before ++ expression :: after))
    (read : session.readModel output = (.ok model, later)) :
    ∃ registered reached next,
      runAll registerStep session (before ++ expression :: after) =
        (none, registered) ∧
      runAll modelStep ⟨registered, ⟨[], []⟩⟩ before = (none, reached) ∧
      reached.session.symbols.WellFormed ∧
      modelStep reached expression = .ok next ∧
      next.bodies ⊆ (later.definitions.values ++ model.definitions).map
        Definition.body := by
  obtain ⟨commands, registered, others, registering, run⟩ :=
    runs_of_readModel read
  obtain rfl := others.unique holds
  have grown := (registerAll_grows wellFormed (before ++ expression :: after)).1
  rw [registering] at grown
  obtain ⟨reached, next, front, here, stepped, kept⟩ :=
    runAll_reaches (fun progress : ModelProgress => progress.session.symbols)
      ModelProgress.bodies modelStep_grownBy bodies_subset_of_modelStep
      (grown.wellFormed wellFormed) run
  exact ⟨registered, reached, next, registering, front, here, stepped, kept⟩

/-- Reading a text that is accepted comes to every term that is written in
it. -/
theorem Yields.exists_meets (yields : session.Yields input terms)
    (wellFormed : session.symbols.WellFormed)
    (contains : input.Contains expression) :
    ∃ symbols scope, session.Meets input symbols ⟨scope, expression⟩ := by
  obtain ⟨commands, holdsCommands, statement, member, term, states, contains⟩ :=
    contains
  obtain ⟨before, after, rfl⟩ := List.append_of_mem member
  cases yields with
  | formula read =>
      obtain ⟨reached, next, run, _, stepped, _⟩ :=
        formulaStep_of_readFormula wellFormed holdsCommands read
      obtain ⟨command, scope, isCommand, holds⟩ :=
        holdsTerm_of_formulaStep stepped states
      obtain ⟨_, _, termRead⟩ :=
        exists_read_of_formulaStep isCommand holds stepped
      obtain ⟨inner, comes⟩ := contains.exists_comesTo termRead
      exact ⟨_, inner, .formula holdsCommands run isCommand holds comes⟩
  | model read =>
      obtain ⟨registered, reached, next, registering, run, _, stepped, _⟩ :=
        modelStep_of_readModel wellFormed holdsCommands read
      obtain ⟨command, scope, isCommand, isDefinition, holds⟩ :=
        holdsTerm_of_modelStep stepped states
      obtain ⟨_, _, termRead⟩ :=
        exists_read_of_modelStep isCommand isDefinition holds stepped
      obtain ⟨inner, comes⟩ := contains.exists_comesTo termRead
      exact ⟨_, inner, .model holdsCommands ⟨before, after, registered, rfl,
        registering, run⟩ isCommand isDefinition holds comes⟩

/-- Whatever reading an accepted text comes to is read as a part of a term that
the text yields. -/
theorem Yields.exists_read (yields : session.Yields input terms)
    (wellFormed : session.symbols.WellFormed) {symbols : SymbolTable}
    {site : Site}
    (meets : session.Meets input symbols site) :
    symbols.WellFormed ∧ ∃ term ∈ terms, ∃ part : Term, part.PartOf term ∧
      readTerm symbols site.scope site.expression = .ok part := by
  cases meets with
  | formula isRead run isCommand holds comes =>
      obtain ⟨read⟩ := yields
      obtain ⟨reached, next, front, here, stepped, kept⟩ :=
        formulaStep_of_readFormula wellFormed isRead read
      obtain ⟨-, rfl⟩ := Prod.mk.inj (run.symm.trans front)
      obtain ⟨term, member, termRead⟩ :=
        exists_read_of_formulaStep isCommand holds stepped
      obtain ⟨part, within, partRead⟩ := comes.exists_partOf termRead
      exact ⟨here, term, kept member, part, within, partRead⟩
  | model holdsCommands comesToRead isCommand isDefinition holds comes =>
      obtain ⟨before, after, registered, rfl, registering, run⟩ := comesToRead
      cases yields with | model read => ?_
      obtain ⟨other, reached, next, again, front, here, stepped, kept⟩ :=
        modelStep_of_readModel wellFormed holdsCommands read
      obtain ⟨-, rfl⟩ := Prod.mk.inj (registering.symm.trans again)
      obtain ⟨-, rfl⟩ := Prod.mk.inj (run.symm.trans front)
      obtain ⟨term, member, termRead⟩ :=
        exists_read_of_modelStep isCommand isDefinition holds stepped
      obtain ⟨part, within, partRead⟩ := comes.exists_partOf termRead
      exact ⟨here, term, kept member, part, within, partRead⟩

end Session

end ModelAudit
