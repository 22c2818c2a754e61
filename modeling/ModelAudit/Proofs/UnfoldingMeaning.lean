import ModelAudit.Proofs.CommonSemantics
import ModelAudit.Proofs.DefinitionalExtension

/-!
# Unfolding preserves meaning

An unfolded assertion denotes, under any assignment to the symbols without
definition, what the assertion denotes under the extension of the assignment by
the definitions. Names of binders play no part in expressions: the body of a
definition sees the values of its parameters and nothing else of what is around
the place where it is unfolded.
-/

namespace ModelAudit

open Relation

namespace Unfolding

variable {Value : Type} {semantics : Semantics Value} {symbols : SymbolTable}
  {definitions : List Definition} {assignment extended : Assignment Value}
  {state : State}

theorem terms_eq_ok {context : Context} {sources : List Term}
    {expressions : List Expression} :
    terms state context sources = .ok expressions ↔
      List.Forall₂
        (fun source expression => term state context source = .ok expression)
        sources
        expressions := by
  induction sources generalizing expressions with
  | nil => simp [terms, eq_comm]
  | cons first others inductionHypothesis =>
      simp only [terms, Outcome.bind_eq_ok, Outcome.pure_eq, Except.ok.injEq,
        List.forall₂_cons_left_iff, inductionHypothesis]
      grind

theorem boundTerms_eq (context : Context) (bindings : List (Text × Term)) :
    boundTerms state context bindings = terms state context
      (bindings.map Prod.snd) := by
  induction bindings with
  | nil => rw [boundTerms, List.map_nil, terms]
  | cons first others inductionHypothesis =>
      rw [boundTerms, List.map_cons, terms, inductionHypothesis]

/-- The variable that a name denotes has the value that the name has in the
environment. -/
theorem getElem?_of_index? {scope : Scope} {values : List Value} {name : Text}
    {index : Nat} (fits : semantics.Fits (Table.values scope) values)
    (rest : List Value)
    (found : Context.index? (Table.names scope) name = some index) :
    (values ++ rest)[index]? = (scope.assign values).find? name := by
  induction scope generalizing values index with
  | nil => cases found
  | cons entry scope inductionHypothesis =>
      obtain ⟨key, sort⟩ := entry
      obtain ⟨value, others, _, othersFit, rfl⟩ :=
        List.forall₂_cons_left_iff.mp fits
      rw [Context.index?, Table.names, List.map_cons, List.idxOf?_cons] at found
      split at found
      · next same =>
        obtain rfl := Option.some.inj found
        exact (if_pos (beq_iff_eq.mp same)).symm
      · next different =>
        obtain ⟨before, earlier, rfl⟩ := Option.map_eq_some_iff.mp found
        refine (inductionHypothesis othersFit earlier).trans
          (Eq.symm (if_neg ?_))
        simpa using different

/-- Unfolding a symbol applied to arguments keeps its sort, and the result
denotes what the extension says of the symbol at the values of the arguments. -/
def Opened (semantics : Semantics Value) (symbols : SymbolTable)
    (assignment extended : Assignment Value) (state : State) : Prop :=
  ∀ name arguments sort expression, symbol state name arguments sort =
    .ok expression →
    symbols.HasSignature name (arguments.map Expression.sort) sort →
    expression.sort = sort ∧ ∀ values,
      semantics.Fits (arguments.map Expression.sort)
        (arguments.map (Expression.denote semantics assignment values)) →
      expression.denote semantics assignment values =
        extended name
          (arguments.map (Expression.denote semantics assignment values))

/-- The expression has the sort, and under the binders of the scope it denotes
what the term denotes. What is outside of these binders does not matter. -/
structure Represents (semantics : Semantics Value)
    (assignment extended : Assignment Value) (scope : Scope) (sort : SmtSort)
    (source : Term) (expression : Expression) : Prop where
  sort_eq : expression.sort = sort
  denotes : ∀ values rest, semantics.Fits (Table.values scope) values →
    expression.denote semantics assignment (values ++ rest) =
      source.denote semantics extended (scope.assign values)

/-- Unfolded arguments represent the arguments. -/
private theorem represents_terms {scope : Scope} {sources : List Term}
    {sorts : List SmtSort} {expressions : List Expression}
    (lengths : sources.length = sorts.length)
    (each : ∀ typed ∈ sources.zip sorts, ∀ expression,
      term state (Table.names scope) typed.fst = .ok expression →
      Represents semantics assignment extended scope typed.snd typed.fst
        expression)
    (unfolded : terms state (Table.names scope) sources = .ok expressions) :
    expressions.map Expression.sort = sorts ∧
      ∀ values rest, semantics.Fits (Table.values scope) values →
        expressions.map
            (Expression.denote semantics assignment (values ++ rest)) =
          sources.map (Term.denote semantics extended
            (scope.assign values)) := by
  have paired := terms_eq_ok.mp unfolded
  clear unfolded
  induction paired generalizing sorts with
  | nil =>
      obtain rfl := List.length_eq_zero_iff.mp lengths.symm
      exact ⟨rfl, fun _ _ _ => rfl⟩
  | cons firstUnfolded _ inductionHypothesis =>
      cases sorts with
      | nil => cases lengths
      | cons sort sorts =>
          obtain ⟨here, later⟩ := List.forall_mem_cons.mp each
          have first := here _ firstUnfolded
          obtain ⟨sortsEq, alike⟩ :=
            inductionHypothesis (Nat.succ.inj lengths) later
          refine ⟨?_, fun values rest fits => ?_⟩
          · rw [List.map_cons, first.sort_eq, sortsEq]
          · rw [List.map_cons, List.map_cons, first.denotes values rest fits,
              alike values rest fits]

/-- The values of well-typed terms are of their sorts. -/
theorem fits_denote
    (respects : ∀ name, extended.Respects semantics symbols name)
    {scope : Scope}
    {sources : List Term} {sorts : List SmtSort}
    (lengths : sources.length = sorts.length)
    (typed : ∀ typed ∈ sources.zip sorts,
      typed.fst.HasSort symbols Literal.InRange scope typed.snd)
    {values : List Value}
    (fits : semantics.Fits (Table.values scope) values) :
    semantics.Fits sorts
      (sources.map (Term.denote semantics extended (scope.assign values))) :=
  Semantics.fits_map lengths fun source member =>
    (typed source member).denote_carried (fun name _ => respects name) fits

/-- The variable that a bound name becomes represents the name. -/
theorem represents_bound {scope : Scope} {name : Text} {sort : SmtSort}
    {expression : Expression} (found : scope.find? name = some sort)
    (unfolded : term state (Table.names scope) (.symbol name sort) =
      .ok expression) :
    Represents semantics assignment extended scope sort
      (.symbol name sort) expression := by
  rw [term] at unfolded
  split at unfolded
  · next index place =>
    obtain rfl := Except.ok.inj unfolded
    refine ⟨rfl, fun values rest fits => ?_⟩
    obtain ⟨value, valueFound, _⟩ := fits.exists_value found
    rw [Expression.denote, getElem?_of_index? fits rest place, Term.denote,
      valueFound, Option.getD_some, Option.getD_some]
  · next absent =>
    have bound : name ∈ Table.names scope :=
      List.mem_map_of_mem (Table.mem_of_find?_eq_some found)
    exact absurd bound (List.idxOf?_eq_none_iff.mp absent)

section Arguments

variable (respects : ∀ name, extended.Respects semantics symbols name)
  {scope : Scope} {indices : List Nat} {arguments : List Term}
  {sorts : List SmtSort} {result : SmtSort} {expression : Expression}
  (lengths : arguments.length = sorts.length)
  (typed : ∀ typed ∈ arguments.zip sorts,
    typed.fst.HasSort symbols Literal.InRange scope typed.snd)
  (argumentsRepresent : ∀ typed ∈ arguments.zip sorts, ∀ expression,
    term state (Table.names scope) typed.fst = .ok expression →
    Represents semantics assignment extended scope typed.snd typed.fst
      expression)

include respects lengths typed argumentsRepresent

/-- An unfolded application of a function. -/
theorem represents_call {name : Text}
    (opened : Opened semantics symbols assignment extended state)
    (signature : symbols.HasSignature name sorts result)
    (unfolded : term state (Table.names scope)
        (.application (.function name) indices arguments result) =
      .ok expression) :
    Represents semantics assignment extended scope result
      (.application (.function name) indices arguments result) expression := by
  rw [term] at unfolded
  obtain ⟨values, valuesUnfolded, applied⟩ := Outcome.bind_eq_ok.mp unfolded
  obtain ⟨sortsEq, alike⟩ :=
    represents_terms lengths argumentsRepresent valuesUnfolded
  obtain ⟨sortEq, denotes⟩ := opened name values result expression applied
    (sortsEq.symm ▸ signature)
  refine ⟨sortEq, fun environment rest fits => ?_⟩
  rw [denotes, alike environment rest fits, Term.denote, Term.denoteAll_eq]
  rw [alike environment rest fits, sortsEq]
  exact fits_denote respects lengths typed fits

/-- What an application of an operator is made to. -/
theorem represents_operation {operator : Operator} {rule : SignatureRule}
    (known : operator.rule? = some rule)
    (computed : rule.resultSort operator sorts (indices.map Int.ofNat) =
      .ok result)
    (unfolded : term state (Table.names scope)
        (.application (.operator operator) indices arguments result) =
      .ok expression) :
    Represents semantics assignment extended scope result
      (.application (.operator operator) indices arguments result)
      expression := by
  rw [term] at unfolded
  obtain ⟨values, valuesUnfolded, shape⟩ := Outcome.bind_eq_ok.mp unfolded
  obtain rfl := Except.ok.inj shape
  obtain ⟨sortsEq, alike⟩ :=
    represents_terms lengths argumentsRepresent valuesUnfolded
  have gives := SignatureRule.resultSort_eq_ok_iff.mp computed
  rw [← sortsEq] at gives
  obtain ⟨sortEq, denotes⟩ := Operator.applies_construct known gives
  refine ⟨sortEq, fun environment rest fits => ?_⟩
  have valuesFit := fits_denote respects lengths typed fits
  rw [denotes, alike environment rest fits, sortsEq,
    Term.HasSort.sorts_eq lengths typed, Term.denote, Term.denoteAll_eq]
  rwa [alike environment rest fits, sortsEq]

end Arguments

/-- The values of parallel bindings are pushed together, the last one first. -/
theorem represents_letIn
    (respects : ∀ name, extended.Respects semantics symbols name)
    {scope : Scope} {bindings : List (Text × Term)} {sorts : List SmtSort}
    {body : Term}
    {sort : SmtSort} {expression : Expression}
    (lengths : (bindings.map Prod.snd).length = sorts.length)
    (typed : ∀ typed ∈ (bindings.map Prod.snd).zip sorts,
      typed.fst.HasSort symbols Literal.InRange scope typed.snd)
    (boundRepresents : ∀ typed ∈ (bindings.map Prod.snd).zip sorts, ∀ bound,
      term state (Table.names scope) typed.fst = .ok bound →
      Represents semantics assignment extended scope typed.snd typed.fst bound)
    (bodyRepresents : ∀ inner,
      term state (Table.names (scope.enter ((bindings.map Prod.fst).zip sorts)))
          body =
        .ok inner →
      Represents semantics assignment extended
        (scope.enter ((bindings.map Prod.fst).zip sorts))
        sort body inner)
    (unfolded : term state (Table.names scope) (.letIn bindings body) =
      .ok expression) :
    Represents semantics assignment extended scope sort
      (.letIn bindings body) expression := by
  have count : (bindings.map Prod.fst).length = sorts.length := by
    simpa using lengths
  rw [term, boundTerms_eq] at unfolded
  obtain ⟨bounds, boundsUnfolded, unfolded⟩ := Outcome.bind_eq_ok.mp unfolded
  obtain ⟨inner, innerUnfolded, shape⟩ := Outcome.bind_eq_ok.mp unfolded
  obtain rfl := Except.ok.inj shape
  obtain ⟨_, alike⟩ := represents_terms lengths boundRepresents boundsUnfolded
  rw [← List.map_fst_zip count.le, ← Scope.names_enter] at innerUnfolded
  have represents := bodyRepresents inner innerUnfolded
  refine ⟨represents.sort_eq, fun environment rest fits => ?_⟩
  obtain ⟨innerFits, entered⟩ :=
    fits.enter_zip count (fits_denote respects lengths typed fits)
  rw [Expression.denote, Expression.denoteAll_eq, alike environment rest fits,
    ← List.append_assoc, represents.denotes _ rest innerFits, Term.denote,
    Term.denoteBindings_eq, entered]

/-- An unfolded term represents the term if unfolded symbols denote what they
should. -/
theorem represents_term
    (opened : Opened semantics symbols assignment extended state)
    (respects : ∀ name, extended.Respects semantics symbols name)
    {scope : Scope} {sort : SmtSort}
    {source : Term} {expression : Expression}
    (typed : source.HasSort symbols Literal.InRange scope sort)
    (unfolded : term state (Table.names scope) source = .ok expression) :
    Represents semantics assignment extended scope sort source expression := by
  induction typed generalizing expression with
  | @literal scope value inRange =>
      rw [term] at unfolded
      obtain rfl := Except.ok.inj unfolded
      refine ⟨congrArg Literal.sort value.literal_constant, fun _ _ _ => ?_⟩
      rw [Expression.denote, Literal.literal_constant, Term.denote]
  | bound found => exact represents_bound found unfolded
  | @constant scope name sort unbound signature =>
      have absent : Context.index? (Table.names scope) name = none :=
        List.idxOf?_eq_none_iff.mpr (Table.find?_eq_none_iff.mp unbound)
      rw [term, absent] at unfolded
      obtain ⟨sortEq, denotes⟩ :=
        opened name [] sort expression unfolded signature
      refine ⟨sortEq, fun values rest fits => ?_⟩
      rw [denotes (values ++ rest) .nil, Term.denote,
        fits.find?_eq_none unbound]
      rfl
  | @functionArray scope function index element signature =>
      rw [term] at unfolded
      obtain ⟨body, bodyUnfolded, shape⟩ := Outcome.bind_eq_ok.mp unfolded
      obtain rfl := Except.ok.inj shape
      obtain ⟨_, denotes⟩ :=
        opened function [.bound 0 index] element body bodyUnfolded signature
      refine ⟨rfl, fun values rest _ => ?_⟩
      exact semantics.array_congr _ _ _ _ fun value carried =>
        denotes (value :: (values ++ rest)) (.cons carried .nil)
  | call _ signature lengths typed argumentsHypothesis =>
      exact represents_call respects lengths typed
        (fun typed member _ unfolded =>
          argumentsHypothesis typed member unfolded)
        opened signature unfolded
  | operation known computed lengths typed argumentsHypothesis =>
      exact represents_operation respects lengths typed
        (fun typed member _ unfolded =>
          argumentsHypothesis typed member unfolded)
        known computed unfolded
  | @constantArray scope value index element ground typed valueHypothesis =>
      rw [term] at unfolded
      obtain ⟨values, valuesUnfolded, shape⟩ := Outcome.bind_eq_ok.mp unfolded
      obtain rfl := Except.ok.inj shape
      have single : [value].length = [element].length := rfl
      obtain ⟨sortsEq, alike⟩ := represents_terms single
        (List.forall_mem_singleton.mpr fun _ computed =>
          valueHypothesis computed) valuesUnfolded
      have carried : [value].map Term.sort = [element] :=
        congrArg (fun sort => [sort]) typed.sort_eq
      obtain ⟨only, rfl, _⟩ := List.map_eq_singleton_iff.mp sortsEq
      refine ⟨rfl, fun environment rest fits => ?_⟩
      rw [Operator.construct, Operator.construction, Construction.build,
        Expression.denote_operation, alike environment rest fits, sortsEq,
        Term.denote, Term.denoteAll_eq, carried]
      rfl
  | letIn _ lengths typed _ boundHypothesis bodyHypothesis =>
      exact represents_letIn respects lengths typed
        (fun typed member _ computed => boundHypothesis typed member computed)
        (fun _ computed => bodyHypothesis computed) unfolded
  | @quantified scope quantifier binders body nonempty ground _
      bodyHypothesis =>
      rw [term] at unfolded
      obtain ⟨inner, innerUnfolded, shape⟩ := Outcome.bind_eq_ok.mp unfolded
      obtain rfl := Except.ok.inj shape
      rw [← Scope.names_enter] at innerUnfolded
      have represents := bodyHypothesis innerUnfolded
      refine ⟨rfl, fun environment rest fits => ?_⟩
      rw [Expression.denote, Term.denote]
      refine semantics.quantify_congr quantifier fun values innerFits => ?_
      rw [← List.append_assoc, represents.denotes _ rest (fits.enter innerFits),
        Scope.enter_assign (by simpa using innerFits.length_eq)]
  | @annotated scope inner attributes sort _ innerHypothesis =>
      rw [term] at unfolded
      have represents := innerHypothesis unfolded
      exact ⟨represents.sort_eq, represents.denotes⟩

/-- Unfolded symbols denote what the extension says, by induction on the
definitions that may still be entered. -/
theorem opened_of_extends
    (extending : assignment.Extends semantics definitions extended)
    (settled : ∀ definition ∈ definitions, definition.Settled symbols)
    (respects : ∀ name, extended.Respects semantics symbols name)
    (state : State)
    (tracks : state.Tracks (definitionTable definitions)) :
    Opened semantics symbols assignment extended state := by
  intro name arguments sort expression unfolded signature
  rw [symbol] at unfolded
  split at unfolded
  · cases unfolded
  · next outside =>
    have available := tracks name
    rw [if_neg (by simpa using outside)] at available
    split at unfolded
    · next absent =>
      obtain rfl := Except.ok.inj unfolded
      rw [absent] at available
      have undefined := find?_definitionTable_eq_none.mp available.symm
      rw [extending.undefined name undefined]
      cases arguments with
      | nil => exact ⟨rfl, fun _ _ => rfl⟩
      | cons first others =>
          refine ⟨rfl, fun values _ => ?_⟩
          exact congrArg (assignment name) (Expression.denoteAll_eq _)
    · next definition found =>
      obtain ⟨body, bodyUnfolded, shape⟩ := Outcome.bind_eq_ok.mp unfolded
      obtain rfl := Except.ok.inj shape
      rw [found] at available
      obtain ⟨member, rfl⟩ := definition_of_find? available.symm
      have effective := mem_effectiveDefinitions.mpr available.symm
      have settledDefinition := settled definition member
      obtain ⟨sorts, rfl⟩ := signature.unique settledDefinition.declared
      have shorter := state.enter_lt definition.name definition found
      have entered := opened_of_extends extending settled respects
        (state.enter definition.name) (tracks.enter definition.name)
      have context : Context.extend [] (definition.params.map Prod.fst) =
          Table.names (Scope.enter [] definition.params) :=
        (Scope.names_enter [] definition.params).symm
      rw [context] at bodyUnfolded
      have represents :=
        represents_term entered respects settledDefinition.typed bodyUnfolded
      rw [settledDefinition.arguments] at sorts
      have bound (values : List Value)
          (fits : semantics.Fits (definition.params.map Prod.snd)
            (arguments.map (Expression.denote semantics assignment values))) :
          body.denote semantics assignment
              ((arguments.map
                (Expression.denote semantics assignment values)).reverse ++
                values) =
            extended definition.name
              (arguments.map
                (Expression.denote semantics assignment values)) := by
        rw [extending.equation definition effective _ fits,
          Assignment.enter_params _ _ fits]
        exact represents.denotes _ values fits.params
      rw [sorts]
      cases arguments with
      | nil => exact ⟨represents.sort_eq, bound⟩
      | cons first others =>
          refine ⟨represents.sort_eq, fun values fits => ?_⟩
          rw [← bound values fits, bindArguments, if_neg (by simp),
            Expression.denote, Expression.denoteAll_eq]
termination_by state.available.length

end Unfolding

namespace Session

open Unfolding

variable {pair : Pair}

def Pair.definitions (pair : Pair) : List Definition :=
  pair.formula.definitions ++ pair.model.definitions

/-- If the definitions of a pair are acyclic, all assertions are unfolded.
Whatever sorts, literals, operators and symbols without definition mean, the
equations of the definitions in effect determine what the defined symbols
denote, and with it an assertion denotes what the unfolded assertion denotes
without them. -/
theorem unfolding_preserves_meaning {formulaText modelOutput : Text}
    (read : readPair formulaText modelOutput = .ok pair)
    (acyclic : Unfolding.Acyclic pair.definitions) :
    ∃ expressions, assertions pair.definitions pair.formula.assertions =
        .ok expressions ∧
      ∀ (Value : Type) (semantics : Semantics Value)
        (assignment : Assignment Value),
        (∀ name ∉ pair.definitions.map Definition.name,
          assignment.Respects semantics pair.symbols name) →
        (∃! extended, assignment.Extends semantics pair.definitions extended) ∧
          ∀ extended, assignment.Extends semantics pair.definitions extended →
            List.Forall₂
              (fun expression assertion =>
                expression.denote semantics assignment [] =
                assertion.denote semantics extended [])
              expressions pair.formula.assertions := by
  have settled := readPair_settled read
  have unfolds : ∃ expressions,
      assertions pair.definitions pair.formula.assertions =
        .ok expressions := by
    refine assertions_eq_ok_iff.mpr ?_
    rintro subject _ first _ ⟨name, _, cycle⟩
    exact acyclic name cycle
  obtain ⟨expressions, unfolded⟩ := unfolds
  refine ⟨expressions, unfolded, fun Value semantics assignment respects =>
    ⟨Assignment.existsUnique_extends acyclic assignment,
      fun extended extending => ?_⟩⟩
  have respectsAll := extending.respects acyclic settled.definition respects
  have tracks :
      (State.start pair.definitions).Tracks
        (definitionTable pair.definitions) := by
    intro name
    rw [State.start, if_neg List.not_mem_nil]
    rfl
  have opened :=
    opened_of_extends extending settled.definition respectsAll _ tracks
  have each : ∀ assertion ∈ pair.formula.assertions, ∀ expression,
      term (State.start pair.definitions) (Table.names ([] : Scope)) assertion =
        .ok expression →
      Represents semantics assignment extended
        [] assertion.sort assertion expression := by
    intro assertion member expression computed
    have typed := settled.formula.typed assertion member
    rw [typed.sort_eq]
    exact represents_term opened respectsAll typed computed
  have termsUnfolded :
      terms (State.start pair.definitions) (Table.names ([] : Scope))
      pair.formula.assertions = .ok expressions :=
    unfolded
  obtain ⟨_, alike⟩ := represents_terms (List.length_map _).symm
    ((Term.forall_zip_sorts fun assertion sort => ∀ expression,
      term (State.start pair.definitions) (Table.names ([] : Scope)) assertion =
        .ok expression →
      Represents semantics assignment extended [] sort assertion expression).mpr
        each)
    termsUnfolded
  have same := alike [] [] .nil
  rwa [← List.forall₂_eq_eq_eq, List.forall₂_map_left_iff,
    List.forall₂_map_right_iff] at same

end Session

/-! ## An example -/

namespace Session

open Unfolding

/-- The formula `∀ y. let x = 0 in f y = y + x` over a declared `x`, and a model
that defines `f y` as `y + x`. -/
def shadowedOffset : Pair where
  formula :=
    ⟨[.quantified .universal [("y", .int)]
      (.letIn [("x", .literal (.integer 0))]
        (.application (.operator .equality) []
          [.application (.function "f") [] [.symbol "y" .int] .int,
            .application (.operator .addition) [] [.symbol "y" .int,
              .symbol "x" .int] .int]
          .bool))], []⟩
  model :=
    ⟨[⟨⟨"f", [.int], .int, .defined⟩, [("y", .int)],
      .application (.operator .addition) [] [.symbol "y" .int,
        .symbol "x" .int] .int⟩], []⟩
  symbols :=
    ⟨[("x", ⟨"x", [], .int, .declared⟩), ("f", ⟨"f", [.int], .int, .defined⟩)],
      [], []⟩

theorem acyclic_shadowedOffset :
    Unfolding.Acyclic shadowedOffset.definitions := by
  have step (earlier later : Text)
      (leads : Leads Definition.uses
        (definitionTable shadowedOffset.definitions) earlier later) :
      earlier = "f" ∧ later = "x" := by
    obtain ⟨definition, found, used⟩ := leads
    obtain ⟨member, rfl⟩ := definition_of_find? found
    obtain rfl := List.mem_singleton.mp member
    exact ⟨rfl, List.mem_singleton.mp used⟩
  intro name cycle
  obtain ⟨_, first, _⟩ := TransGen.head'_iff.mp cycle
  obtain ⟨_, _, last⟩ := TransGen.tail'_iff.mp cycle
  have same := (step _ _ first).1.symm.trans (step _ _ last).2
  exact absurd same (by decide +kernel)

/-- In the body of `f`, the unfolded assertion refers to the declared `x` and
not to the one of the let: whatever number the declared `x` is, the value of `f`
at two is larger by this number, and the values agree. -/
theorem shadowedOffset_preserves_meaning :
    readPair
          ("(declare-const x Int)(declare-fun f (Int) Int)" ++
            "(assert (forall ((y Int)) (let ((x 0)) (= (f y) (+ y x)))))")
          "(define-fun f ((y Int)) Int (+ y x))" =
        .ok shadowedOffset ∧
      ∃ expressions,
        assertions shadowedOffset.definitions
            shadowedOffset.formula.assertions =
          .ok expressions ∧
        ∀ number : Int, ∃ extended,
          Assignment.Extends CommonValue.semantics shadowedOffset.definitions
              (fun _ _ => .number number) extended ∧
            extended "f" [.number 2] = .number (2 + number) ∧
            List.Forall₂
              (fun expression assertion =>
                expression.denote CommonValue.semantics
                  (fun _ _ => .number number) [] =
                  assertion.denote CommonValue.semantics extended [])
              expressions shadowedOffset.formula.assertions := by
  have read : readPair
      ("(declare-const x Int)(declare-fun f (Int) Int)" ++
        "(assert (forall ((y Int)) (let ((x 0)) (= (f y) (+ y x)))))")
      "(define-fun f ((y Int)) Int (+ y x))" = .ok shadowedOffset :=
    Outcome.toOption_eq_some_iff.mp (by decide +kernel)
  obtain ⟨expressions, unfolded, preserved⟩ :=
    unfolding_preserves_meaning read acyclic_shadowedOffset
  refine ⟨read, expressions, unfolded, fun number => ?_⟩
  have respects : ∀ name ∉ shadowedOffset.definitions.map Definition.name,
      Assignment.Respects (fun _ _ => .number number) CommonValue.semantics
        shadowedOffset.symbols name := by
    intro name undefined arguments result values signature _
    obtain ⟨declaration, found, rfl, rfl⟩ := signature
    rw [SymbolTable.lookup?] at found
    rcases List.mem_pair.mp (Table.mem_of_find?_eq_some found) with same | same
    · obtain ⟨rfl, rfl⟩ := Prod.mk.inj same
      exact ⟨number, rfl⟩
    · obtain ⟨rfl, rfl⟩ := Prod.mk.inj same
      exact absurd (List.mem_singleton_self _) undefined
  obtain ⟨⟨extended, extending, _⟩, agree⟩ :=
    preserved _ CommonValue.semantics (fun _ _ => .number number) respects
  refine ⟨extended, extending, ?_, agree extended extending⟩
  have offset : extended "x" [] = .number number :=
    congrFun (extending.undefined "x" (by decide +kernel)) []
  refine (extending.equation _ (List.mem_singleton_self _) [.number 2]
    (.cons ⟨2, rfl⟩ .nil)).trans ?_
  have free : Table.find? [(Text.ofString "y", (.number 2 : CommonValue Unit))]
      "x" = none :=
    if_neg (by decide +kernel)
  simpa [Term.denote, Term.denoteAll, Table.enter, Table.find?, free, offset]
    using CommonValue.operation_addition _ _ 2 number

end Session

end ModelAudit
