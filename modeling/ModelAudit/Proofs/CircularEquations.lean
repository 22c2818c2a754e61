import ModelAudit.Proofs.Assembly
import ModelAudit.Proofs.SettledPair
import ModelAudit.Proofs.UnfoldingCycles

/-!
# Circular equations

The equations of a lemma come from the kept definitions, which are never checked
for cycles. They are circular if and only if unfolding, which evaluation starts
with, reports a recursive definition, unless a function is taken as an array
inside a binder of its name: there unfolding looks into a definition that the
lemma leaves out.
-/

namespace ModelAudit

open Relation
open Unfolding (Context)

namespace Term

mutual

/-- No function is taken as an array inside a binder of its name. -/
def arraysVisible (context : Context) : Term → Bool
  | .literal _ | .symbol _ _ => true
  | .functionArray function _ _ => !context.contains function
  | .application _ _ arguments _ => allArraysVisible context arguments
  | .letIn bindings body =>
    boundArraysVisible context bindings &&
      arraysVisible (context.extend (bindings.map Prod.fst)) body
  | .quantified _ binders body =>
    arraysVisible (context.extend (binders.map Prod.fst)) body
  | .annotated inner _ => arraysVisible context inner

def allArraysVisible (context : Context) : List Term → Bool
  | [] => true
  | first :: others =>
    arraysVisible context first && allArraysVisible context others

def boundArraysVisible (context : Context) : List (Text × Term) → Bool
  | [] => true
  | (_, bound) :: others =>
    arraysVisible context bound && boundArraysVisible context others

end

theorem allArraysVisible_iff {context : Context} {terms : List Term} :
    allArraysVisible context terms = true ↔
      ∀ term ∈ terms, term.arraysVisible context = true := by
  induction terms with
  | nil => simp [allArraysVisible]
  | cons first others inductionHypothesis =>
    simp [allArraysVisible, inductionHypothesis]

theorem boundArraysVisible_iff {context : Context}
    {bindings : List (Text × Term)} :
    boundArraysVisible context bindings = true ↔
      ∀ binding ∈ bindings, binding.snd.arraysVisible context = true := by
  induction bindings with
  | nil => simp [boundArraysVisible]
  | cons first others inductionHypothesis =>
    simp [boundArraysVisible, inductionHypothesis]

theorem mem_extend {context : Context} {names : List Text} {name : Text} :
    name ∈ context.extend names ↔ name ∈ names ∨ name ∈ context := by
  rw [Context.extend, List.mem_append, List.mem_reverse]

/-- Unfolding comes upon all free names of a term that are no operators. -/
theorem mem_uses_of_mem_freeNames {name : Text}
    (plain : ∀ operator : Operator, operator.name ≠ name) (source : Term) :
    ∀ context, name ∈ source.freeNames → name ∉ context →
      name ∈ source.uses context := by
  induction source using Term.induction with
  | literal value => exact fun _ free => absurd free List.not_mem_nil
  | symbol other sort =>
      intro context free outside
      obtain rfl := List.mem_singleton.mp free
      simp [uses, outside]
  | functionArray function index element =>
      intro context free outside
      rcases List.mem_cons.mp free with rfl | operator
      · exact List.mem_singleton_self _
      · exact absurd (List.mem_singleton.mp operator).symm (plain _)
  | application head indices arguments sort argumentsHypothesis =>
      intro context free outside
      rcases List.mem_append.mp free with inside | atHead
      · obtain ⟨argument, member, inside⟩ := mem_freeNamesOfAll.mp inside
        exact List.mem_append_left _ (mem_usesOfAll.mpr
          ⟨argument, member,
            argumentsHypothesis argument member context inside outside⟩)
      · obtain rfl := List.mem_singleton.mp atHead
        cases head with
        | operator operator => exact absurd rfl (plain operator)
        | function function =>
          exact List.mem_append_right _ (List.mem_singleton_self _)
  | letIn bindings body bindingsHypothesis bodyHypothesis =>
      intro context free outside
      rcases List.mem_append.mp free with inside | inside
      · obtain ⟨binding, member, inside⟩ := mem_freeNamesOfBindings.mp inside
        exact List.mem_append_left _ (mem_usesOfBindings.mpr
          ⟨binding, member, bindingsHypothesis binding member context inside
            outside⟩)
      · obtain ⟨inside, unbound⟩ := List.mem_filter.mp inside
        apply List.mem_append_right _ (bodyHypothesis _ inside _)
        simpa [mem_extend, outside] using unbound
  | quantified quantifier binders body bodyHypothesis =>
      intro context free outside
      obtain ⟨inside, unbound⟩ := List.mem_filter.mp free
      apply bodyHypothesis _ inside
      simpa [mem_extend, outside] using unbound
  | annotated inner attributes innerHypothesis => exact innerHypothesis

private theorem extend_subset {context : Context} {scope : Scope}
    (subset : context ⊆ Table.names scope) (binders : Binders) :
    context.extend (binders.map Prod.fst) ⊆ Table.names
      (scope.enter binders) := by
  intro name member
  rw [Scope.enter, Table.names, List.map_append, List.mem_append]
  rcases mem_extend.mp member with inside | outside
  · exact .inl (by simpa using inside)
  · exact .inr (subset outside)

/-- In a well-sorted term unfolding comes upon free names only, unless an array
is hidden. -/
theorem mem_freeNames_of_mem_uses {symbols : SymbolTable} {name : Text}
    (source : Term) :
    ∀ (scope : Scope) (context : Context), context ⊆ Table.names scope →
      source.WellSorted symbols scope → source.arraysVisible context = true →
      name ∈ source.uses context → name ∈ source.freeNames ∧
      name ∉ context := by
  induction source using Term.induction with
  | literal value => exact fun _ _ _ _ _ used => absurd used List.not_mem_nil
  | symbol other sort =>
      intro scope context _ _ _ used
      rw [uses] at used
      split at used
      · cases used
      · next unbound =>
        obtain rfl := List.mem_singleton.mp used
        exact ⟨List.mem_singleton_self _, by simpa using unbound⟩
  | functionArray function index element =>
      intro scope context _ _ visible used
      obtain rfl := List.mem_singleton.mp used
      exact ⟨List.mem_cons_self, by simpa [arraysVisible] using visible⟩
  | application head indices arguments sort argumentsHypothesis =>
      intro scope context subset wellSorted visible used
      obtain ⟨fits, wellSortedArguments⟩ := wellSorted
      rcases List.mem_append.mp used with inside | atHead
      · obtain ⟨argument, member, inside⟩ := mem_usesOfAll.mp inside
        obtain ⟨free, outside⟩ :=
          argumentsHypothesis argument member scope context subset
            (wellSortedAll_iff.mp wellSortedArguments argument member)
            (allArraysVisible_iff.mp visible argument member) inside
        exact ⟨List.mem_append_left _
          (mem_freeNamesOfAll.mpr ⟨argument, member, free⟩), outside⟩
      · cases head with
        | operator operator => cases atHead
        | function function =>
            obtain rfl := List.mem_singleton.mp atHead
            refine ⟨List.mem_append_right _ (List.mem_singleton_self _),
              fun bound => ?_⟩
            exact Table.find?_eq_none_iff.mp fits.1 (subset bound)
  | letIn bindings body bindingsHypothesis bodyHypothesis =>
      intro scope context subset wellSorted visible used
      obtain ⟨wellSortedBindings, wellSortedBody, _⟩ := wellSorted
      obtain ⟨visibleBindings, visibleBody⟩ := Bool.and_eq_true_iff.mp visible
      rcases List.mem_append.mp used with inside | inside
      · obtain ⟨binding, member, inside⟩ := mem_usesOfBindings.mp inside
        obtain ⟨free, outside⟩ :=
          bindingsHypothesis binding member scope context subset
            (wellSortedBindings_iff.mp wellSortedBindings binding member)
            (boundArraysVisible_iff.mp visibleBindings binding member) inside
        exact ⟨List.mem_append_left _
          (mem_freeNamesOfBindings.mpr ⟨binding, member, free⟩),
          outside⟩
      · have inner := extend_subset subset (letBinders bindings)
        rw [map_fst_letBinders] at inner
        obtain ⟨free, outside⟩ :=
          bodyHypothesis _ _ inner wellSortedBody visibleBody inside
        obtain ⟨unbound, outer⟩ := not_or.mp (mt mem_extend.mpr outside)
        refine ⟨List.mem_append_right _ (List.mem_filter.mpr ⟨free, ?_⟩), outer⟩
        simpa using unbound
  | quantified quantifier binders body bodyHypothesis =>
      intro scope context subset wellSorted visible used
      obtain ⟨free, outside⟩ :=
        bodyHypothesis _ _ (extend_subset subset binders) wellSorted.2.2.1
          visible used
      obtain ⟨unbound, outer⟩ := not_or.mp (mt mem_extend.mpr outside)
      refine ⟨List.mem_filter.mpr ⟨free, ?_⟩, outer⟩
      simpa using unbound
  | annotated inner attributes innerHypothesis => exact innerHypothesis

end Term

/-! ## Definitions -/

namespace Definition

variable {symbols : SymbolTable} {definition : Definition} {name : Text}

theorem mem_freeNames :
    name ∈ definition.freeNames ↔
      name ∈ definition.body.freeNames ∧
      name ∉ definition.params.map Prod.fst := by
  simp [freeNames]

/-- The names that are free in a term, save for those of operators, are come
upon when it is unfolded. -/
theorem mem_uses_of_mem_freeNames
    (plain : ∀ operator : Operator, operator.name ≠ name)
    (free : name ∈ definition.freeNames) :
    name ∈ definition.uses := by
  obtain ⟨inside, unbound⟩ := mem_freeNames.mp free
  apply Term.mem_uses_of_mem_freeNames plain _ _ inside
  rw [Term.mem_extend, not_or]
  exact ⟨unbound, List.not_mem_nil⟩

theorem Settled.mem_freeNames_of_mem_uses (settled : definition.Settled symbols)
    (visible : definition.body.arraysVisible
      (.extend [] (definition.params.map Prod.fst)) = true)
    (used : name ∈ definition.uses) :
    name ∈ definition.freeNames := by
  have subset :=
    Term.extend_subset
      (List.nil_subset _ : ([] : Context) ⊆ Table.names ([] : Scope))
    definition.params
  obtain ⟨free, outside⟩ :=
    Term.mem_freeNames_of_mem_uses definition.body _ _ subset settled.body
      visible used
  obtain ⟨unbound, _⟩ := not_or.mp (mt Term.mem_extend.mpr outside)
  exact mem_freeNames.mpr ⟨free, unbound⟩

end Definition

/-! ## Paths -/

section Paths

variable {table : Table Definition} {first last : Text}

private theorem leads_uses
    (plain : ∀ name, table.find? name ≠ none →
      ∀ operator : Operator, operator.name ≠ name)
    (step : Leads Definition.freeNames table first last)
    (defined : table.find? last ≠ none) :
    Leads Definition.uses table first last := by
  obtain ⟨definition, found, free⟩ := step
  exact ⟨definition, found,
    Definition.mem_uses_of_mem_freeNames (plain last defined) free⟩

private theorem find?_ne_none_of_leads {uses : Definition → List Text}
    (step : Leads uses table first last) :
    table.find? first ≠ none := by
  obtain ⟨definition, found, _⟩ := step
  simp [found]

/-- A path through free names to a definition is one of unfolding. -/
private theorem path_uses
    (plain : ∀ name, table.find? name ≠ none →
      ∀ operator : Operator, operator.name ≠ name)
    (path : ReflTransGen (Leads Definition.freeNames table) first last)
    (defined : table.find? last ≠ none) :
    ReflTransGen (Leads Definition.uses table) first last ∧
    table.find? first ≠ none := by
  induction path using ReflTransGen.head_induction_on with
  | refl => exact ⟨.refl, defined⟩
  | head step _ inductionHypothesis =>
      obtain ⟨rest, nextDefined⟩ := inductionHypothesis
      exact ⟨.head (leads_uses plain step nextDefined) rest,
        find?_ne_none_of_leads step⟩

/-- If no definition has the name of an operator, then all free names of
definitions on the way into a cycle are used by unfolding. -/
theorem LeadsIntoCycle.uses
    (plain : ∀ name, table.find? name ≠ none →
      ∀ operator : Operator, operator.name ≠ name)
    (leads : LeadsIntoCycle Definition.freeNames table first) :
    LeadsIntoCycle Definition.uses table first ∧ table.find? first ≠ none := by
  obtain ⟨name, path, cycle⟩ := leads
  obtain ⟨next, step, rest⟩ := TransGen.head'_iff.mp cycle
  have defined := find?_ne_none_of_leads step
  obtain ⟨way, firstDefined⟩ := path_uses plain path defined
  obtain ⟨round, nextDefined⟩ := path_uses plain rest defined
  exact ⟨⟨name, way, .head' (leads_uses plain step nextDefined) round⟩,
    firstDefined⟩

end Paths

/-! ## Lemmas -/

namespace Session.Pair

variable {pair : Session.Pair}

/-- All assertions of the pair can be unfolded. -/
def Unfolds (pair : Session.Pair) : Prop :=
  ∃ expressions,
    Unfolding.assertions (pair.formula.definitions ++ pair.model.definitions)
      pair.formula.assertions = .ok expressions

/-- No function is taken as an array inside a binder of its name. -/
structure ArraysVisible (pair : Session.Pair) : Prop where
  assertions :
      ∀ assertion ∈ pair.formula.assertions, assertion.arraysVisible [] = true
  definitions :
      ∀ definition ∈ pair.formula.definitions ++ pair.model.definitions,
    definition.body.arraysVisible
      (.extend [] (definition.params.map Prod.fst)) = true

/-- No definition of a pair has the name of an operator. -/
theorem Settled.plain (settled : pair.Settled) (name : Text)
    (defined : (Obligation.table pair.formula pair.model).find? name ≠ none)
    (operator : Operator) :
    operator.name ≠ name := by
  obtain ⟨definition, found⟩ := Option.ne_none_iff_exists'.mp defined
  obtain ⟨member, rfl⟩ := definition_of_find? found
  obtain ⟨declaration, declared, _, _⟩ :=
    (settled.definition definition member).signature
  have unreserved := settled.wellFormed.isBuiltinName_eq_false declared
  intro same
  rw [← same, operator.isBuiltinName_name] at unreserved
  cases unreserved

/-- What unfolding accepts has no circular equations. -/
theorem Settled.acyclic_of_unfolds (settled : pair.Settled)
    (unfolds : pair.Unfolds) :
    Acyclic (Obligation.kept pair.formula pair.model) := by
  apply Obligation.acyclic_kept_iff.mpr
  intro assertion inside first free leads
  obtain ⟨used, defined⟩ := leads.uses settled.plain
  have firstUsed :=
    Term.mem_uses_of_mem_freeNames
      (settled.plain first defined) assertion [] free
    List.not_mem_nil
  exact Unfolding.assertions_eq_ok_iff.mp unfolds assertion inside first
    firstUsed used

/-- All assertions are unfolded if the kept equations are not circular and no
binder hides a function that is taken as an array. -/
theorem Settled.unfolds_of_acyclic (settled : pair.Settled)
    (visible : pair.ArraysVisible)
    (acyclic : Acyclic (Obligation.kept pair.formula pair.model)) :
    pair.Unfolds := by
  apply Unfolding.assertions_eq_ok_iff.mpr
  rintro assertion inside first used ⟨name, path, cycle⟩
  have steps : ∀ earlier later,
      Leads Definition.uses (Obligation.table pair.formula pair.model)
        earlier later →
        Leads Definition.freeNames (Obligation.table pair.formula pair.model)
          earlier later := by
    rintro earlier later ⟨definition, found, used⟩
    obtain ⟨member, _⟩ := definition_of_find? found
    exact ⟨definition, found,
      (settled.definition definition member).mem_freeNames_of_mem_uses
      (visible.definitions definition member) used⟩
  obtain ⟨free, _⟩ :=
    Term.mem_freeNames_of_mem_uses assertion [] [] (List.nil_subset _)
      (settled.formula.assertions assertion inside)
      (visible.assertions assertion inside) used
  exact Obligation.acyclic_kept_iff.mp acyclic assertion inside first free
    ⟨name, ReflTransGen.mono steps _ _ path, TransGen.mono steps _ _ cycle⟩

end Session.Pair

namespace Obligation

variable {operators : OperatorTable} {pair : Session.Pair}
  {obligation : Obligation}

/-- The equations of a lemma are those of the kept definitions. They are
circular if and only if a path from some name in an assertion leads into a
cycle. They are not if unfolding the assertions succeeds; and they are whenever
unfolding reports a recursive definition, unless a function is taken as an array
inside a binder of its name. -/
theorem equations_acyclic_iff {formulaText modelOutput : Text}
    (read : Session.readPair formulaText modelOutput = .ok pair)
    (assembled : ofPair operators pair = .ok obligation) :
    obligation.equations.map Prod.fst =
        (kept pair.formula pair.model).map
          (fun definition => Identifier.escape definition.name) ∧
      (Acyclic (kept pair.formula pair.model) ↔
        ∀ assertion ∈ pair.formula.assertions, ∀ first ∈ assertion.freeNames,
          ¬LeadsIntoCycle Definition.freeNames
            (table pair.formula pair.model) first) ∧
      (pair.Unfolds → Acyclic (kept pair.formula pair.model)) ∧
      (pair.ArraysVisible → Acyclic (kept pair.formula pair.model) →
        pair.Unfolds) := by
  have settled := Session.readPair_settled read
  exact ⟨(assembled_of_ofPair assembled).map_fst_equations, acyclic_kept_iff,
    settled.acyclic_of_unfolds, settled.unfolds_of_acyclic⟩

/-- The formula `x = 0` and a model that defines `x` as `x + 1`. -/
def selfIncrement : Session.Pair where
  formula :=
    ⟨[.application (.operator .equality) [] [.symbol "x" .int,
      .literal (.integer 0)] .bool], []⟩
  model :=
    ⟨[⟨⟨"x", [], .int, .defined⟩, [],
      .application (.operator .addition) [] [.symbol "x" .int,
        .literal (.integer 1)] .int⟩], []⟩
  symbols := ⟨[("x", ⟨"x", [], .int, .defined⟩)], [], []⟩

theorem reached_selfIncrement :
    reached selfIncrement.formula selfIncrement.model =
      (["=", "+", "x"] : List Text) := by
  have first : selfIncrement.formula.assertions.flatMap Term.freeNames =
      (["x", "="] : List Text) := by
    decide +kernel
  rw [reached, Reachability.reachedNames, first,
    Reachability.visit_of_found (by decide +kernel) rfl]
  change Reachability.visit [] (["x"] : List Text)
    (["x", "+", "="] : List Text) = _
  rw [Reachability.visit_of_seen (by decide +kernel),
    Reachability.visit_of_absent (by decide +kernel) rfl,
    Reachability.visit_of_absent (by decide +kernel) rfl, Reachability.visit]

/-- The pair is read and its lemma is assembled, although its equation is
circular. -/
theorem selfIncrement_circular :
    Session.readPair "(declare-const x Int)(assert (= x 0))"
      "(define-fun x () Int (+ x 1))" =
        .ok selfIncrement ∧
      (ofPair .default selfIncrement).toOption.map
          (fun obligation =>
            obligation.equations.map Translation.equationText) =
        some (["x = (x + (1::int))"] : List Text) ∧
      ¬Acyclic (kept selfIncrement.formula selfIncrement.model) ∧
      ¬selfIncrement.Unfolds := by
  have read : Session.readPair "(declare-const x Int)(assert (= x 0))"
      "(define-fun x () Int (+ x 1))" = .ok selfIncrement :=
    Outcome.toOption_eq_some_iff.mp (by decide +kernel)
  have texts : (ofPair .default selfIncrement).toOption.map
      (fun obligation => obligation.equations.map Translation.equationText) =
        some (["x = (x + (1::int))"] : List Text) := by
    rw [ofPair, reached_selfIncrement]
    decide +kernel
  have circular :
      ¬Acyclic (kept selfIncrement.formula selfIncrement.model) := by
    have definitions : kept selfIncrement.formula selfIncrement.model =
        selfIncrement.model.definitions := by
      rw [kept, reached_selfIncrement]
      decide +kernel
    rw [definitions]
    intro acyclic
    refine acyclic _
      (.single ⟨List.mem_singleton_self _, List.mem_singleton_self _, ?_⟩)
    decide +kernel
  obtain ⟨obligation, assembled, _⟩ := Option.map_eq_some_iff.mp texts
  obtain ⟨_, _, acyclic, _⟩ :=
    equations_acyclic_iff read (Outcome.toOption_eq_some_iff.mp assembled)
  exact ⟨read, texts, circular, mt acyclic circular⟩

end Obligation

end ModelAudit
