import ModelAudit.Proofs.ClosedLemma
import ModelAudit.Proofs.Occurrence
import ModelAudit.Proofs.UnfoldingCycles

/-!
# Functions taken as arrays

A function taken as an array is typed and unfolded as the global function,
whatever binders are around it. It is translated to the global function and
depended on as such if and only if no binder around it has the name of the
function.
-/

namespace ModelAudit

open HolScope Identifier Translation

namespace Session

/-- The terms of a pair with the parameters around them: the assertions, and the
bodies of all definitions. -/
inductive Pair.Contains (pair : Pair) : Binders → Term → Prop
  | assertion {assertion : Term} :
      assertion ∈ pair.formula.assertions → Contains pair [] assertion
  | body {definition : Definition} :
      definition ∈ pair.formula.definitions ++ pair.model.definitions →
      Contains pair definition.params definition.body

/-- The terms of a pair that become part of its obligation: the assertions, and
the bodies of the kept definitions. -/
inductive Pair.Poses (pair : Pair) : Binders → Term → Prop
  | assertion {assertion : Term} : assertion ∈ pair.formula.assertions →
      Poses pair [] assertion
  | body {definition : Definition} :
      definition ∈ Obligation.kept pair.formula pair.model →
      Poses pair definition.params definition.body

/-- The scope in which a term inside parameters is translated. -/
def Pair.scope (pair : Pair) (params : Binders) : HolScope :=
  (rootScope pair.symbols).bind ((rootScope pair.symbols).pickBinders params)

variable {pair : Pair} {params : Binders} {source : Term}

theorem Pair.scope_nil (pair : Pair) :
    pair.scope [] = rootScope pair.symbols := by
  simp [scope, pickBinders, HolScope.pick, HolScope.bind, rootScope,
    HolScope.ofNames, Table.values]

theorem Pair.Contains.hasSort (contains : pair.Contains params source)
    (settled : pair.Settled) :
    ∃ typing sort, source.HasSort pair.symbols Literal.InRange typing sort := by
  cases contains with
  | assertion member => exact ⟨_, _, settled.formula.typed _ member⟩
  | body member => exact ⟨_, _, (settled.definition _ member).typed⟩

theorem Pair.Poses.contains (poses : pair.Poses params source) :
    pair.Contains params source := by
  cases poses with
  | assertion member => exact .assertion member
  | body member =>
      exact .body (definition_of_find? (Obligation.mem_kept.mp member).1).1

/-- The terms that are posed are the assertions and the bodies of kept
definitions. -/
theorem Pair.mem_posed :
    source ∈ pair.formula.assertions ++
        (Obligation.kept pair.formula pair.model).map Definition.body ↔
      ∃ params, pair.Poses params source := by
  rw [List.mem_append, List.mem_map]
  constructor
  · rintro (member | ⟨definition, member, rfl⟩)
    · exact ⟨[], .assertion member⟩
    · exact ⟨definition.params, .body member⟩
  · rintro ⟨params, member | member⟩
    · exact .inl member
    · exact .inr ⟨_, member, rfl⟩

/-- The assertions depend on what is free in a term of the obligation and no
parameter. -/
theorem Pair.Poses.dependsOn {name : Text} (poses : pair.Poses params source)
    (free : name ∈ source.freeNames) (outside : name ∉ params.map Prod.fst) :
    pair.DependsOn name := by
  cases poses with
  | assertion member => exact ⟨_, member, name, free, .refl⟩
  | @body definition member =>
      obtain ⟨found, reached⟩ := Obligation.mem_kept.mp member
      refine Obligation.mem_reached_iff_dependsOn.mp
        (Obligation.reached_step reached ⟨definition, found, ?_⟩)
      exact List.mem_filter.mpr ⟨free, by simpa using outside⟩

end Session

namespace Obligation

open Session

variable {operators : OperatorTable} {pair : Pair} {obligation : Obligation}
  {params : Binders} {source : Term} {scope inner : HolScope}
  {names : List Text} {function : Text}
  {index element : SmtSort}

/-- A term of the obligation is translated in its scope, and the translation
stands in the goal or on the right of an equation. -/
theorem Assembled.exists_whole (assembled : Assembled operators pair obligation)
    (poses : pair.Poses params source) :
    ∃ translated whole, term (vocabulary operators pair.symbols)
      (pair.scope params) source =
        .ok translated ∧
      (whole = obligation.goal ∨ whole ∈ obligation.equations.map Prod.snd) ∧
      translated.PartOf whole := by
  cases poses with
  | assertion member =>
      obtain ⟨parts, translations, shape⟩ := assembled.goal
      obtain ⟨translated, inside, computed⟩ :=
        Outcome.exists_mem_of_mapM translations member
      rw [pair.scope_nil]
      exact ⟨translated, obligation.goal, computed, .inl rfl,
        shape ▸ HolTerm.partOf_conjoin inside⟩
  | @body definition member =>
      obtain ⟨equation, inside, computed⟩ :=
        Outcome.exists_mem_of_mapM assembled.equations member
      obtain ⟨value, valueShape, shape⟩ := Outcome.bind_eq_ok.mp computed
      obtain rfl := Except.ok.inj shape
      have listed := List.mem_map_of_mem (f := Prod.snd) inside
      unfold definitionValue at valueShape
      split at valueShape
      · next constant =>
        rw [List.isEmpty_iff.mp constant, pair.scope_nil]
        exact ⟨value, value, valueShape, .inr listed, .refl⟩
      · rw [enterBinders_eq] at valueShape
        obtain ⟨entered, enteredShape, valueShape⟩ :=
          Outcome.bind_eq_ok.mp valueShape
        obtain ⟨types, _, enteredShape⟩ := Outcome.bind_eq_ok.mp enteredShape
        obtain rfl := Except.ok.inj enteredShape
        obtain ⟨body, bodyShape, valueShape⟩ := Outcome.bind_eq_ok.mp valueShape
        obtain rfl := Except.ok.inj valueShape
        exact ⟨body, _, bodyShape, .inr listed,
          .of_mem (List.mem_singleton_self _)⟩

theorem signature_of_comesUpon (settled : pair.Settled)
    (contains : pair.Contains params source)
    (comes : ComesUpon scope source inner names
      (.functionArray function index element)) :
    pair.symbols.HasSignature function [index] element := by
  obtain ⟨typing, sort, typed⟩ := contains.hasSort settled
  obtain ⟨innerTyping, innerSort, typedPart⟩ := comes.hasSort typed
  cases typedPart with
  | functionArray signature => exact signature

/-- Under the default spellings, a declared function taken as an array is
translated to its identifier. -/
theorem term_functionArray (settled : pair.Settled)
    (signature : pair.symbols.HasSignature function [index] element) :
    term (vocabulary .default pair.symbols) inner
        (.functionArray function index element) =
      .ok (.name (inner.identifier function)) := by
  obtain ⟨declaration, found, arguments, rfl⟩ := signature
  have indexGround :=
    settled.wellFormed.arguments function declaration found index
      (by simp [arguments])
  have elementGround := settled.wellFormed.results function declaration found
  have ground := SmtSort.Ground.array indexGround elementGround
  obtain ⟨type, typeShape⟩ := ground.toHol_ok
  obtain ⟨indexType, indexShape⟩ := indexType?_ok ground
  rw [term, spell]
  simp [vocabulary, OperatorTable.default, Operator.defaultSpelling?,
    SpellingEntry.spelling?, Spelling.templated, Template.fill?, spelled,
    typeShape, indexShape]

/-- A function taken as an array is the global function to its sort and to its
unfolding. It is so to its translation, too, if and only if no binder around has
its name, and then the assertions depend on it and its definition is kept. -/
theorem functionArray_isGlobal_iff {formulaText modelOutput : Text}
    (read : readPair formulaText modelOutput = .ok pair)
    (contains : pair.Contains params source)
    (comes : ComesUpon (pair.scope params) source inner names
      (.functionArray function index element)) :
    pair.symbols.HasSignature function [index] element ∧
      (∀ state context,
        Unfolding.term state context (.functionArray function index element) =
        (Unfolding.symbol state function [.bound 0 index] element).map
          (Expression.arrayOf index element)) ∧
      term (vocabulary .default pair.symbols) inner
          (.functionArray function index element) =
        .ok (.name (inner.identifier function)) ∧
      (inner.identifier function = escape function ↔
        function ∉ params.map Prod.fst ++ names) ∧
      (pair.Poses params source →
        (∀ obligation, ofPair .default pair = .ok obligation → ∃ whole,
          (whole = obligation.goal ∨
            whole ∈ obligation.equations.map Prod.snd) ∧
            (HolTerm.name (inner.identifier function)).PartOf whole) ∧
        (function ∉ params.map Prod.fst ++ names →
          pair.DependsOn function ∧
            ∀ definition, (table pair.formula pair.model).find? function =
                some definition →
              definition ∈ kept pair.formula pair.model)) := by
  have settled := readPair_settled read
  have signature := signature_of_comesUpon settled contains comes
  have translated : term (vocabulary .default pair.symbols) inner
      (.functionArray function index element) =
        .ok (.name (inner.identifier function)) :=
    term_functionArray settled signature
  have shadows : Shadows (rootScope pair.symbols) inner
      (((rootScope pair.symbols).pickBinders params).map Prod.fst ++ names) :=
    comes.shadows.bind ((rootScope pair.symbols).picks_pick [] _)
  rw [map_fst_pickBinders] at shadows
  have declared : function ∈ pair.symbols.declarations.names :=
    not_not.mp (mt Table.find?_eq_none_iff.mpr signature.lookup?_ne_none)
  have taken : escape function ∈ (rootScope pair.symbols).taken :=
    List.mem_append_left _ (List.mem_map_of_mem declared)
  refine ⟨signature, fun state context => ?_, translated, ⟨?_, ?_⟩,
    fun poses => ⟨?_, ?_⟩⟩
  · rw [Unfolding.term]
    cases Unfolding.symbol state function [.bound 0 index] element <;> rfl
  · exact fun same inside => shadows.shadowed function inside taken same
  · intro outside
    rw [shadows.kept function outside]
    rfl
  · intro obligation assembled
    obtain ⟨whole, place, computed, stands, within⟩ :=
      (assembled_of_ofPair assembled).exists_whole poses
    obtain ⟨typing, sort, typed⟩ := contains.hasSort settled
    obtain ⟨shown, shownComputed, shownWithin⟩ :=
      comes.translated rfl typed computed
    obtain rfl := Except.ok.inj (translated.symm.trans shownComputed)
    exact ⟨place, stands, shownWithin.trans within⟩
  · intro visible
    rw [List.mem_append, not_or] at visible
    have free := comes.mem_freeNames visible.2 List.mem_cons_self
    have depends := poses.dependsOn free visible.1
    refine ⟨depends, fun definition found => ?_⟩
    have named := (definition_of_find? found).2
    exact mem_kept.mpr
      ⟨named ▸ found, named ▸ mem_reached_iff_dependsOn.mpr depends⟩

/-- The array of `f` at an index, inside a quantifier that binds `f`. -/
def capturingAssertion : Term :=
  .quantified .universal [("f", .int)]
    (.application (.operator .equality) []
      [.application (.operator .select) []
        [.functionArray "f" .int .int, .literal (.integer 0)] .int,
      .literal (.integer 0)] .bool)

/-- A pair with this assertion, whose model defines `f`. -/
def capturedFunction : Pair where
  formula := ⟨[capturingAssertion], []⟩
  model :=
    ⟨[⟨⟨"f", [.int], .int, .defined⟩, [("x", .int)], .literal (.integer 0)⟩],
      []⟩
  symbols := ⟨[("f", ⟨"f", [.int], .int, .defined⟩)], [], []⟩

theorem reached_capturedFunction :
    reached capturedFunction.formula capturedFunction.model =
      (["=", "select", "as-array"] : List Text) := by
  have first : capturedFunction.formula.assertions.flatMap Term.freeNames =
      (["as-array", "select", "="] : List Text) := by
    decide +kernel
  rw [reached, Reachability.reachedNames, first,
    Reachability.visit_of_absent (by decide +kernel) rfl,
    Reachability.visit_of_absent (by decide +kernel) rfl,
    Reachability.visit_of_absent (by decide +kernel) rfl, Reachability.visit]

/-- The goal applies the bound number instead of the function, and the
definition of the function is not kept. -/
theorem capturedFunction_not_isGlobal :
    readPair
          "(declare-fun f (Int) Int)(assert (forall ((f Int)) (= (select (_ as-array f) 0) 0)))"
          "(define-fun f ((x Int)) Int 0)" =
        .ok capturedFunction ∧
      (ofPair .default capturedFunction).toOption.map
          (fun obligation => (obligation.goal.text,
            obligation.equations.map equationText)) =
        some (("(\\<forall>(f'1::int). ((f'1 (0::int)) = (0::int)))" : Text),
          []) ∧
      ¬capturedFunction.DependsOn "f" ∧
      ∃ inner, ComesUpon (capturedFunction.scope []) capturingAssertion inner
          ["f"] (.functionArray "f" .int .int) ∧
        capturedFunction.symbols.HasSignature "f" [.int] .int ∧
        inner.identifier "f" ≠ escape "f" := by
  have read : readPair
      "(declare-fun f (Int) Int)(assert (forall ((f Int)) (= (select (_ as-array f) 0) 0)))"
      "(define-fun f ((x Int)) Int 0)" = .ok capturedFunction :=
    Outcome.toOption_eq_some_iff.mp (by decide +kernel)
  have texts : (ofPair .default capturedFunction).toOption.map
      (fun obligation => (obligation.goal.text,
        obligation.equations.map equationText)) =
        some (("(\\<forall>(f'1::int). ((f'1 (0::int)) = (0::int)))" : Text),
          []) := by
    rw [ofPair, reached_capturedFunction]
    decide +kernel
  have independent : ¬capturedFunction.DependsOn "f" := by
    rw [← mem_reached_iff_dependsOn, reached_capturedFunction]
    decide +kernel
  have comes :
      ∃ inner, ComesUpon (capturedFunction.scope []) capturingAssertion inner
        ["f"]
      (.functionArray "f" .int .int) :=
    ⟨_, .quantified
      (.argument List.mem_cons_self (.argument List.mem_cons_self .here))⟩
  obtain ⟨inner, comes⟩ := comes
  obtain ⟨signature, _, _, isGlobal, _⟩ :=
    functionArray_isGlobal_iff read (.assertion List.mem_cons_self) comes
  exact ⟨read, texts, independent, inner, comes, signature,
    fun same => isGlobal.mp same (by decide +kernel)⟩

end Obligation

end ModelAudit
