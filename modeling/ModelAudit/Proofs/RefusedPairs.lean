import ModelAudit.Proofs.FunctionArrays
import ModelAudit.Proofs.TotalSpelling

/-!
# Pairs without a theory

A pair that has been read has a theory, unless its lemma would apply an operator
that is disabled or hold a string with a character that is no byte. All else
that reading accepts can be translated, the sorts included.
-/

namespace ModelAudit

open Translation

/-! ## Terms -/

/-- The term itself has no translation, for this reason: it applies a disabled
operator, or it is a string with a code point above U+00FF. -/
inductive Term.Refused (operators : OperatorTable) : Term → Unsupported → Prop
  | operator {term : Term} {operator : Operator} :
      term.applied? = some operator → operators operator = .disabled →
      Refused operators term ⟨operator.name, "operator"⟩
  | character {contents : Text} {point : CodePoint} :
      contents.find? (fun point => 0xFF < point.toNat) = some point →
      Refused operators (.literal (.string contents))
        ⟨"string literal",
          "code point U+" ++ Text.upperHexadecimal 4 point.toNat ++
            " above U+00FF"⟩

theorem SpellingEntry.spelling?_eq_none {entry : SpellingEntry} :
    entry.spelling? = none ↔ entry = .disabled := by
  cases entry <;> simp [spelling?]

namespace Translation

variable {vocabulary : Vocabulary} {scope : HolScope} {fault : Unsupported}
  {source part : Term}

theorem enterBinders_ne_error {binders : Binders}
    (ground : ∀ binder ∈ binders, binder.snd.Ground vocabulary.userSorts) :
    enterBinders vocabulary scope binders ≠ .error fault := by
  intro failed
  rcases Outcome.bind_eq_error.mp failed with inTypes | ⟨_, _, finished⟩
  · obtain ⟨⟨name, sort⟩, member, failed⟩ :=
      Outcome.exists_of_mapM_eq_error inTypes
    obtain ⟨type, translated⟩ := (ground (name, sort) member).toHol_ok
    cases translated.symm.trans failed
  · cases finished

/-- Only disabled operators cannot be spelled. -/
theorem refused_of_spell_eq_error (ordinary : vocabulary.operators.Ordinary)
    {operator : Operator} {indices : List Nat} {arguments : List HolTerm}
    {sort : SmtSort}
    (applied : source.applied? = some operator)
    (admits : operator.Admits indices arguments.length sort)
    (ground : sort.Ground vocabulary.userSorts)
    (failed : spell vocabulary operator indices arguments sort = .error fault) :
    source.Refused vocabulary.operators fault := by
  cases found : (vocabulary.operators operator).spelling? with
  | none =>
      rw [spell, found] at failed
      obtain rfl := Except.error.inj failed
      exact .operator applied (SpellingEntry.spelling?_eq_none.mp found)
  | some spelling =>
      obtain ⟨translated, shape⟩ := exists_spell ordinary found admits ground
      rw [shape] at failed
      cases failed

/-- The only literals without translation are strings with characters that HOL
has not. -/
theorem refused_of_literal_eq_error {operators : OperatorTable}
    {value : Literal} (failed : literal value = .error fault) :
    (Term.literal value).Refused operators fault := by
  cases value with
  | bool _ | integer _ | decimal _ | bitVector _ _ => cases failed
  | string contents =>
      change characters contents = .error fault at failed
      unfold characters at failed
      split at failed
      · next point found =>
        obtain rfl := Except.error.inj failed
        exact .character found
      · cases failed

variable {symbols : SymbolTable}

/-- Whatever the scope is, a translation fails at a part that is refused. -/
theorem refused_of_term_eq_error (ordinary : vocabulary.operators.Ordinary)
    (wellFormed : symbols.WellFormed)
    (names : vocabulary.userSorts = symbols.userSorts)
    (sorted : source.SortedOver symbols)
    (failed : term vocabulary scope source = .error fault) :
    ∃ part : Term, part.PartOf source ∧
      part.Refused vocabulary.operators fault := by
  induction source using Term.componentInduction generalizing scope with
  | step source inductionHypothesis =>
      -- A component that fails has a refused part, and so has the whole.
      have inside {component : Term} {inner : HolScope}
          (among : component ∈ source.components)
          (failed : term vocabulary inner component = .error fault) :
          ∃ part : Term, part.PartOf source ∧
            part.Refused vocabulary.operators fault := by
        obtain ⟨part, within, refused⟩ := inductionHypothesis component among
          (sorted.component wellFormed component among) failed
        exact ⟨part, within.of_mem among, refused⟩
      have ground := sorted.ground_sort wellFormed
      rw [← names] at ground
      cases source with
      | literal value => exact ⟨_, .refl, refused_of_literal_eq_error failed⟩
      | symbol name sort => cases failed
      | functionArray function index element =>
          exact ⟨_, .refl, refused_of_spell_eq_error ordinary rfl
            Operator.admits_functionArray ground failed⟩
      | application head indices arguments sort =>
          rcases Outcome.bind_eq_error.mp failed
            with argument | ⟨translated, shape, failed⟩
          · rw [terms_eq_mapM] at argument
            obtain ⟨source, among, failed⟩ :=
              Outcome.exists_of_mapM_eq_error argument
            exact inside among failed
          · cases head with
            | function name => cases failed
            | operator operator =>
                obtain ⟨_, _, _, typed⟩ := sorted
                have lengths := (terms_eq_ok.mp shape).length_eq
                exact ⟨_, .refl, refused_of_spell_eq_error ordinary rfl
                  (lengths ▸ Operator.admits_of_hasSort typed) ground failed⟩
      | letIn bindings body =>
          rcases Outcome.bind_eq_error.mp failed
            with bound | ⟨values, _, failed⟩
          · rw [boundTerms_eq_mapM] at bound
            obtain ⟨binding, among, failed⟩ :=
              Outcome.exists_of_mapM_eq_error bound
            exact inside
              (List.mem_append_left _ (List.mem_map_of_mem among)) failed
          · rcases Outcome.bind_eq_error.mp failed
              with inBody | ⟨_, _, finished⟩
            · exact inside
                (List.mem_append_right _ (List.mem_singleton_self body)) inBody
            · cases finished
      | quantified quantifier binders body =>
          rcases Outcome.bind_eq_error.mp failed
            with entering | ⟨entered, _, failed⟩
          · have bindersGround := sorted.binders
            rw [← names] at bindersGround
            exact absurd entering (enterBinders_ne_error bindersGround)
          · rcases Outcome.bind_eq_error.mp failed
              with inBody | ⟨_, _, finished⟩
            · exact inside (List.mem_singleton_self body) inBody
            · cases finished
      | annotated inner attributes =>
        exact inside (List.mem_singleton_self inner) failed

/-- What a term with a translation is made of has translations. -/
theorem exists_component (translatable : ∃ scope translated,
      term vocabulary scope source = .ok translated) :
    ∀ component ∈ source.components, ∃ scope translated,
      term vocabulary scope component = .ok translated := by
  obtain ⟨scope, translated, shape⟩ := translatable
  cases source with
  | literal _ | symbol _ _ | functionArray _ _ _ =>
    exact fun _ member => nomatch member
  | application head indices arguments sort =>
      obtain ⟨results, shape, _⟩ := Outcome.bind_eq_ok.mp shape
      rw [terms_eq_mapM] at shape
      intro argument member
      obtain ⟨result, _, computed⟩ := Outcome.exists_mem_of_mapM shape member
      exact ⟨scope, result, computed⟩
  | letIn bindings body =>
      obtain ⟨values, boundShape, shape⟩ := Outcome.bind_eq_ok.mp shape
      obtain ⟨inner, bodyShape, _⟩ := Outcome.bind_eq_ok.mp shape
      rw [boundTerms_eq_mapM] at boundShape
      refine List.forall_mem_append.mpr
        ⟨List.forall_mem_map.mpr fun binding member => ?_,
        List.forall_mem_singleton.mpr ⟨_, inner, bodyShape⟩⟩
      obtain ⟨value, _, computed⟩ :=
        Outcome.exists_mem_of_mapM boundShape member
      exact ⟨scope, value, computed⟩
  | quantified quantifier binders body =>
      obtain ⟨entered, _, shape⟩ := Outcome.bind_eq_ok.mp shape
      obtain ⟨inner, bodyShape, _⟩ := Outcome.bind_eq_ok.mp shape
      exact List.forall_mem_singleton.mpr ⟨_, inner, bodyShape⟩
  | annotated inner attributes =>
    exact List.forall_mem_singleton.mpr ⟨scope, translated, shape⟩

/-- A term that has been translated is not refused. -/
theorem not_refused_of_term_eq_ok {translated : HolTerm}
    (shape : term vocabulary scope source = .ok translated) :
    ¬source.Refused vocabulary.operators fault := by
  intro refused
  cases refused with
  | @operator _ operator applied disabled =>
      have unspelled {indices : List Nat} {arguments : List HolTerm}
          {sort : SmtSort} :
          spell vocabulary operator indices arguments sort ≠
            .ok translated := by
        rw [spell, disabled]
        intro same
        cases same
      cases source with
      | functionArray function index element =>
          obtain rfl := Option.some.inj applied
          exact unspelled shape
      | application head indices arguments sort =>
          obtain ⟨results, _, shape⟩ := Outcome.bind_eq_ok.mp shape
          cases head with
          | function name => cases applied
          | operator other =>
              obtain rfl := Option.some.inj applied
              exact unspelled shape
      | literal _ | symbol _ _ | letIn _ _ | quantified _ _ _ | annotated _ _ =>
        cases applied
  | @character contents point found =>
      change characters contents = .ok translated at shape
      rw [characters, found] at shape
      cases shape

/-- No part of a term with a translation is refused. -/
theorem not_refused_of_partOf {translated : HolTerm}
    (shape : term vocabulary scope source = .ok translated) {part : Term}
    (within : part.PartOf source) :
    ¬part.Refused vocabulary.operators fault := by
  obtain ⟨inner, result, computed⟩ :=
    within.inherit (fun _ translatable => exists_component translatable)
      ⟨scope, translated, shape⟩
  exact not_refused_of_term_eq_ok computed

end Translation

/-! ## Pairs -/

namespace Session

/-- The part stands in an assertion or in the body of a kept definition. -/
def Pair.PosesPart (pair : Pair) (part : Term) : Prop :=
  ∃ params source, pair.Poses params source ∧ part.PartOf source

/-- The declarations of a pair: those of its symbol table, of its model and of
its definitions. -/
def Pair.declarations (pair : Pair) : List Declaration :=
  pair.symbols.declarations.values ++ pair.model.declarations ++
    (pair.formula.definitions ++ pair.model.definitions).map
      Definition.declaration

/-- The sorts of a pair: those of its declarations, parameters, binders and
terms. -/
inductive Pair.Holds (pair : Pair) : SmtSort → Prop
  | argument {declaration : Declaration} {sort : SmtSort} :
      declaration ∈ pair.declarations → sort ∈ declaration.arguments →
      Holds pair sort
  | result {declaration : Declaration} :
      declaration ∈ pair.declarations → Holds pair declaration.result
  | parameter {definition : Definition} {param : Text × SmtSort} :
      definition ∈ pair.formula.definitions ++ pair.model.definitions →
      param ∈ definition.params → Holds pair param.snd
  | binder {params binders : Binders} {source body : Term}
      {quantifier : Quantifier} {binder : Text × SmtSort} :
      pair.Contains params source →
      (Term.quantified quantifier binders body).PartOf source →
      binder ∈ binders → Holds pair binder.snd
  | term {params : Binders} {source part : Term} :
      pair.Contains params source → part.PartOf source → Holds pair part.sort

variable {pair : Pair}

theorem Pair.Contains.sortedOver {params : Binders} {source : Term}
    (contains : pair.Contains params source) (settled : pair.Settled) :
    source.SortedOver pair.symbols := by
  have empty : Scope.Ground pair.symbols.userSorts [] :=
    fun _ _ found => nomatch found
  cases contains with
  | assertion member => exact ⟨[], _, empty, settled.formula.typed _ member⟩
  | body member =>
      have settledDefinition := settled.definition _ member
      exact ⟨_, _, empty.enter settledDefinition.params,
        settledDefinition.typed⟩

theorem ground_of_hasSignature {symbols : SymbolTable} {name : Text}
    {arguments : List SmtSort} {result : SmtSort}
    (wellFormed : symbols.WellFormed)
    (signature : symbols.HasSignature name arguments result) :
    (∀ argument ∈ arguments, argument.Ground symbols.userSorts) ∧
      result.Ground symbols.userSorts := by
  obtain ⟨declaration, found, rfl, rfl⟩ := signature
  exact ⟨wellFormed.arguments name declaration found,
    wellFormed.results name declaration found⟩

/-- The declarations of a pair are made of declared and built-in sorts. -/
theorem Pair.Settled.ground_declaration (settled : pair.Settled)
    {declaration : Declaration} (member : declaration ∈ pair.declarations) :
    (∀ argument ∈ declaration.arguments,
      argument.Ground pair.symbols.userSorts) ∧
      declaration.result.Ground pair.symbols.userSorts := by
  rcases List.mem_append.mp member with first | defined
  · rcases List.mem_append.mp first with listed | declared
    · obtain ⟨⟨name, declaration⟩, inside, rfl⟩ := List.mem_map.mp listed
      have nodup := settled.reached.nodup_names List.nodup_nil
      have found := (Table.find?_eq_some_iff_of_nodup nodup).mpr inside
      exact ground_of_hasSignature settled.wellFormed ⟨declaration, found,
        rfl, rfl⟩
    · exact ground_of_hasSignature settled.wellFormed
        (settled.model.declarations _ declared)
  · obtain ⟨definition, inside, rfl⟩ := List.mem_map.mp defined
    exact ground_of_hasSignature settled.wellFormed
      (settled.definition _ inside).declared

/-- All sorts of a pair are ground. -/
theorem Pair.Settled.ground (settled : pair.Settled) {sort : SmtSort}
    (held : pair.Holds sort) :
    sort.Ground pair.symbols.userSorts := by
  cases held with
  | argument member inside =>
    exact (settled.ground_declaration member).1 _ inside
  | result member => exact (settled.ground_declaration member).2
  | parameter member inside =>
    exact (settled.definition _ member).params _ inside
  | binder contains within inside =>
      exact ((contains.sortedOver settled).part settled.wellFormed
        within).binders _ inside
  | term contains within =>
      exact ((contains.sortedOver settled).part settled.wellFormed
        within).ground_sort settled.wellFormed

end Session

namespace Obligation

open Session

variable {pair : Pair} {operators : OperatorTable} {fault : Unsupported}

/-- An equation without translation has a body without translation. -/
theorem exists_of_definitionValue_eq_error {words : Vocabulary}
    {scope : HolScope} {definition : Definition}
    (ground : ∀ param ∈ definition.params, param.snd.Ground words.userSorts)
    (failed : definitionValue words scope definition = .error fault) :
    ∃ inner, term words inner definition.body = .error fault := by
  unfold definitionValue at failed
  split at failed
  · exact ⟨scope, failed⟩
  · rcases Outcome.bind_eq_error.mp failed with entering | ⟨entered, _, failed⟩
    · exact absurd entering (enterBinders_ne_error ground)
    · rcases Outcome.bind_eq_error.mp failed with inBody | ⟨_, _, finished⟩
      · exact ⟨_, inBody⟩
      · cases finished

/-- Listing helpers fails at a disabled operator only. -/
theorem disabled_of_helpersOf_eq_error {applied : List Operator}
    (failed : helpersOf operators applied = .error fault) :
    ∃ operator ∈ applied, operators operator = .disabled ∧
      fault = ⟨operator.name, "operator"⟩ := by
  rcases Outcome.bind_eq_error.mp failed with inLists | ⟨_, _, finished⟩
  · obtain ⟨operator, member, failed⟩ := Outcome.exists_of_mapM_eq_error inLists
    split at failed
    · cases failed
    · next unspelled =>
      exact ⟨operator, member, SpellingEntry.spelling?_eq_none.mp unspelled,
        (Except.error.inj failed).symm⟩
  · cases finished

theorem exists_fixedSymbol {words : Vocabulary} {declaration : Declaration}
    (arguments : ∀ argument ∈ declaration.arguments,
      argument.Ground words.userSorts)
    (result : declaration.result.Ground words.userSorts) :
    ∃ fixed, fixedSymbol words declaration = .ok fixed := by
  obtain ⟨types, argumentTypes⟩ : ∃ types, declaration.arguments.mapM
      (fun sort => sort.toHol words.userSorts) = .ok types :=
    Outcome.exists_mapM_eq_ok fun argument member =>
      (arguments argument member).toHol_ok
  obtain ⟨type, resultType⟩ := result.toHol_ok
  exact ⟨_, by rw [fixedSymbol, argumentTypes, resultType]; rfl⟩

/-- The assembly of a pair fails at a part of its lemma that is refused. -/
theorem refused_of_ofPair_eq_error (settled : pair.Settled)
    (ordinary : operators.Ordinary)
    (failed : ofPair operators pair = .error fault) :
    ∃ part, pair.PosesPart part ∧ part.Refused operators fault := by
  have posed {params : Binders} {source : Term} {scope : HolScope}
      (poses : pair.Poses params source)
      (failed : term (vocabulary operators pair.symbols) scope source =
        .error fault) :
      ∃ part, pair.PosesPart part ∧ part.Refused operators fault := by
    have sorted := poses.contains.sortedOver settled
    obtain ⟨part, within, refused⟩ :=
      refused_of_term_eq_error ordinary settled.wellFormed rfl sorted failed
    exact ⟨part, ⟨params, source, poses, within⟩, refused⟩
  rw [ofPair] at failed
  rcases Outcome.bind_eq_error.mp failed with inGoals | ⟨goals, _, failed⟩
  · obtain ⟨assertion, member, failed⟩ :=
      Outcome.exists_of_mapM_eq_error inGoals
    exact posed (.assertion member) failed
  rcases Outcome.bind_eq_error.mp failed
    with inEquations | ⟨equations, _, failed⟩
  · obtain ⟨definition, member, failed⟩ :=
      Outcome.exists_of_mapM_eq_error inEquations
    rcases Outcome.bind_eq_error.mp failed with inValue | ⟨_, _, finished⟩
    · have ground := (settled.definition definition
        (definition_of_find? (mem_kept.mp member).1).1).params
      obtain ⟨inner, failed⟩ :=
        exists_of_definitionValue_eq_error ground inValue
      exact posed (.body member) failed
    · cases finished
  rcases Outcome.bind_eq_error.mp failed with inHelpers | ⟨helpers, _, failed⟩
  · obtain ⟨operator, member, disabled, rfl⟩ :=
      disabled_of_helpersOf_eq_error inHelpers
    obtain ⟨source, posed, inside⟩ := List.mem_flatMap.mp member
    obtain ⟨params, poses⟩ := Pair.mem_posed.mp posed
    obtain ⟨part, within, applied⟩ := Term.mem_operators_iff.mp inside
    exact ⟨part, ⟨params, source, poses, within⟩, .operator applied disabled⟩
  rcases Outcome.bind_eq_error.mp failed with inFixed | ⟨fixed, _, finished⟩
  · obtain ⟨declaration, member, failed⟩ :=
      Outcome.exists_of_mapM_eq_error inFixed
    have listed := (mem_usedDeclarations.mp member).1
    have ground := settled.ground_declaration
      (List.mem_append_left _ (List.mem_append_left _ listed))
    obtain ⟨fixed, shape⟩ : ∃ fixed,
        fixedSymbol (vocabulary operators pair.symbols) declaration =
          .ok fixed :=
      exists_fixedSymbol ground.1 ground.2
    rw [shape] at failed
    cases failed
  · cases finished

/-- Assembly succeeds only if no part of the lemma is refused. -/
theorem not_refused_of_ofPair_eq_ok {obligation : Obligation} {part : Term}
    (assembled : ofPair operators pair = .ok obligation)
    (posed : pair.PosesPart part) :
    ¬part.Refused operators fault := by
  obtain ⟨params, source, poses, within⟩ := posed
  obtain ⟨translated, _, shape, _⟩ :=
    (assembled_of_ofPair assembled).exists_whole poses
  exact not_refused_of_partOf shape within

/-- The assembly of a pair that has been read fails if and only if its lemma
would apply a disabled operator or hold a string with a character that is no
byte; the fault names what it is. And all sorts of the pair have types. -/
theorem ofPair_fails_iff {formulaText modelOutput : Text}
    (read : readPair formulaText modelOutput = .ok pair)
    (configured : operators.Configured) :
    ((∃ fault, ofPair operators pair = .error fault) ↔
      ∃ part fault, pair.PosesPart part ∧ part.Refused operators fault) ∧
    (∀ fault, ofPair operators pair = .error fault →
      ∃ part, pair.PosesPart part ∧ part.Refused operators fault) ∧
    ∀ sort, pair.Holds sort →
      ∃ type, sort.toHol pair.symbols.userSorts = .ok type := by
  have settled := readPair_settled read
  have refused (fault : Unsupported)
      (failed : ofPair operators pair = .error fault) :
      ∃ part, pair.PosesPart part ∧ part.Refused operators fault :=
    refused_of_ofPair_eq_error settled configured.ordinary failed
  refine ⟨⟨?_, ?_⟩, refused, fun sort held => (settled.ground held).toHol_ok⟩
  · rintro ⟨fault, failed⟩
    obtain ⟨part, posed, isRefused⟩ := refused fault failed
    exact ⟨part, fault, posed, isRefused⟩
  · rintro ⟨part, fault, posed, isRefused⟩
    cases assembled : ofPair operators pair with
    | ok obligation =>
      exact absurd isRefused (not_refused_of_ofPair_eq_ok assembled posed)
    | error reported => exact ⟨reported, rfl⟩

/-! ## A disabled product -/

def productOverrides : Json :=
  .object
    [("specs", .object [("Ints", .object [("*", .object [("mapsto", .null)]),
    ("+", .object [("mapsto", .string "plus")])])])]

def withoutProducts : OperatorTable :=
  (OperatorTable.default.applyOverrides productOverrides).snd

def squareOfNumber : Term :=
  .application (.operator .multiplication) [] [.symbol "x" .int,
    .symbol "x" .int] .int

/-- The square of a number that the model defines as a sum. -/
def squaredSum : Pair where
  formula :=
    ⟨[.application (.operator .equality) []
      [squareOfNumber, .literal (.integer 4)] .bool], []⟩
  model :=
    ⟨[⟨⟨"x", [], .int, .defined⟩, [], .application (.operator .addition) []
      [.literal (.integer 1), .literal (.integer 1)] .int⟩], []⟩
  symbols := ⟨[("x", ⟨"x", [], .int, .defined⟩)], [], []⟩

/-- The product is refused, so the pair has no theory; its sorts have types all
the same. -/
theorem squaredSum_fails :
    readPair "(declare-const x Int)(assert (= (* x x) 4))"
      "(define-fun x () Int (+ 1 1))" =
        .ok squaredSum ∧
      withoutProducts.Configured ∧
      (∃ fault, ofPair withoutProducts squaredSum = .error fault) ∧
      ∃ type, SmtSort.int.toHol squaredSum.symbols.userSorts = .ok type := by
  have read : readPair "(declare-const x Int)(assert (= (* x x) 4))"
      "(define-fun x () Int (+ 1 1))" = .ok squaredSum :=
    Outcome.toOption_eq_some_iff.mp (by decide +kernel)
  have configured : withoutProducts.Configured :=
    .overridden .default (Prod.ext (by decide +kernel) rfl)
  have disabled : withoutProducts .multiplication = .disabled :=
    SpellingEntry.spelling?_eq_none.mp (by decide +kernel)
  have within : squareOfNumber.PartOf
      (.application (.operator .equality) []
        [squareOfNumber, .literal (.integer 4)] .bool) :=
    .single List.mem_cons_self
  obtain ⟨fails, _, sorts⟩ := ofPair_fails_iff read configured
  exact ⟨read, configured,
    fails.mpr ⟨squareOfNumber, _,
      ⟨[], _, .assertion List.mem_cons_self, within⟩, .operator rfl disabled⟩,
    sorts _ (.term (.assertion List.mem_cons_self) within)⟩

end Obligation

end ModelAudit
