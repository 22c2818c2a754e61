import ModelAudit.Proofs.OperatorMeaning

/-!
# Translation preserves meaning

A term of Core and Ints and its translation have the same value, whatever the
declared sorts and symbols mean and whatever values the binders around the term
have. The names of binders are picked such that no constant of HOL is captured,
and the equations of a let such that none refers to an earlier one.
-/

namespace ModelAudit

variable {Element : Type}

/-! ## Constants are no identifiers of symbols -/

theorem holConstants_foreign :
    ∀ symbol ∈ (holConstants : Table (List (CommonValue Element) → _)).names,
      Identifier.isForeign symbol = true := by
  have shape : (holConstants : Table (List (CommonValue Element) → _)).names =
      (["True", "False", "\\<not>", "-", "abs", Helper.division.name,
        Helper.modulus.name] : List Text) := rfl
  rw [shape]
  decide +kernel

/-- All binders have identifiers that stand for names. -/
def Named (environment : Table (CommonValue Element)) : Prop :=
  ∀ identifier ∈ environment.names, ∃ name, Identifier.StandsFor identifier name

variable {environment : Table (CommonValue Element)}

theorem Named.constantsFree (named : Named environment) :
    ConstantsFree environment := by
  intro symbol constant
  rw [Table.find?_eq_none_iff]
  intro member
  obtain ⟨name, standsFor⟩ := named symbol member
  have foreign := holConstants_foreign symbol constant
  rw [standsFor.not_isForeign] at foreign
  cases foreign

theorem holConstants_find?_of_standsFor {identifier name : Text}
    (standsFor : Identifier.StandsFor identifier name) :
    (holConstants : Table (List (CommonValue Element) → _)).find? identifier =
      none := by
  rw [Table.find?_eq_none_iff]
  intro member
  have foreign := holConstants_foreign identifier member
  rw [standsFor.not_isForeign] at foreign
  cases foreign

theorem Named.cons (named : Named environment) {identifier name : Text}
    (standsFor : Identifier.StandsFor identifier name)
    (value : CommonValue Element) :
    Named ((identifier, value) :: environment) := by
  intro other member
  rcases List.mem_cons.mp member with rfl | inside
  · exact ⟨name, standsFor⟩
  · exact named other inside

theorem Named.enter (named : Named environment) {scope : HolScope}
    {picked : List (Text × Text)} (picks : scope.Picks picked)
    {values : List (CommonValue Element)}
    (lengths : picked.length = values.length) :
    Named (environment.enter (picked.map Prod.snd) values) := by
  intro identifier member
  rw [Table.names_enter (by simpa using lengths), List.mem_append,
    List.mem_reverse] at member
  rcases member with inside | outside
  · obtain ⟨pair, pairInside, rfl⟩ := List.mem_map.mp inside
    exact ⟨pair.fst, picks.standsFor pair pairInside⟩
  · exact named identifier outside

/-! ## Environments -/

variable {symbols : SymbolTable}
  {interpretation : Interpretation Element symbols}

namespace Interpretation

/-- The environment has a value of its sort for every binder around, and no
others. -/
def Typed (interpretation : Interpretation Element symbols) (scope : Scope)
    (environment : Table (CommonValue Element)) : Prop :=
  ∀ name, Option.Rel interpretation.carrier (scope.find? name)
    (environment.find? name)

theorem Typed.cons {scope : Scope}
    (typed : interpretation.Typed scope environment) (name : Text)
    {sort : SmtSort} {value : CommonValue Element}
    (carried : interpretation.carrier sort value) :
    interpretation.Typed ((name, sort) :: scope)
      ((name, value) :: environment) := by
  intro other
  by_cases same : name = other
  · simp only [Table.find?, same, if_true]
    exact .some carried
  · simp only [Table.find?, same, if_false]
    exact typed other

/-- Binders with values of their sorts keep the environment typed. -/
theorem Typed.enter {scope : Scope}
    (typed : interpretation.Typed scope environment) {binders : Binders}
    {values : List (CommonValue Element)}
    (carried : interpretation.Carries (binders.map Prod.snd) values) :
    interpretation.Typed (scope.enter binders)
      (environment.enter (binders.map Prod.fst) values) := by
  induction binders generalizing scope environment values with
  | nil => exact typed
  | cons binder binders inductionHypothesis =>
      obtain ⟨name, sort⟩ := binder
      obtain ⟨value, rest, head, tail, rfl⟩ :=
        List.forall₂_cons_left_iff.mp carried
      have inner := inductionHypothesis (typed.cons name head) tail
      simpa only [Scope.enter, List.reverse_cons, List.append_assoc,
        List.singleton_append, List.map_cons, Table.enter_cons] using inner

end Interpretation

namespace CommonValue

variable {domains : List (CommonValue Element → Prop)}
  {body other : List (CommonValue Element) → Option (CommonValue Element)}

theorem quantify_of_valued {quantifier : Quantifier}
    (valued : ∀ values, Ranges domains values →
      ∃ holds, body values = some (truth holds)) :
    quantify quantifier domains body =
      some (truth (quantified domains body quantifier)) :=
  if_pos valued

/-- Only the values matter that the variables range over. -/
theorem quantified_congr (quantifier : Quantifier)
    (same : ∀ values, Ranges domains values → body values = other values) :
    quantified domains body quantifier ↔
      quantified domains other quantifier := by
  cases quantifier with
  | universal =>
    exact forall₂_congr fun values ranges => by rw [same values ranges]
  | existential =>
      exact exists_congr fun values => and_congr_right fun ranges => by
        rw [same values ranges]

end CommonValue

/-! ## Terms -/

/-- The reading of the translation in `reading` has the value of the term. -/
def PreservesMeaning (interpretation : Interpretation Element symbols)
    (source : Term) : Prop :=
  ∀ (holScope : HolScope) (scope : Scope),
    (∀ name sort, scope.find? name = some sort →
      sort.Ground symbols.userSorts) →
    source.WellSorted symbols scope → source.inCoreInts = true →
    source.sort.Ground symbols.userSorts ∧
      ∃ translated,
        Translation.term ⟨.default, symbols.userSorts⟩ holScope source =
          .ok translated ∧
        ∀ (reading : HolInterpretation Element) byName byIdentifier,
          reading.Reads interpretation →
          holScope.Aligned byName byIdentifier source →
          Named byIdentifier → interpretation.Typed scope byName →
          ∃ value, source.value interpretation byName = some value ∧
            interpretation.carrier source.sort value ∧
            translated.value reading byIdentifier = some value

theorem Term.allInCoreInts_iff {terms : List Term} :
    allInCoreInts terms = true ↔ ∀ term ∈ terms, term.inCoreInts = true := by
  induction terms with
  | nil => simp [allInCoreInts]
  | cons first others inductionHypothesis =>
    simp [allInCoreInts, inductionHypothesis]

theorem Term.boundInCoreInts_iff {bindings : List (Text × Term)} :
    boundInCoreInts bindings = true ↔
      ∀ binding ∈ bindings, binding.snd.inCoreInts = true := by
  induction bindings with
  | nil => simp [boundInCoreInts]
  | cons first others inductionHypothesis =>
    simp [boundInCoreInts, inductionHypothesis]

namespace PreservesMeaning

theorem literal (value : Literal) :
    PreservesMeaning interpretation (.literal value) := by
  intro holScope scope _ _ covered
  cases value with
  | bool value =>
      refine ⟨Translation.bool_ground, .truth value, rfl, ?_⟩
      intro reading byName byIdentifier _ _ named _
      refine ⟨_, rfl, (interpretation.truths _).mpr ⟨_, rfl⟩, ?_⟩
      have free := named.constantsFree
      cases value with
      | true =>
          have truth :
              (HolTerm.constant "True").value reading byIdentifier =
                some (.truth True) :=
            (Translation.value_constant free rfl).trans rfl
          simpa [HolTerm.truth] using truth
      | false =>
          have truth : (HolTerm.constant "False").value reading byIdentifier =
              some (.truth False) :=
            (Translation.value_constant free rfl).trans rfl
          simpa [HolTerm.truth] using truth
  | integer value =>
      refine ⟨Translation.int_ground, .numeral (Text.decimal value) .int,
        rfl, ?_⟩
      intro reading byName byIdentifier _ _ named _
      refine ⟨_, rfl, (interpretation.integers _).mpr ⟨_, rfl⟩, ?_⟩
      rw [HolTerm.value, if_pos rfl, Text.decimalValue_decimal]
  | _ => cases covered

/-- What an identifier denotes that stands for a declared symbol. -/
theorem apply_escape {reading : HolInterpretation Element}
    (reads : reading.Reads interpretation) {name : Text}
    {arguments : List SmtSort} {result : SmtSort}
    (signature : symbols.HasSignature name arguments result)
    (unbound : environment.find? (Identifier.escape name) = none)
    (values : List (CommonValue Element)) :
    reading.apply environment (Identifier.escape name) values =
      some (interpretation.function name values) := by
  obtain ⟨declaration, found, _, _⟩ := signature
  have declared : name ∈ symbols.declarations.names :=
    List.mem_map_of_mem (Table.mem_of_find?_eq_some found)
  have standsFor : Identifier.StandsFor (Identifier.escape name) name :=
    .inl rfl
  have noConstant := @holConstants_find?_of_standsFor Element _ _ standsFor
  rw [HolInterpretation.apply, unbound, noConstant]
  simp only [reads.function name declared]

theorem symbol (wellFormed : symbols.WellFormed) (name : Text)
    (sort : SmtSort) :
    PreservesMeaning interpretation (.symbol name sort) := by
  intro holScope scope ground wellSorted _
  have sortGround : sort.Ground symbols.userSorts := by
    rcases wellSorted with bound | ⟨_, declaration, found, _, rfl⟩
    · exact ground name sort bound
    · exact wellFormed.results name declaration found
  refine ⟨sortGround, _, rfl, ?_⟩
  intro reading byName byIdentifier reads aligned named typed
  have agrees :
      byIdentifier.find? (holScope.identifier name) = byName.find? name :=
    aligned.agrees name (by simp [Term.freeNames])
  have typedName := typed name
  rw [HolTerm.value]
  rcases wellSorted with bound | ⟨unbound, signature⟩
  · rw [bound] at typedName
    cases found : byName.find? name with
    | none => rw [found] at typedName; cases typedName
    | some value =>
        rw [found] at typedName agrees
        cases typedName with | some carried =>
        refine ⟨value, by rw [Term.value, found]; rfl, carried, ?_⟩
        simp [HolInterpretation.apply, agrees]
  · rw [unbound] at typedName
    cases found : byName.find? name with
    | some value => rw [found] at typedName; cases typedName
    | none =>
        have escaped := aligned.covered.identifier_eq found
        rw [found, escaped] at agrees
        refine ⟨interpretation.function name [],
          by rw [Term.value, found]; rfl, ?_, ?_⟩
        · exact interpretation.signature name [] sort [] signature .nil
        · rw [escaped, apply_escape reads signature agrees]

variable {holScope : HolScope} {scope : Scope}

/-- Terms in a list are translated one by one, and each keeps its meaning. -/
private theorem terms {sources : List Term}
    (preserved : ∀ source ∈ sources, PreservesMeaning interpretation source)
    (ground : ∀ name sort, scope.find? name = some sort →
      sort.Ground symbols.userSorts)
    (wellSorted : ∀ source ∈ sources, source.WellSorted symbols scope)
    (covered : ∀ source ∈ sources, source.inCoreInts = true) :
    (∀ sort ∈ sources.map Term.sort, sort.Ground symbols.userSorts) ∧
      ∃ translated,
        Translation.terms ⟨.default, symbols.userSorts⟩ holScope sources =
          .ok translated ∧
        translated.length = sources.length ∧
        ∀ (reading : HolInterpretation Element) byName byIdentifier,
          reading.Reads interpretation →
          (∀ source ∈ sources, holScope.Aligned byName byIdentifier source) →
          Named byIdentifier → interpretation.Typed scope byName →
          ∃ values, Term.valueAll interpretation byName sources = some values ∧
            interpretation.Carries (sources.map Term.sort) values ∧
            HolTerm.Evaluates reading byIdentifier translated values := by
  induction sources with
  | nil =>
      refine ⟨by simp, [], rfl, rfl, ?_⟩
      exact fun _ _ _ _ _ _ _ => ⟨[], rfl, .nil, .nil⟩
  | cons first others inductionHypothesis =>
      obtain ⟨firstGround, head, headTranslated, headValued⟩ :=
        preserved first (by simp) holScope scope ground
          (wellSorted first (by simp)) (covered first (by simp))
      obtain ⟨othersGround, tail, tailTranslated, lengths, tailValued⟩ :=
        inductionHypothesis
          (fun source member => preserved source
            (List.mem_cons_of_mem _ member))
          (fun source member => wellSorted source
            (List.mem_cons_of_mem _ member))
          (fun source member => covered source (List.mem_cons_of_mem _ member))
      refine ⟨List.forall_mem_cons.mpr ⟨firstGround, othersGround⟩,
        head :: tail, ?_, ?_, ?_⟩
      · rw [Translation.terms, headTranslated, tailTranslated]
        rfl
      · rw [List.length_cons, List.length_cons, lengths]
      · intro reading byName byIdentifier reads aligned named typed
        obtain ⟨value, valued, carried, evaluated⟩ :=
          headValued reading byName byIdentifier reads
            (aligned first (by simp)) named typed
        obtain ⟨values, valuedAll, carriedAll, evaluatedAll⟩ :=
          tailValued reading byName byIdentifier reads
            (fun source member => aligned source
              (List.mem_cons_of_mem _ member)) named typed
        refine ⟨value :: values, ?_, .cons carried carriedAll,
          .cons evaluated evaluatedAll⟩
        rw [Term.valueAll, valued, valuedAll]
        rfl

/-- Arguments with meaning make an application with meaning, whether an operator
or a function is applied. -/
theorem application (wellFormed : symbols.WellFormed) {head : Head}
    {indices : List Nat} {arguments : List Term} {sort : SmtSort}
    (preserved : ∀ argument ∈ arguments,
      PreservesMeaning interpretation argument) :
    PreservesMeaning interpretation
      (.application head indices arguments sort) := by
  intro holScope scope ground wellSorted covered
  obtain ⟨fits, wellSortedArguments⟩ := wellSorted
  obtain ⟨coveredHead, coveredArguments⟩ := Bool.and_eq_true_iff.mp covered
  obtain ⟨argumentsGround, translated, argumentsTranslated, lengths,
      argumentsValued⟩ :=
    terms preserved ground (Term.wellSortedAll_iff.mp wellSortedArguments)
      (Term.allInCoreInts_iff.mp coveredArguments)
  cases head with
  | function name =>
      obtain ⟨unbound, signature⟩ := fits
      have sortGround : sort.Ground symbols.userSorts := by
        obtain ⟨declaration, found, _, rfl⟩ := signature
        exact wellFormed.results name declaration found
      refine ⟨sortGround, .apply (.name (Identifier.escape name)) translated,
        ?_, ?_⟩
      · rw [Translation.term, argumentsTranslated]
        rfl
      · intro reading byName byIdentifier reads aligned named typed
        obtain ⟨values, valued, carried, evaluated⟩ :=
          argumentsValued reading byName byIdentifier reads aligned.argument
            named typed
        have free := (aligned.uncaptured name (by simp [Term.heads])).2
        refine ⟨interpretation.function name values, ?_, ?_, ?_⟩
        · rw [Term.value, valued]
          rfl
        · exact interpretation.signature name _ sort values signature carried
        · rw [HolTerm.value, HolTerm.valueAll_of_evaluates evaluated]
          exact apply_escape reads signature free values
  | operator operator =>
      have allowed : operator.isCore = true ∨
          operator.isInts = true ∧
          ∀ sort ∈ arguments.map Term.sort, sort = .int := by
        simpa using coveredHead
      have ruled : ∃ rule, operator.rule? = some rule ∧
          rule.resultSort operator (arguments.map Term.sort)
            (indices.map Int.ofNat) =
            .ok sort := by
        rcases fits with ⟨rfl, _⟩ | ruled
        · cases coveredHead
        · exact ruled
      obtain ⟨sortGround, term, spelled, kept⟩ :=
        Translation.operator_keepsMeaning
          interpretation allowed ruled argumentsGround (by simpa using lengths)
      refine ⟨sortGround, term, ?_, ?_⟩
      · rw [Translation.term, argumentsTranslated]
        exact spelled
      · intro reading byName byIdentifier reads aligned named typed
        obtain ⟨values, valued, carried, evaluated⟩ :=
          argumentsValued reading byName byIdentifier reads aligned.argument
            named typed
        obtain ⟨result, meaning, resultCarried, value⟩ :=
          kept reading byIdentifier values named.constantsFree evaluated carried
        refine ⟨result, ?_, resultCarried, value⟩
        rw [Term.value, valued]
        exact meaning

variable (holScope) in
/-- The terms of a let. They are evaluated outside of it in the one case, and
each inside the equations before it in the other. -/
private theorem bindings {sources : List (Text × Term)}
    (preserved : ∀ source ∈ sources, PreservesMeaning interpretation source.snd)
    (ground : ∀ name sort, scope.find? name = some sort →
      sort.Ground symbols.userSorts)
    (wellSorted : ∀ source ∈ sources, source.snd.WellSorted symbols scope)
    (covered : ∀ source ∈ sources, source.snd.inCoreInts = true) :
    (∀ source ∈ sources, source.snd.sort.Ground symbols.userSorts) ∧
      ∃ translated,
        Translation.boundTerms ⟨.default, symbols.userSorts⟩ holScope sources =
          .ok translated ∧
        translated.length = sources.length ∧
        ∀ (reading : HolInterpretation Element) byName byIdentifier picked,
          reading.Reads interpretation →
          (∀ source ∈ sources,
            holScope.Aligned byName byIdentifier source.snd) →
          Named byIdentifier → interpretation.Typed scope byName →
          picked.length = sources.length → holScope.Picks picked →
          holScope.Spares picked sources →
          ∃ values, Term.valueBindings interpretation byName sources =
              some values ∧
            interpretation.Carries (sources.map fun source => source.snd.sort)
              values ∧
            HolTerm.enterEquations reading byIdentifier
                ((picked.map Prod.snd).zip translated) =
              some (byIdentifier.enter (picked.map Prod.snd) values) := by
  induction sources with
  | nil =>
      refine ⟨by simp, [], rfl, rfl, ?_⟩
      intro reading byName byIdentifier picked _ _ _ _ lengths _ _
      obtain rfl : picked = [] := List.length_eq_zero_iff.mp lengths
      exact ⟨[], rfl, .nil, rfl⟩
  | cons first others inductionHypothesis =>
      obtain ⟨name, bound⟩ := first
      obtain ⟨firstGround, head, headTranslated, headValued⟩ :=
        preserved (name, bound) (by simp) holScope scope ground
          (wellSorted (name, bound) (by simp)) (covered (name, bound) (by simp))
      obtain ⟨othersGround, tail, tailTranslated, count, tailValued⟩ :=
        inductionHypothesis
          (fun source member => preserved source
            (List.mem_cons_of_mem _ member))
          (fun source member => wellSorted source
            (List.mem_cons_of_mem _ member))
          (fun source member => covered source (List.mem_cons_of_mem _ member))
      refine ⟨List.forall_mem_cons.mpr ⟨firstGround, othersGround⟩,
        head :: tail, ?_, ?_, ?_⟩
      · rw [Translation.boundTerms, headTranslated, tailTranslated]
        rfl
      · rw [List.length_cons, List.length_cons, count]
      · intro reading byName byIdentifier picked reads aligned named typed
          lengths picks spares
        cases picked with
        | nil => cases lengths
        | cons pair rest =>
            have lengthsRest : rest.length = others.length :=
              Nat.succ.inj lengths
            obtain ⟨value, valued, carried, evaluated⟩ :=
              headValued reading byName byIdentifier reads
                (aligned (name, bound) (by simp)) named typed
            have alignedRest := HolScope.Aligned.later
              (fun source member => aligned source
                (List.mem_cons_of_mem _ member))
              spares picks lengthsRest value
            have namedRest := named.cons (picks.standsFor pair (by simp)) value
            obtain ⟨values, valuedAll, carriedAll, entered⟩ :=
              tailValued reading byName _ rest reads alignedRest namedRest typed
                lengthsRest picks.tail spares.tail
            refine ⟨value :: values, ?_, .cons carried carriedAll, ?_⟩
            · rw [Term.valueBindings, valued, valuedAll]
              rfl
            · rw [List.map_cons, List.zip_cons_cons, HolTerm.enterEquations,
                evaluated, Table.enter_cons]
              exact entered

/-- Both sides enter the values of the bound terms, under names and under
identifiers. -/
theorem letIn {bindings : List (Text × Term)} {body : Term}
    (preserved : ∀ binding ∈ bindings,
      PreservesMeaning interpretation binding.snd)
    (bodyPreserved : PreservesMeaning interpretation body) :
    PreservesMeaning interpretation (.letIn bindings body) := by
  intro holScope scope ground wellSorted covered
  obtain ⟨wellSortedBindings, wellSortedBody, _⟩ := wellSorted
  obtain ⟨coveredBindings, coveredBody⟩ := Bool.and_eq_true_iff.mp covered
  let picked := holScope.pick [] (Translation.letNames holScope bindings)
  have names : picked.map Prod.fst = bindings.map Prod.fst := by
    rw [HolScope.map_fst_pick, HolScope.map_fst_letNames]
  have lengths : picked.length = bindings.length := by
    simpa using congrArg List.length names
  have picks : holScope.Picks picked := holScope.picks_pick [] _
  obtain ⟨boundGround, values, boundTranslated, count, boundValued⟩ :=
    PreservesMeaning.bindings holScope preserved ground
      (Term.wellSortedBindings_iff.mp wellSortedBindings)
      (Term.boundInCoreInts_iff.mp coveredBindings)
  have innerGround : ∀ binder ∈ Term.letBinders bindings,
      binder.snd.Ground symbols.userSorts := by
    intro binder member
    obtain ⟨binding, inside, rfl⟩ := List.mem_map.mp member
    exact boundGround binding inside
  obtain ⟨bodyGround, inner, innerTranslated, innerValued⟩ :=
    bodyPreserved (holScope.bind picked) _
      (Scope.Ground.enter ground innerGround) wellSortedBody coveredBody
  refine ⟨bodyGround, .letIn ((picked.map Prod.snd).zip values) inner, ?_, ?_⟩
  · rw [Translation.term, boundTranslated]
    simp only [Outcome.ok_bind]
    rw [innerTranslated]
    rfl
  · intro reading byName byIdentifier reads aligned named typed
    obtain ⟨given, valued, carried, entered⟩ :=
      boundValued reading byName byIdentifier picked reads aligned.bound named
        typed lengths picks (holScope.pick_letNames_spares bindings)
    have givenLength : picked.length = given.length := by
      rw [lengths, ← carried.length_eq, List.length_map]
    have innerTyped :
        interpretation.Typed (scope.enter (Term.letBinders bindings))
        (byName.enter (bindings.map Prod.fst) given) := by
      rw [← Term.map_fst_letBinders]
      apply typed.enter
      rwa [Term.map_snd_letBinders]
    obtain ⟨value, bodyValued, bodyCarried, evaluated⟩ :=
      innerValued reading _ _ reads (aligned.letBody picks givenLength names)
        (named.enter picks givenLength) innerTyped
    refine ⟨value, ?_, bodyCarried, ?_⟩
    · rw [Term.value, valued]
      exact bodyValued
    · rw [HolTerm.value, entered]
      exact evaluated

/-- The types of binders have the values that their sorts have. -/
private theorem domains_of_reads {reading : HolInterpretation Element}
    (reads : reading.Reads interpretation) {binders : Binders}
    {types : List HolType}
    (ground : ∀ binder ∈ binders, binder.snd.Ground symbols.userSorts)
    (translated : List.Forall₂
      (fun binder type => binder.snd.toHol symbols.userSorts = .ok type) binders
      types) :
    types.map reading.domain = binders.map fun binder =>
      interpretation.carrier binder.snd := by
  induction translated with
  | nil => rfl
  | @cons binder type binders types head _ inductionHypothesis =>
      have first : reading.domain type = interpretation.carrier binder.snd := by
        funext value
        exact propext (reads.domain _ _ (ground binder (by simp)) head value)
      rw [List.map_cons, List.map_cons, first,
        inductionHypothesis fun binder member =>
          ground binder (List.mem_cons_of_mem _ member)]

private theorem map_domain_zip {reading : HolInterpretation Element}
    {identifiers : List Text} {types : List HolType}
    (count : types.length = identifiers.length) :
    (identifiers.zip types).map (fun entry => reading.domain entry.snd) =
      types.map reading.domain := by
  have kept : (identifiers.zip types).map Prod.snd = types :=
    List.map_snd_zip (Nat.le_of_eq count)
  calc (identifiers.zip types).map (fun entry => reading.domain entry.snd)
      = ((identifiers.zip types).map Prod.snd).map reading.domain := by
        rw [List.map_map]
        rfl
    _ = types.map reading.domain := by rw [kept]

/-- Both sides range over the same values, since a sort and its type have the
same ones. -/
theorem quantified {quantifier : Quantifier} {binders : Binders} {body : Term}
    (bodyPreserved : PreservesMeaning interpretation body) :
    PreservesMeaning interpretation (.quantified quantifier binders body) := by
  intro holScope scope ground wellSorted covered
  obtain ⟨bindersGround, bodyBool, wellSortedBody, _⟩ := wellSorted
  let picked := holScope.pickBinders binders
  have names : picked.map Prod.fst = binders.map Prod.fst :=
    holScope.map_fst_pickBinders binders
  have lengths : picked.length = binders.length := by
    simpa using congrArg List.length names
  have picks : holScope.Picks picked := holScope.picks_pick [] _
  obtain ⟨types, typesTranslated⟩ := Outcome.exists_mapM_eq_ok
    fun binder member => (bindersGround binder member).toHol_ok
  have typesOf := Outcome.mapM_eq_ok.mp typesTranslated
  have count : types.length = (picked.map Prod.snd).length := by
    rw [List.length_map, lengths, typesOf.length_eq]
  obtain ⟨_, inner, innerTranslated, innerValued⟩ :=
    bodyPreserved (holScope.bind picked) _
      (Scope.Ground.enter ground bindersGround) wellSortedBody covered
  refine ⟨Translation.bool_ground, .bound (Translation.binderOf quantifier)
    ((picked.map Prod.snd).zip types) inner, ?_, ?_⟩
  · rw [Translation.term, HolScope.enterBinders_eq]
    simp only [typesTranslated, Outcome.ok_bind, Outcome.pure_eq]
    rw [innerTranslated]
    rfl
  · intro reading byName byIdentifier reads aligned named typed
    have domains :
        ((picked.map Prod.snd).zip types).map
            (fun entry => reading.domain entry.snd) =
          binders.map fun binder => interpretation.carrier binder.snd := by
      rw [map_domain_zip count, domains_of_reads reads bindersGround typesOf]
    have identifiers :
        ((picked.map Prod.snd).zip types).map Prod.fst = picked.map Prod.snd :=
      List.map_fst_zip (Nat.le_of_eq count.symm)
    have bodyValued (values : List (CommonValue Element))
        (ranges : CommonValue.Ranges
          (binders.map fun binder => interpretation.carrier binder.snd)
          values) :
        ∃ holds,
          body.value interpretation
            (byName.enter (binders.map Prod.fst) values) =
              some (.truth holds) ∧
            inner.value reading
              (byIdentifier.enter (picked.map Prod.snd) values) =
              some (.truth holds) := by
      have carried : interpretation.Carries (binders.map Prod.snd) values := by
        rw [CommonValue.Ranges, List.forall₂_map_left_iff] at ranges
        rwa [Interpretation.Carries, List.forall₂_map_left_iff]
      have valuesLength : picked.length = values.length := by
        rw [lengths, ← carried.length_eq, List.length_map]
      obtain ⟨value, bodyValue, bodyCarried, innerValue⟩ :=
        innerValued reading _ _ reads
          (aligned.quantifiedBody picks valuesLength names)
          (named.enter picks valuesLength) (typed.enter carried)
      rw [bodyBool] at bodyCarried
      obtain ⟨holds, rfl⟩ := (interpretation.truths value).mp bodyCarried
      exact ⟨holds, bodyValue, innerValue⟩
    have quantifierOf :
        (Translation.binderOf quantifier).quantifier? = some quantifier := by
      cases quantifier <;> rfl
    have same := CommonValue.quantified_congr quantifier fun values ranges => by
      obtain ⟨holds, bodyValue, innerValue⟩ := bodyValued values ranges
      exact innerValue.trans bodyValue.symm
    refine ⟨.truth (CommonValue.quantified
        (binders.map fun binder => interpretation.carrier binder.snd)
        (fun values => body.value interpretation
          (byName.enter (binders.map Prod.fst) values))
        quantifier), ?_, (interpretation.truths _).mpr ⟨_, rfl⟩, ?_⟩
    · rw [Term.value]
      apply CommonValue.quantify_of_valued
      intro values ranges
      obtain ⟨holds, bodyValue, _⟩ := bodyValued values ranges
      exact ⟨holds, bodyValue⟩
    · rw [HolTerm.value, quantifierOf, domains, identifiers]
      have innerHolds : ∀ values, CommonValue.Ranges
          (binders.map fun binder => interpretation.carrier binder.snd) values →
          ∃ holds, inner.value reading
            (byIdentifier.enter (picked.map Prod.snd) values) =
            some (.truth holds) := by
        intro values ranges
        obtain ⟨holds, _, innerValue⟩ := bodyValued values ranges
        exact ⟨holds, innerValue⟩
      exact (CommonValue.quantify_of_valued innerHolds).trans
        (congrArg some (Translation.truth_congr same))

theorem annotated {inner : Term} {attributes : List (Text × Text)}
    (preserved : PreservesMeaning interpretation inner) :
    PreservesMeaning interpretation (.annotated inner attributes) := by
  intro holScope scope ground wellSorted covered
  obtain ⟨innerGround, translated, innerTranslated, valued⟩ :=
    preserved holScope scope ground wellSorted covered
  refine ⟨innerGround, translated, innerTranslated, ?_⟩
  intro reading byName byIdentifier reads aligned
  apply valued reading byName byIdentifier reads
  exact aligned.part (fun _ free => free) fun _ applied => applied

end PreservesMeaning

theorem preservesMeaning (wellFormed : symbols.WellFormed)
    (interpretation : Interpretation Element symbols) (source : Term) :
    PreservesMeaning interpretation source := by
  induction source using Term.induction with
  | literal value => exact .literal value
  | symbol name sort => exact .symbol wellFormed name sort
  | functionArray function index element =>
      intro holScope scope _ _ covered
      cases covered
  | application head indices arguments sort argumentsHypothesis =>
      exact .application wellFormed argumentsHypothesis
  | letIn bindings body bindingsHypothesis bodyHypothesis =>
      exact .letIn bindingsHypothesis bodyHypothesis
  | quantified quantifier binders body bodyHypothesis =>
    exact .quantified bodyHypothesis
  | annotated inner attributes innerHypothesis =>
    exact .annotated innerHypothesis

end ModelAudit
