import ModelAudit.Proofs.Legible
import ModelAudit.Proofs.MeaningPreserved
import ModelAudit.Proofs.SpelledOperators

/-!
# Translations are legible

Identifiers and type variables are words that HOL reads as such, and the
spellings of Core and Ints put them together in forms that are read. So the
translation of a well-sorted term is read from its text.
-/

namespace ModelAudit

open InnerSyntax

/-! ## Identifiers -/

namespace Identifier

theorem isWordPart_of_isPart {point : CodePoint} (part : isPart point = true) :
    isWordPart point = true := by
  rw [isPart] at part
  rw [isWordPart, part, Bool.true_or]

theorem isWord_of_isPlain {identifier : Text}
    (plain : isPlain identifier = true) :
    isWord identifier = true := by
  cases identifier with
  | nil => cases plain
  | cons first rest =>
      obtain ⟨letter, parts⟩ := isPlain_cons.mp plain
      exact isWord_cons.mpr
        ⟨letter, fun point member => isWordPart_of_isPart (parts point member)⟩

theorem isWord_escape (name : Text) : isWord (escape name) = true :=
  isWord_of_isPlain (isPlain_escape name)

/-- A primed identifier is one word. -/
theorem isWord_primed (name : Text) (number : Nat) :
    isWord (HolScope.primed (escape name) number) = true := by
  have word := isWord_escape name
  rw [primed_eq]
  cases shape : escape name with
  | nil =>
      rw [shape] at word
      cases word
  | cons first rest =>
      rw [shape] at word
      obtain ⟨letter, parts⟩ := isWord_cons.mp word
      refine isWord_cons.mpr ⟨letter, List.forall_mem_append.mpr ⟨parts, ?_⟩⟩
      refine List.forall_mem_cons.mpr ⟨by decide, ?_⟩
      intro point member
      have digit := isDigit_of_mem_decimal member
      exact isWordPart_of_isPart
        (isPart_of_isAlphanumeric (by simp [isAlphanumeric, digit]))

theorem StandsFor.isVariable {identifier name : Text}
    (standsFor : StandsFor identifier name) :
    isVariable identifier = true := by
  have word : isWord identifier = true := by
    rcases standsFor with rfl | ⟨number, rfl⟩
    · exact isWord_escape name
    · exact isWord_primed name number
  simp [InnerSyntax.isVariable, word, standsFor.not_mem_reserved]

end Identifier

/-! ## Types -/

namespace SmtSort

variable {names : List Text} {sort : SmtSort} {type : HolType}

theorem legible_simpleType (name : Text) : (simpleType name).Legible := by
  have typeVariable : isTypeName (Identifier.typeVariable name) = true := by
    have mark : ("'" : Text) = [CodePoint.ofChar '\''] := by decide
    simp [Identifier.typeVariable, mark, isTypeName, Identifier.isWord_escape]
  unfold simpleType
  split_ifs
  · exact (by decide : isTypeName "bool" = true)
  · exact (by decide : isTypeName "int" = true)
  · exact (by decide : isTypeName "real" = true)
  · exact (by decide : isTypeName "string" = true)
  · exact typeVariable

/-- The type of a ground sort is legible. -/
theorem Ground.legible (ground : sort.Ground names)
    (translated : sort.toHol names = .ok type) :
    type.Legible := by
  induction ground generalizing type with
  | basic member =>
      rw [toHol_simple (.inl member)] at translated
      obtain rfl := Except.ok.inj translated
      exact legible_simpleType _
  | bitVec positive =>
      rw [toHol_bitVec] at translated
      obtain rfl := Except.ok.inj translated
      exact Int.le_of_lt positive
  | array _ _ indexHypothesis elementHypothesis =>
      rw [toHol_array] at translated
      obtain ⟨argument, indexType, translated⟩ :=
        Outcome.bind_eq_ok.mp translated
      obtain ⟨result, elementType, translated⟩ :=
        Outcome.bind_eq_ok.mp translated
      obtain rfl := Except.ok.inj translated
      exact ⟨indexHypothesis indexType, elementHypothesis elementType⟩
  | named member =>
      rw [toHol_simple (.inr member)] at translated
      obtain rfl := Except.ok.inj translated
      exact legible_simpleType _

end SmtSort

/-! ## Spellings -/

/-- Operators between two arguments and functions, but no templates and
sections. -/
def Fixity.Legible : Fixity → Prop
  | infixed symbol => infixes.contains symbol = true
  | prefixed function => isName function = true
  | _ => False

/-- Spellings of operators that are legible with any number of arguments. -/
structure Spelling.Legible (spelling : Spelling) : Prop where
  fixity : spelling.fixity.Legible
  single : spelling.single = none ∨ spelling.single = some .negative

/-- Negation and the conditional have forms of their own. -/
theorem Operator.legible_defaultSpelling {operator : Operator}
    (covered : operator.isCore = true ∨ operator.isInts = true)
    (notNegation : operator ≠ .negation)
    (notConditional : operator ≠ .conditional) :
    ∃ spelling, operator.defaultSpelling? = some spelling ∧
      spelling.Legible := by
  cases operator with
  | conjunction | disjunction | implication | exclusiveOr | equality
  | distinctness | addition
  | multiplication | less | atMost | greater | atLeast =>
      exact ⟨_, rfl, (by decide : infixes.contains _ = true), .inl rfl⟩
  | subtraction =>
    exact ⟨_, rfl, (by decide : infixes.contains _ = true), .inr rfl⟩
  | integerDivision | modulus | absolute =>
      exact ⟨_, rfl, (by decide : isName _ = true), .inl rfl⟩
  | negation => exact absurd rfl notNegation
  | conditional => exact absurd rfl notConditional
  | _ => simp [isCore, isInts] at covered

namespace Translation

open HolTerm

theorem legible_operatorClosed :
    OperatorClosed Fixity.Legible HolTerm.Legible where
  truth := .constant (by decide)
  call _ _ known legible := .apply (.inr rfl) known legible
  applySection _ _ known _ := known.elim
  operation _ _ _ known leftLegible rightLegible :=
    .operation known leftLegible rightLegible
  conjunction _ several legible := .conjunction several legible

theorem known_of_legible {fixity : Fixity} (legible : fixity.Legible) :
    fixity.Known Fixity.Legible := by
  cases fixity with
  | infixed symbol => exact legible
  | prefixed function => exact legible
  | templated template => exact legible.elim
  | sectioned symbol => exact legible.elim

theorem legible_plain? {spelling : Spelling} {arguments : List HolTerm}
    {translated : HolTerm} (known : spelling.Legible)
    (legible : ∀ argument ∈ arguments, argument.Legible)
    (shape : plain? spelling arguments = some translated) :
    translated.Legible := by
  refine legible_operatorClosed.plain?
    (known_of_legible known.fixity) ?_ legible shape
  intro template single filled
  obtain absent | negative := known.single
  · rw [absent] at single
    cases single
  · rw [negative] at single
    obtain rfl := Option.some.inj single
    match arguments with
    | [] => cases filled
    | argument :: others =>
        obtain rfl := Option.some.inj filled
        exact .prefixed (by decide) (legible argument List.mem_cons_self)

/-- The operators of Core and Ints are spelled legibly. -/
theorem legible_spell {userSorts : List Text} {operator : Operator}
    {indices : List Nat} {arguments : List HolTerm} {sort : SmtSort}
    {translated : HolTerm}
    (covered : operator.isCore = true ∨ operator.isInts = true)
    (single : operator = .negation → arguments.length = 1)
    (legible : ∀ argument ∈ arguments, argument.Legible)
    (shape : spell ⟨.default, userSorts⟩ operator indices arguments sort =
      .ok translated) :
    translated.Legible := by
  by_cases negation : operator = .negation
  · obtain ⟨argument, rfl⟩ := List.length_eq_one_iff.mp (single negation)
    subst negation
    obtain rfl := Except.ok.inj shape
    exact .prefixed (by decide) (legible argument (by simp))
  by_cases conditional : operator = .conditional
  · subst conditional
    obtain ⟨_, _, shape⟩ := Outcome.bind_eq_ok.mp shape
    obtain ⟨_, _, shape⟩ := Outcome.bind_eq_ok.mp shape
    have filled := eq_some_of_spelled shape
    match arguments with
    | [] | [_] | [_, _] => cases filled
    | test :: first :: second :: others =>
        obtain rfl := Option.some.inj filled
        exact .conditional (legible test (by simp)) (legible first (by simp))
          (legible second (by simp))
  · obtain ⟨spelling, known, spellingLegible⟩ :=
      Operator.legible_defaultSpelling covered negation conditional
    have plain : ∀ template, spelling.fixity ≠ .templated template := by
      intro template same
      have fixity := spellingLegible.fixity
      rw [same] at fixity
      exact fixity
    rw [spell_default known plain] at shape
    exact legible_plain? spellingLegible legible (eq_some_of_spelled shape)

/-! ## Terms -/

variable {symbols : SymbolTable}

theorem arity_of_negation {scope : Scope} {indices : List Nat}
    {sorts : List SmtSort} {sort : SmtSort}
    (fits : (Head.operator .negation).Fits symbols scope indices sorts sort) :
    sorts.length = 1 := by
  rcases fits with ⟨array, _⟩ | ⟨rule, known, fits⟩
  · cases array
  · obtain rfl := Option.some.inj known
    obtain ⟨_, _, least, most⟩ := SignatureRule.booleans_spec fits
    exact le_antisymm (most 1 rfl) least

private theorem zip_ne_nil {Source Left Right : Type} {sources : List Source}
    {left : List Left} {right : List Right}
    (leftLength : left.length = sources.length)
    (rightLength : right.length = sources.length) (nonempty : sources ≠ []) :
    left.zip right ≠ [] := by
  intro empty
  have count := congrArg List.length empty
  rw [List.length_zip, leftLength, rightLength, Nat.min_self] at count
  exact nonempty (List.length_eq_zero_iff.mp count)

theorem isVariable_of_mem_picks {scope : HolScope} {picked : List (Text × Text)}
    (picks : scope.Picks picked) {identifier : Text}
    (member : identifier ∈ picked.map Prod.snd) :
    isVariable identifier = true := by
  obtain ⟨pair, inside, rfl⟩ := List.mem_map.mp member
  exact (picks.standsFor pair inside).isVariable

theorem isName_of_standsFor {identifier name : Text}
    (standsFor : Identifier.StandsFor identifier name) :
    isName identifier = true := by
  rw [isName, standsFor.isVariable, Bool.true_or]

/-- Whatever the scope is that translates it, the term has a legible
translation. -/
def TranslatesLegibly (symbols : SymbolTable) (source : Term) : Prop :=
  ∀ (holScope : HolScope) (scope : Scope) (translated : HolTerm),
    holScope.Faithful →
    source.WellSorted symbols scope → source.inCoreInts = true →
    term ⟨.default, symbols.userSorts⟩ holScope source = .ok translated →
    translated.Legible

namespace TranslatesLegibly

theorem literal (value : Literal) :
    TranslatesLegibly symbols (.literal value) := by
  intro holScope scope translated _ _ covered shape
  cases value with
  | bool value =>
      obtain rfl := Except.ok.inj shape
      cases value
      · exact .constant (by decide)
      · exact .constant (by decide)
  | integer value =>
      obtain rfl := Except.ok.inj shape
      exact .numeral (isNumeral_decimal value)
        (by decide : isTypeName "int" = true)
  | _ => cases covered

theorem application {head : Head} {indices : List Nat} {arguments : List Term}
    {sort : SmtSort}
    (argumentsLegible : ∀ argument ∈ arguments,
      TranslatesLegibly symbols argument) :
    TranslatesLegibly symbols (.application head indices arguments sort) := by
  intro holScope scope translated faithful wellSorted covered shape
  obtain ⟨fits, wellSortedArguments⟩ := wellSorted
  obtain ⟨headCovered, argumentsCovered⟩ := Bool.and_eq_true_iff.mp covered
  obtain ⟨results, resultsShape, shape⟩ := Outcome.bind_eq_ok.mp shape
  have translations := terms_eq_ok.mp resultsShape
  have legible : ∀ result ∈ results, result.Legible := by
    refine Outcome.forall_mem_of_forall₂ translations
      fun argument member result computed => ?_
    exact argumentsLegible argument member holScope scope result faithful
      (Term.wellSortedAll_iff.mp wellSortedArguments argument member)
      (Term.allInCoreInts_iff.mp argumentsCovered argument member) computed
  cases head with
  | function name =>
      obtain rfl := Except.ok.inj shape
      exact .apply (.inl rfl) (isName_of_standsFor (.inl rfl)) legible
  | operator applied =>
      have known : applied.isCore = true ∨ applied.isInts = true := by
        rcases Bool.or_eq_true_iff.mp headCovered with core | ints
        · exact .inl core
        · exact .inr (Bool.and_eq_true_iff.mp ints).1
      refine legible_spell known ?_ legible shape
      rintro rfl
      rw [← translations.length_eq, ← arity_of_negation fits, List.length_map]

/-- A let is legible if its bound terms and its body are. -/
theorem letIn {bindings : List (Text × Term)} {body : Term}
    (bindingsLegible : ∀ binding ∈ bindings,
      TranslatesLegibly symbols binding.snd)
    (bodyLegible : TranslatesLegibly symbols body) :
    TranslatesLegibly symbols (.letIn bindings body) := by
  intro holScope scope translated faithful wellSorted covered shape
  obtain ⟨wellSortedBindings, wellSortedBody, nonempty⟩ := wellSorted
  obtain ⟨bindingsCovered, bodyCovered⟩ := Bool.and_eq_true_iff.mp covered
  obtain ⟨values, valuesShape, shape⟩ := Outcome.bind_eq_ok.mp shape
  obtain ⟨inner, innerShape, shape⟩ := Outcome.bind_eq_ok.mp shape
  obtain rfl := Except.ok.inj shape
  have translations := boundTerms_eq_ok.mp valuesShape
  have picks := holScope.picks_pick [] (letNames holScope bindings)
  have lengths :
      (holScope.pick [] (letNames holScope bindings)).length =
        bindings.length := by
    simpa using congrArg List.length (holScope.map_fst_letNames bindings)
  have legible : ∀ value ∈ values, value.Legible := by
    refine Outcome.forall_mem_of_forall₂ translations
      fun binding member result computed => ?_
    exact bindingsLegible binding member holScope scope result faithful
      (Term.wellSortedBindings_iff.mp wellSortedBindings binding member)
      (Term.boundInCoreInts_iff.mp bindingsCovered binding member) computed
  refine .letIn ?_ ?_ ?_ ?_
  · refine zip_ne_nil ?_ translations.length_eq.symm nonempty
    rw [List.length_map, lengths]
  · exact fun equation member =>
      isVariable_of_mem_picks picks (List.of_mem_zip member).1
  · exact fun equation member => legible _ (List.of_mem_zip member).2
  · exact bodyLegible _ _ inner (faithful.bind picks) wellSortedBody bodyCovered
      innerShape

/-- A quantified term is legible if its body is, as the types of binders are. -/
theorem quantified {quantifier : Quantifier} {binders : Binders} {body : Term}
    (bodyLegible : TranslatesLegibly symbols body) :
    TranslatesLegibly symbols (.quantified quantifier binders body) := by
  intro holScope scope translated faithful wellSorted covered shape
  obtain ⟨ground, _, wellSortedBody, nonempty⟩ := wellSorted
  rw [term, HolScope.enterBinders_eq] at shape
  obtain ⟨entered, enteredShape, shape⟩ := Outcome.bind_eq_ok.mp shape
  obtain ⟨types, typesShape, enteredShape⟩ := Outcome.bind_eq_ok.mp enteredShape
  obtain rfl := Except.ok.inj enteredShape
  obtain ⟨inner, innerShape, shape⟩ := Outcome.bind_eq_ok.mp shape
  obtain rfl := Except.ok.inj shape
  have picks : holScope.Picks (holScope.pickBinders binders) :=
    holScope.picks_pick [] _
  have translations := Outcome.mapM_eq_ok.mp typesShape
  have typesLegible : ∀ type ∈ types, type.Legible :=
    Outcome.forall_mem_of_forall₂ translations
      fun binder member type computed =>
      (ground binder member).legible computed
  have lengths : (holScope.pickBinders binders).length = binders.length := by
    simpa using congrArg List.length (holScope.map_fst_pickBinders binders)
  refine .bound ?_ ?_ ?_
  · refine zip_ne_nil ?_ translations.length_eq.symm nonempty
    rw [List.length_map, lengths]
  · intro entry member
    obtain ⟨identifier, type⟩ := List.of_mem_zip member
    exact ⟨isVariable_of_mem_picks picks identifier, typesLegible _ type⟩
  · exact bodyLegible _ _ inner (faithful.bind picks) wellSortedBody covered
      innerShape

end TranslatesLegibly

/-- Translations of well-sorted terms of Core and Ints are legible. -/
theorem translatesLegibly (source : Term) :
    TranslatesLegibly symbols source := by
  induction source using Term.induction with
  | literal value => exact .literal value
  | symbol name sort =>
      intro holScope scope translated faithful _ _ shape
      obtain rfl := Except.ok.inj shape
      exact .name (isName_of_standsFor (faithful.identifier_standsFor name))
  | functionArray function index element =>
      intro _ _ _ _ _ covered
      cases covered
  | application head indices arguments sort argumentsHypothesis =>
      exact .application argumentsHypothesis
  | letIn bindings body bindingsHypothesis bodyHypothesis =>
      exact .letIn bindingsHypothesis bodyHypothesis
  | quantified quantifier binders body bodyHypothesis =>
    exact .quantified bodyHypothesis
  | annotated inner attributes innerHypothesis => exact innerHypothesis

end Translation

end ModelAudit
